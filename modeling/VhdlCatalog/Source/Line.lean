import VhdlCatalog.Text.Blank
import VhdlCatalog.Source.Utf8

/-!
**Lines of a source.**

A source is cut into lines at a line feed, at a carriage return, and at the two together.  Every
line keeps its terminator, so that lengths of lines add up to offsets into the source.

Main definitions:

* `VhdlCatalog.Source.lines` — the lines, terminators included;
* `VhdlCatalog.Source.lineText` — the text of one line, terminator left out;
* `VhdlCatalog.Source.slice` — the bytes between two offsets;
* `VhdlCatalog.Source.stripComment` — a line without its comment;
* `VhdlCatalog.Source.collapse` — a line with single spaces.

Main results:

* `VhdlCatalog.Source.flatten_lines` — nothing is lost by cutting.
-/

set_option relaxedAutoImplicit false
set_option autoImplicit false

namespace VhdlCatalog.Source

/-! ### Cutting into lines -/

/-- Line feed. -/
def lf : UInt8 := 10

/-- Carriage return. -/
def cr : UInt8 := 13

/-- Puts one more byte before bytes that are already cut into lines. -/
def extendLines (b : UInt8) : List Bytes → List Bytes
  | [] => [[b]]
  | line :: more =>
      if b = lf then [lf] :: line :: more
      else if b = cr then
        if line = [lf] then [cr, lf] :: more else [cr] :: line :: more
      else (b :: line) :: more

/-- The lines of a source, each with its terminator.  Only the last one may lack it. -/
def lines (data : Bytes) : List Bytes := data.foldr extendLines []

@[simp] theorem lines_nil : lines [] = [] := rfl

@[simp] theorem lines_cons (b : UInt8) (data : Bytes) :
    lines (b :: data) = extendLines b (lines data) := rfl

theorem flatten_extendLines (b : UInt8) (ls : List Bytes) :
    (extendLines b ls).flatten = b :: ls.flatten := by
  cases ls with
  | nil => rfl
  | cons line more =>
      simp only [extendLines]
      split
      · next h => simp [h]
      · split
        · next h =>
            split
            · next hl => simp [h, hl]
            · simp [h]
        · simp

/-- **Nothing is lost**: the lines one after another are the source. -/
theorem flatten_lines (data : Bytes) : (lines data).flatten = data := by
  induction data with
  | nil => rfl
  | cons b data ih => rw [lines_cons, flatten_extendLines, ih]

/-! ### Text of a line -/

/-- `c` belongs to a line terminator. -/
def isTerminator (c : Char) : Bool := c == '\r' || c == '\n'

/-- The text of a line as written, without its terminator. -/
def lineText (raw : Bytes) : List Char := Text.trimEnd isTerminator (Utf8.decode raw)

/-- The part of a line before its first `--`, or all of it. -/
def stripComment : List Char → List Char
  | [] => []
  | '-' :: '-' :: _ => []
  | c :: cs => c :: stripComment cs

/-- The words of a text with one space between them. -/
def collapse (cs : List Char) : List Char := Text.join [' '] (Text.words cs)

/-! ### Excerpts -/

/-- The position that an offset into `n` bytes stands for: a negative one counts from the end, and
one outside is moved to the nearest end. -/
def position (n : Nat) (offset : Int) : Nat :=
  if offset < 0 then (offset + n).toNat else min offset.toNat n

/-- The bytes from one offset up to another. -/
def slice (data : Bytes) (start stop : Int) : Bytes :=
  let n := data.length
  (data.drop (position n start)).take (position n stop - position n start)

end VhdlCatalog.Source
