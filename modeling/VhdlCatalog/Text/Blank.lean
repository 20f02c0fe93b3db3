import VhdlCatalog.Text.CharSet

/-!
**White space and cutting text.**

Text is handled as a list of characters.  This module says which characters are white space and
holds the operations that only need to know that: trimming, cutting at a character class, and
splitting into words.

Main definitions:

* `VhdlCatalog.isBlank` — the white-space characters;
* `VhdlCatalog.Text.pieces` — cutting at every character of a class;
* `VhdlCatalog.Text.words` — the maximal runs of characters that are not white space;
* `VhdlCatalog.Text.strip`, `VhdlCatalog.Text.trimEnd` — trimming.
-/

set_option relaxedAutoImplicit false
set_option autoImplicit false

namespace VhdlCatalog

/-- The white-space characters: the bidirectional classes WS, B and S and the category Zs. -/
def blanks : CharSet where
  ranges := [(0x9, 0xd), (0x1c, 0x20), (0x85, 0x85), (0xa0, 0xa0), (0x1680, 0x1680),
    (0x2000, 0x200a), (0x2028, 0x2029), (0x202f, 0x202f), (0x205f, 0x205f), (0x3000, 0x3000)]

/-- `c` is white space. -/
def isBlank (c : Char) : Bool := blanks.contains c

namespace Text

/-! ### Trimming -/

/-- Text without its leading white space. -/
def skipBlanks (cs : List Char) : List Char := cs.dropWhile isBlank

/-- Text without the characters of `p` at its end. -/
def trimEnd (p : Char → Bool) (cs : List Char) : List Char := (cs.reverse.dropWhile p).reverse

/-- Text without the white space at both ends. -/
def strip (cs : List Char) : List Char := trimEnd isBlank (skipBlanks cs)

/-! ### Cutting -/

/-- Puts one more character before text that is already cut at `p`. -/
def extendPieces (p : Char → Bool) (c : Char) : List (List Char) → List (List Char)
  | [] => if p c then [[], []] else [[c]]
  | piece :: more => if p c then [] :: piece :: more else (c :: piece) :: more

/-- Cuts text at every character of `p`.  The cutting characters are left out, and there is one
piece more than there are of them. -/
def pieces (p : Char → Bool) (cs : List Char) : List (List Char) :=
  cs.foldr (extendPieces p) [[]]

@[simp] theorem pieces_nil (p : Char → Bool) : pieces p [] = [[]] := rfl

@[simp] theorem pieces_cons (p : Char → Bool) (c : Char) (cs : List Char) :
    pieces p (c :: cs) = extendPieces p c (pieces p cs) := rfl

/-- The words of a text: its maximal runs of characters that are not white space. -/
def words (cs : List Char) : List (List Char) :=
  (pieces isBlank cs).filter fun w => !w.isEmpty

/-- The parts of a text one after another with `sep` between them. -/
def join (sep : List Char) (parts : List (List Char)) : List Char := sep.intercalate parts

/-- What follows `lit` in a text that begins with it. -/
def afterLiteral? : List Char → List Char → Option (List Char)
  | [], cs => some cs
  | _ :: _, [] => none
  | l :: lit, c :: cs => if l = c then afterLiteral? lit cs else none

@[simp] theorem afterLiteral?_nil (cs : List Char) : afterLiteral? [] cs = some cs := by
  cases cs <;> rfl

/-- A text begins with a literal exactly when it is the literal and what is left. -/
theorem afterLiteral?_eq_some_iff (lit cs rest : List Char) :
    afterLiteral? lit cs = some rest ↔ cs = lit ++ rest := by
  induction lit generalizing cs with
  | nil => simp
  | cons l lit ih =>
      cases cs with
      | nil => simp [afterLiteral?]
      | cons c cs =>
          by_cases h : l = c
          · simp [afterLiteral?, h, ih]
          · simp [afterLiteral?, h, Ne.symm h]

/-! ### Lines of a text -/

/-- The characters that end a line of a text. -/
def lineBreaks : CharSet where
  ranges := [(0xa, 0xd), (0x1c, 0x1e), (0x85, 0x85), (0x2028, 0x2029)]

/-- The lines of a text, without what ends them.  A carriage return and the line feed after it end
a line together, and text after the last break is a line if there is any. -/
def lines : List Char → List (List Char)
  | [] => []
  | '\r' :: '\n' :: cs => [] :: lines cs
  | c :: cs =>
      if lineBreaks.contains c then [] :: lines cs
      else match lines cs with
        | [] => [[c]]
        | line :: more => (c :: line) :: more

end Text

end VhdlCatalog
