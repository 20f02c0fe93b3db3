import Mathlib.Data.List.Chain
import VhdlCatalog.Source.Cursor

/-!
**The lines of a source, each in its place.**

The cursor of `VhdlCatalog.Source.Cursor` hands out code lines one by one and keeps running sums of
lengths.  This module says what those sums stand for, without a cursor: every line of a source has
a number, a first and a last offset, and a kind, and the lines stand one after another without gaps.

Main definitions:

* `VhdlCatalog.Source.SourceLine` — a line with its number and its offsets;
* `VhdlCatalog.Source.sourceLines` — all lines of a source, of whatever kind;
* `VhdlCatalog.Source.codePlaces` — the code lines before the first body;
* `VhdlCatalog.Source.LineBoundary` — an offset at an end of the source or just after a line
  terminator.

Main results:

* `VhdlCatalog.Source.lineBoundary_of_lines_eq` — **lines are cut at terminators**: what stands
  before a line ends at a boundary;
* `VhdlCatalog.Source.pairwise_sourceLines` — every line ends before the next one begins;
* `VhdlCatalog.Source.number_eq_countP` — the number of a line counts the lines before it;
* `VhdlCatalog.Source.number_lt_number` — numbers grow from line to line.
-/

set_option relaxedAutoImplicit false
set_option autoImplicit false

namespace VhdlCatalog.Source

/-! ### Line terminators -/

/-- A line terminator ends with `before`, and `after` does not carry it on: the two bytes of a
carriage return with its line feed are never divided. -/
def Divides (before after : Bytes) : Prop :=
  before.getLast? = some lf ∨ before.getLast? = some cr ∧ after.head? ≠ some lf

/-- The offset is one of the ends of the source, or stands just after a line terminator. -/
def LineBoundary (data : Bytes) (offset : Int) : Prop :=
  offset = 0 ∨ offset = data.length ∨
    ∃ before after, data = before ++ after ∧ offset = before.length ∧ Divides before after

/-- What a line looks like: it has a byte, and a line feed in front is all of it. -/
structure IsLine (line : Bytes) : Prop where
  ne_nil : line ≠ []
  eq_of_head : line.head? = some lf → line = [lf]

theorem isLine_singleton (b : UInt8) : IsLine [b] :=
  ⟨by simp, fun h => by simpa using h⟩

theorem isLine_extendLines {b : UInt8} {ls : List Bytes} (h : ∀ line ∈ ls, IsLine line) :
    ∀ line ∈ extendLines b ls, IsLine line := by
  cases ls with
  | nil =>
      intro line hl
      rw [List.mem_singleton.1 hl]
      exact isLine_singleton b
  | cons first more =>
      simp only [extendLines]
      split
      · exact List.forall_mem_cons.2 ⟨isLine_singleton lf, h⟩
      · next hlf =>
          split
          · split
            · refine List.forall_mem_cons.2 ⟨⟨by simp, ?_⟩, fun line hl => h line (by simp [hl])⟩
              intro hh
              exact absurd hh (by decide)
            · exact List.forall_mem_cons.2 ⟨isLine_singleton cr, h⟩
          · refine List.forall_mem_cons.2 ⟨⟨by simp, ?_⟩, fun line hl => h line (by simp [hl])⟩
            intro hh
            exact absurd (by simpa using hh) hlf

theorem isLine_of_mem_lines {data line : Bytes} (h : line ∈ lines data) : IsLine line := by
  induction data generalizing line with
  | nil => simp at h
  | cons b data ih => exact isLine_extendLines (fun _ hl => ih hl) line h

/-- One more byte in front keeps neighbouring lines divided. -/
theorem isChain_extendLines {b : UInt8} {ls : List Bytes} (hl : ∀ line ∈ ls, IsLine line)
    (hc : ls.IsChain Divides) : (extendLines b ls).IsChain Divides := by
  cases ls with
  | nil => exact List.isChain_singleton _
  | cons first more =>
      have hfirst := hl first (by simp)
      simp only [extendLines]
      split
      · exact hc.cons_cons (Or.inl rfl)
      · split
        · split
          · next h =>
              -- a carriage return joins the line feed behind it
              subst h
              cases more with
              | nil => exact List.isChain_singleton _
              | cons second more => exact (List.isChain_cons_cons.1 hc).2.cons_cons (Or.inl rfl)
          · next h => exact hc.cons_cons (Or.inr ⟨rfl, fun hh => h (hfirst.eq_of_head hh)⟩)
        · cases more with
          | nil => exact List.isChain_singleton _
          | cons second more =>
              obtain ⟨hd, hm⟩ := List.isChain_cons_cons.1 hc
              refine hm.cons_cons ?_
              obtain ⟨c, cs, rfl⟩ := List.exists_cons_of_ne_nil hfirst.ne_nil
              simpa only [Divides, List.getLast?_cons_cons] using hd

/-- Between two neighbouring lines there is a line terminator. -/
theorem isChain_lines (data : Bytes) : (lines data).IsChain Divides := by
  induction data with
  | nil => exact List.isChain_nil
  | cons b data ih => exact isChain_extendLines (fun _ h => isLine_of_mem_lines h) ih

/-- **Lines are cut at terminators**: what stands before a line ends at a boundary. -/
theorem lineBoundary_of_lines_eq {data : Bytes} {as bs : List Bytes} (h : lines data = as ++ bs) :
    LineBoundary data as.flatten.length := by
  have hdata : data = as.flatten ++ bs.flatten := by
    rw [← List.flatten_append, ← h, flatten_lines]
  have hmem : ∀ line ∈ as ++ bs, line ≠ [] := fun line hl =>
    (isLine_of_mem_lines (by rwa [h])).ne_nil
  rcases List.eq_nil_or_concat' as with rfl | ⟨as, a, rfl⟩
  · exact Or.inl rfl
  · cases bs with
    | nil =>
        refine Or.inr (Or.inl ?_)
        conv_rhs => rw [hdata]
        simp
    | cons b bs =>
        refine Or.inr (Or.inr ⟨_, _, hdata, rfl, ?_⟩)
        have hchain := isChain_lines data
        rw [h] at hchain
        have hdiv : Divides a b := by
          rw [List.append_assoc] at hchain
          exact (List.isChain_append_cons_cons.1 hchain).2.1
        -- the bytes next to the cut are those of the two lines next to it
        obtain ⟨x, a', ha⟩ := List.exists_cons_of_ne_nil (hmem a (by simp))
        obtain ⟨y, b', hb⟩ := List.exists_cons_of_ne_nil (hmem b (by simp))
        subst ha hb
        simpa [Divides, List.getLast?_append] using hdiv

/-! ### Lines in their places -/

/-- A line of a source. -/
structure SourceLine where
  /-- Number of the line, counted from one. -/
  number : Nat
  /-- Offset of the first byte of the line. -/
  start : Nat
  /-- Offset just past the terminator of the line. -/
  stop : Nat
  /-- The line as written, without its terminator. -/
  text : List Char
  deriving DecidableEq, Repr

namespace SourceLine

/-- The lower-cased line. -/
def line (l : SourceLine) : List Char := Text.lower l.text

/-- The lower-cased line without its comment. -/
def code (l : SourceLine) : List Char := stripComment l.line

/-- What the line is. -/
def kind (l : SourceLine) : LineKind := lineKind l.line

/-- The line has `--` after white space. -/
def isComment (l : SourceLine) : Bool := isCommentLine l.line

/-- The line with the bytes `raw` that comes after the lines `before`. -/
def following (before : List Bytes) (raw : Bytes) : SourceLine where
  number := before.length + 1
  start := before.flatten.length
  stop := before.flatten.length + raw.length
  text := lineText raw

end SourceLine

/-- Lines that come after the lines `before`. -/
def linesFollowing (before : List Bytes) : List Bytes → List SourceLine
  | [] => []
  | raw :: rest => .following before raw :: linesFollowing (before ++ [raw]) rest

/-- All lines of a source, of whatever kind. -/
def sourceLines (data : Bytes) : List SourceLine := linesFollowing [] (lines data)

/-- The code lines of a source before its first body. -/
def codePlaces (data : Bytes) : List SourceLine :=
  ((sourceLines data).takeWhile (·.kind ≠ .body)).filter (·.kind = .code)

theorem mem_linesFollowing {before rest : List Bytes} {l : SourceLine} :
    l ∈ linesFollowing before rest ↔
      ∃ as raw bs, rest = as ++ raw :: bs ∧ l = .following (before ++ as) raw := by
  induction rest generalizing before with
  | nil => simp [linesFollowing]
  | cons raw rest ih =>
      rw [linesFollowing, List.mem_cons, ih]
      constructor
      · rintro (rfl | ⟨as, r, bs, rfl, rfl⟩)
        · exact ⟨[], raw, rest, rfl, by simp⟩
        · exact ⟨raw :: as, r, bs, rfl, by simp⟩
      · rintro ⟨as, r, bs, h, rfl⟩
        cases as with
        | nil =>
            obtain ⟨rfl, rfl⟩ := List.cons.inj h
            exact Or.inl (by simp)
        | cons a as =>
            obtain ⟨rfl, rfl⟩ := List.cons.inj h
            exact Or.inr ⟨as, r, bs, rfl, by simp⟩

theorem mem_sourceLines {data : Bytes} {l : SourceLine} :
    l ∈ sourceLines data ↔
      ∃ before raw after, lines data = before ++ raw :: after ∧ l = .following before raw := by
  rw [sourceLines, mem_linesFollowing]
  simp

theorem bounds_of_mem_linesFollowing {before rest : List Bytes} {l : SourceLine}
    (h : l ∈ linesFollowing before rest) :
    before.flatten.length ≤ l.start ∧ l.stop ≤ (before ++ rest).flatten.length := by
  obtain ⟨as, raw, bs, rfl, rfl⟩ := mem_linesFollowing.1 h
  simp only [SourceLine.following, List.flatten_append, List.flatten_cons, List.length_append]
  omega

/-- No line is empty. -/
theorem start_lt_stop {data : Bytes} {l : SourceLine} (h : l ∈ sourceLines data) :
    l.start < l.stop := by
  obtain ⟨before, raw, after, hlines, rfl⟩ := mem_sourceLines.1 h
  have hraw : IsLine raw := isLine_of_mem_lines (by rw [hlines]; simp)
  have := List.length_pos_iff.2 hraw.ne_nil
  simp only [SourceLine.following]
  omega

theorem stop_le_length {data : Bytes} {l : SourceLine} (h : l ∈ sourceLines data) :
    l.stop ≤ data.length := by
  have hle := (bounds_of_mem_linesFollowing h).2
  rwa [List.nil_append, flatten_lines] at hle

theorem pairwise_linesFollowing (before rest : List Bytes) :
    (linesFollowing before rest).Pairwise fun a b => a.stop ≤ b.start := by
  induction rest generalizing before with
  | nil => exact List.Pairwise.nil
  | cons raw rest ih =>
      refine List.pairwise_cons.2 ⟨fun b hb => ?_, ih _⟩
      have hle := (bounds_of_mem_linesFollowing hb).1
      rw [List.flatten_append, List.flatten_singleton, List.length_append] at hle
      exact hle

/-- **Lines stand one after another**: every line ends before the next one begins. -/
theorem pairwise_sourceLines (data : Bytes) :
    (sourceLines data).Pairwise fun a b => a.stop ≤ b.start :=
  pairwise_linesFollowing [] (lines data)

/-- Of two different lines one comes first. -/
theorem eq_or_stop_le {data : Bytes} {a b : SourceLine} (ha : a ∈ sourceLines data)
    (hb : b ∈ sourceLines data) : a = b ∨ a.stop ≤ b.start ∨ b.stop ≤ a.start := by
  have hp := pairwise_sourceLines data
  have hall : ∀ ⦃x⦄, x ∈ sourceLines data → ∀ ⦃y⦄, y ∈ sourceLines data →
      x = y ∨ x.stop ≤ y.start ∨ y.stop ≤ x.start :=
    List.Pairwise.forall_of_forall_of_flip (fun _ _ => Or.inl rfl)
      (hp.imp fun h => Or.inr (Or.inl h)) (hp.imp fun h => Or.inr (Or.inr h))
  exact hall ha hb

theorem length_linesFollowing (before rest : List Bytes) :
    (linesFollowing before rest).length = rest.length := by
  induction rest generalizing before with
  | nil => rfl
  | cons raw rest ih => simp [linesFollowing, ih]

theorem linesFollowing_append (before as bs : List Bytes) :
    linesFollowing before (as ++ bs) =
      linesFollowing before as ++ linesFollowing (before ++ as) bs := by
  induction as generalizing before with
  | nil => simp [linesFollowing]
  | cons a as ih => simp [linesFollowing, ih]

/-- **The number of a line** counts the lines that end before it begins. -/
theorem number_eq_countP {data : Bytes} {l : SourceLine} (h : l ∈ sourceLines data) :
    l.number = 1 + (sourceLines data).countP (·.stop ≤ l.start) := by
  obtain ⟨before, raw, after, hlines, rfl⟩ := mem_sourceLines.1 h
  have hsplit : sourceLines data = linesFollowing [] before ++
      linesFollowing before (raw :: after) := by
    rw [sourceLines, hlines, linesFollowing_append, List.nil_append]
  have hbefore : ∀ x ∈ linesFollowing [] before, x.stop ≤ before.flatten.length := fun x hx =>
    (bounds_of_mem_linesFollowing hx).2
  have hafter : ∀ x ∈ linesFollowing before (raw :: after), ¬x.stop ≤ before.flatten.length := by
    intro x hx
    have hmem : x ∈ sourceLines data := hsplit ▸ List.mem_append_right _ hx
    have := start_lt_stop hmem
    have := (bounds_of_mem_linesFollowing hx).1
    omega
  have hcount : (sourceLines data).countP (·.stop ≤ before.flatten.length) = before.length := by
    rw [hsplit, List.countP_append, List.countP_eq_length.2 (by simpa using hbefore),
      List.countP_eq_zero.2 (by simpa using hafter), length_linesFollowing, Nat.add_zero]
  show before.length + 1 = 1 + (sourceLines data).countP (·.stop ≤ before.flatten.length)
  rw [hcount, Nat.add_comm]

/-- **Numbers grow** from line to line. -/
theorem number_lt_number {data : Bytes} {a b : SourceLine} (ha : a ∈ sourceLines data)
    (hb : b ∈ sourceLines data) (h : a.stop ≤ b.start) : a.number < b.number := by
  have hpos := start_lt_stop ha
  obtain ⟨as, ra, _, hlines, rfl⟩ := mem_sourceLines.1 ha
  obtain ⟨bs, rb, _, hlines', rfl⟩ := mem_sourceLines.1 hb
  by_contra hge
  -- otherwise the lines before `b` are among those before `a`, and are not longer.
  have hinit : bs <+: as :=
    List.prefix_of_prefix_length_le ⟨_, hlines'.symm⟩ ⟨_, hlines.symm⟩
      (by simpa [SourceLine.following] using hge)
  obtain ⟨cs, rfl⟩ := hinit
  simp only [SourceLine.following, List.flatten_append, List.length_append] at h hpos
  omega

/-- Where a line begins another one ends, unless it is the first. -/
theorem exists_stop_eq_start {data : Bytes} {l : SourceLine} (h : l ∈ sourceLines data) :
    l.start = 0 ∨ ∃ x ∈ sourceLines data, x.stop = l.start := by
  obtain ⟨before, raw, after, hlines, rfl⟩ := mem_sourceLines.1 h
  rcases List.eq_nil_or_concat' before with rfl | ⟨before, r, rfl⟩
  · exact Or.inl rfl
  · refine Or.inr ⟨.following before r, mem_sourceLines.2 ⟨before, r, raw :: after, ?_, rfl⟩, ?_⟩
    · rw [hlines, List.append_assoc, List.singleton_append]
    · simp [SourceLine.following]

/-- A line is known by where it ends. -/
theorem eq_of_stop_eq {data : Bytes} {a b : SourceLine} (ha : a ∈ sourceLines data)
    (hb : b ∈ sourceLines data) (h : a.stop = b.stop) : a = b := by
  have := start_lt_stop ha
  have := start_lt_stop hb
  rcases eq_or_stop_le ha hb with heq | hle | hle
  · exact heq
  · omega
  · omega

end VhdlCatalog.Source
