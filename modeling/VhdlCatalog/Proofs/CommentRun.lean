import Mathlib.Data.List.DropRight
import VhdlCatalog.Proofs.SourceLine

/-!
**The cursor finds the code lines and the comments above them.**

A cursor carries a run of comment lines in a few fields that it updates line by line.  Here the
fields are compared with the lines already seen: at every moment the cursor tells where the comment
lines at the end of those lines begin.  Since a code line takes over what the cursor tells, the
documentation of a code line is the comment run that ends where the line begins, and nothing else.

Main definitions:

* `VhdlCatalog.Source.CodeLine.following` — the code line that comes after given lines;
* `VhdlCatalog.Source.CodeLine.place` — a code line without its documentation;
* `VhdlCatalog.Source.Cursor.Tracks` — what the cursor knows of the lines already seen.

Main results:

* `VhdlCatalog.Source.Cursor.Tracks.visit` — one line keeps the cursor on track;
* `VhdlCatalog.Source.map_place_codeLines` — **no line is lost**: the cursor hands out exactly the
  code lines before the first body;
* `VhdlCatalog.Source.exists_of_mem_codeLines` — every code line comes with the comment run above
  it;
* `VhdlCatalog.Source.pairwise_codeLines` — code lines stand one after another.
-/

set_option relaxedAutoImplicit false
set_option autoImplicit false

namespace VhdlCatalog.Source

/-! ### Kinds of lines -/

/-- A line that begins with `--` is never taken for a blank one. -/
theorem lineKind_eq_comment_iff (line : List Char) :
    lineKind line = .comment ↔ isCommentLine line = true := by
  by_cases hblank : line.all isBlank = true
  · have hskip : Text.skipBlanks line = [] := by
      rw [Text.skipBlanks, List.dropWhile_eq_nil_iff]
      exact List.all_eq_true.1 hblank
    simp [lineKind, hblank, isCommentLine, hskip, Text.afterLiteral?]
  · by_cases hcomment : isCommentLine line = true
    · simp [lineKind, hblank, hcomment]
    · simp only [lineKind, hblank, hcomment, if_false, Bool.false_eq_true]
      split <;> simp

/-- The bytes are those of a comment line. -/
def isCommentBytes (raw : Bytes) : Bool := isCommentLine (Text.lower (lineText raw))

theorem kind_following (before : List Bytes) (raw : Bytes) :
    (SourceLine.following before raw).kind = lineKind (Text.lower (lineText raw)) := rfl

theorem isComment_following (before : List Bytes) (raw : Bytes) :
    (SourceLine.following before raw).isComment = isCommentBytes raw := rfl

theorem isCommentBytes_eq_false {raw : Bytes}
    (h : lineKind (Text.lower (lineText raw)) ≠ .comment) : isCommentBytes raw = false :=
  Bool.eq_false_iff.2 fun hc => h ((lineKind_eq_comment_iff _).2 hc)

/-! ### Code lines after given lines -/

namespace CodeLine

/-- The code line with the bytes `raw` that comes after the lines `before`.  The comment lines at
the end of `before` are its documentation. -/
def following (before : List Bytes) (raw : Bytes) : CodeLine where
  number := before.length + 1
  start := before.flatten.length
  stop := before.flatten.length + raw.length
  docStart := (before.rdropWhile isCommentBytes).flatten.length
  docStop := before.flatten.length
  text := lineText raw

/-- The line without its documentation. -/
def place (l : CodeLine) : SourceLine := ⟨l.number, l.start, l.stop, l.text⟩

@[simp] theorem place_number (l : CodeLine) : l.place.number = l.number := rfl

@[simp] theorem place_start (l : CodeLine) : l.place.start = l.start := rfl

@[simp] theorem place_stop (l : CodeLine) : l.place.stop = l.stop := rfl

@[simp] theorem place_line (l : CodeLine) : l.place.line = l.line := rfl

@[simp] theorem place_code (l : CodeLine) : l.place.code = l.code := rfl

@[simp] theorem place_following (before : List Bytes) (raw : Bytes) :
    (following before raw).place = .following before raw := rfl

end CodeLine

/-! ### What the cursor knows -/

namespace Cursor

/-- The cursor has seen the lines `before`, and knows where the comment lines at their end begin:
at the start of its run if that is active, and else where it stands. -/
structure Tracks (before : List Bytes) (c : Cursor) : Prop where
  number : c.number = before.length
  stop : c.stop = before.flatten.length
  docStart : (if c.run.active then c.run.start else c.stop) =
    (before.rdropWhile isCommentBytes).flatten.length
  docStop : c.run.active = true → c.run.stop = c.stop

theorem tracks_atStart : atStart.Tracks [] :=
  ⟨rfl, rfl, rfl, fun h => absurd h (by decide)⟩

variable {before : List Bytes} {c : Cursor} {raw : Bytes}

/-- A line that is no comment line ends the run. -/
theorem Tracks.endRun (h : c.Tracks before) (hc : isCommentBytes raw = false) :
    (c.onto raw).endRun.Tracks (before ++ [raw]) where
  number := by simp [Cursor.endRun, onto, h.number]
  stop := by simp [Cursor.endRun, onto, h.stop]
  docStart := by
    rw [List.rdropWhile_concat_neg _ _ _ (by simp [hc])]
    simp [Cursor.endRun, onto, h.stop]
  docStop := fun hr => by simp [Cursor.endRun] at hr

/-- A comment line carries the run on, or begins one where the cursor stood. -/
theorem Tracks.extendRun (h : c.Tracks before) (hc : isCommentBytes raw = true) :
    (c.onto raw).extendRun.Tracks (before ++ [raw]) where
  number := by simp [Cursor.extendRun, onto, h.number]
  stop := by simp [Cursor.extendRun, onto, h.stop]
  docStart := by
    rw [List.rdropWhile_concat_pos _ _ _ hc, ← h.docStart]
    rfl
  docStop := fun _ => rfl

/-- The code line on which a cursor stands is documented by the comment run just above it. -/
theorem Tracks.codeLine_onto (h : c.Tracks before) :
    (c.onto raw).codeLine (lineText raw) = .following before raw := by
  have hstart := h.docStart
  have hstop : (if c.run.active then c.run.stop else c.stop) = c.stop := by
    split
    · next hr => exact h.docStop hr
    · rfl
  rw [h.stop] at hstart hstop
  simp only [codeLine, onto, CodeLine.following, h.number, h.stop, hstart, hstop]

/-- **One line**: the cursor stays on track unless a body begins, and hands out exactly the code
lines. -/
theorem Tracks.visit (h : c.Tracks before) (raw : Bytes) :
    (∃ c', c.visit raw = (c', .passed) ∧ c'.Tracks (before ++ [raw]) ∧
      (SourceLine.following before raw).kind ≠ .body ∧
      (SourceLine.following before raw).kind ≠ .code) ∨
    (∃ c', c.visit raw = (c', .body) ∧ (SourceLine.following before raw).kind = .body) ∨
    (∃ c', c.visit raw = (c', .code (.following before raw)) ∧ c'.Tracks (before ++ [raw]) ∧
      (SourceLine.following before raw).kind = .code) := by
  simp only [Cursor.visit, kind_following]
  cases hk : lineKind (Text.lower (lineText raw)) with
  | blank =>
      have hc : isCommentBytes raw = false := isCommentBytes_eq_false (by simp [hk])
      exact Or.inl ⟨_, rfl, h.endRun hc, by simp, by simp⟩
  | comment =>
      have hc : isCommentBytes raw = true := (lineKind_eq_comment_iff _).1 hk
      exact Or.inl ⟨_, rfl, h.extendRun hc, by simp, by simp⟩
  -- the cursor stops here, so where it stands does not matter any more
  | body => exact Or.inr (Or.inl ⟨_, rfl, rfl⟩)
  | code =>
      have hc : isCommentBytes raw = false := isCommentBytes_eq_false (by simp [hk])
      refine Or.inr (Or.inr ⟨_, ?_, h.endRun hc, rfl⟩)
      simp only [h.codeLine_onto]

theorem Tracks.map_place_codeLines (h : c.Tracks before) (rest : List Bytes) :
    (c.codeLines rest).map CodeLine.place =
      ((linesFollowing before rest).takeWhile (·.kind ≠ .body)).filter (·.kind = .code) := by
  induction rest generalizing before c with
  | nil => rfl
  | cons raw rest ih =>
      rw [Cursor.codeLines, linesFollowing]
      obtain ⟨c', hv, ht, hbody, hcode⟩ | ⟨c', hv, hbody⟩ | ⟨c', hv, ht, hcode⟩ := h.visit raw
      · simp [hv, ih ht, hbody, hcode]
      · simp [hv, hbody]
      · simp [hv, ih ht, hcode]

theorem Tracks.exists_of_mem_codeLines (h : c.Tracks before) {rest : List Bytes} {l : CodeLine}
    (hl : l ∈ c.codeLines rest) :
    ∃ as raw bs, rest = as ++ raw :: bs ∧ l = .following (before ++ as) raw := by
  induction rest generalizing before c with
  | nil => simp [Cursor.codeLines] at hl
  | cons raw rest ih =>
      -- what the cursor hands out later comes after `raw` as well
      have later : ∀ c', Cursor.Tracks (before ++ [raw]) c' → l ∈ c'.codeLines rest →
          ∃ as r bs, raw :: rest = as ++ r :: bs ∧ l = .following (before ++ as) r := by
        intro c' ht hl'
        obtain ⟨as, r, bs, rfl, rfl⟩ := ih ht hl'
        exact ⟨raw :: as, r, bs, rfl, by simp⟩
      obtain ⟨c', hv, ht, -⟩ | ⟨c', hv, -⟩ | ⟨c', hv, ht, -⟩ := h.visit raw
      · simp only [Cursor.codeLines, hv] at hl
        exact later c' ht hl
      · simp [Cursor.codeLines, hv] at hl
      · simp only [Cursor.codeLines, hv, List.mem_cons] at hl
        rcases hl with rfl | hl
        · exact ⟨[], raw, rest, rfl, by simp⟩
        · exact later c' ht hl

end Cursor

/-! ### The code lines of a source -/

/-- **No line is lost**: the code lines are exactly those before the first body. -/
theorem map_place_codeLines (data : Bytes) :
    (codeLines data).map CodeLine.place = codePlaces data :=
  Cursor.tracks_atStart.map_place_codeLines (lines data)

theorem filter_codePlaces (data : Bytes) (P : SourceLine → Bool) :
    (codePlaces data).filter P =
      ((codeLines data).filter fun l => P l.place).map CodeLine.place := by
  rw [← map_place_codeLines, List.filter_map]
  rfl

/-- Every code line comes with the comment run above it. -/
theorem exists_of_mem_codeLines {data : Bytes} {l : CodeLine} (h : l ∈ codeLines data) :
    ∃ before raw after, lines data = before ++ raw :: after ∧ l = .following before raw :=
  Cursor.tracks_atStart.exists_of_mem_codeLines h

theorem place_mem_sourceLines {data : Bytes} {l : CodeLine} (h : l ∈ codeLines data) :
    l.place ∈ sourceLines data := by
  have hmem : l.place ∈ codePlaces data := map_place_codeLines data ▸ List.mem_map_of_mem h
  exact (List.takeWhile_sublist _).mem (List.mem_of_mem_filter hmem)

theorem isComment_place_of_mem_codeLines {data : Bytes} {l : CodeLine} (h : l ∈ codeLines data) :
    l.place.isComment = false := by
  have hmem : l.place ∈ codePlaces data := map_place_codeLines data ▸ List.mem_map_of_mem h
  have hkind : l.place.kind = .code := by simpa using List.of_mem_filter hmem
  refine Bool.eq_false_iff.2 fun hc => ?_
  rw [SourceLine.kind, (lineKind_eq_comment_iff _).2 hc] at hkind
  cases hkind

theorem pairwise_codeLines (data : Bytes) :
    (codeLines data).Pairwise fun a b => a.stop ≤ b.start := by
  have hsub : (codePlaces data).Sublist (sourceLines data) :=
    List.filter_sublist.trans (List.takeWhile_sublist _)
  have hp := (pairwise_sourceLines data).sublist hsub
  rw [← map_place_codeLines, List.pairwise_map] at hp
  exact hp

theorem start_lt_stop_of_mem_codeLines {data : Bytes} {l : CodeLine} (h : l ∈ codeLines data) :
    l.start < l.stop :=
  start_lt_stop (place_mem_sourceLines h)

section Offsets

variable {data : Bytes} {l : CodeLine}

theorem docStop_eq_start (h : l ∈ codeLines data) : l.docStop = l.start := by
  obtain ⟨before, raw, after, -, rfl⟩ := exists_of_mem_codeLines h
  rfl

theorem docStart_le_start (h : l ∈ codeLines data) : l.docStart ≤ l.start := by
  obtain ⟨before, raw, after, -, rfl⟩ := exists_of_mem_codeLines h
  have hsplit : before.rdropWhile isCommentBytes ++ before.rtakeWhile isCommentBytes = before :=
    List.rdropWhile_append_rtakeWhile
  have hlen := congrArg (fun ls => (List.flatten ls).length) hsplit
  simp only [List.flatten_append, List.length_append] at hlen
  simp only [CodeLine.following]
  omega

theorem lineBoundary_docStart (h : l ∈ codeLines data) : LineBoundary data l.docStart := by
  obtain ⟨before, raw, after, hlines, rfl⟩ := exists_of_mem_codeLines h
  have hcut : lines data = before.rdropWhile isCommentBytes ++
      (before.rtakeWhile isCommentBytes ++ raw :: after) := by
    rw [← List.append_assoc, List.rdropWhile_append_rtakeWhile, hlines]
  exact lineBoundary_of_lines_eq hcut

theorem lineBoundary_start (h : l ∈ codeLines data) : LineBoundary data l.start := by
  obtain ⟨before, raw, after, hlines, rfl⟩ := exists_of_mem_codeLines h
  exact lineBoundary_of_lines_eq hlines

theorem lineBoundary_stop (h : l ∈ codeLines data) : LineBoundary data l.stop := by
  obtain ⟨before, raw, after, hlines, rfl⟩ := exists_of_mem_codeLines h
  have hcut : lines data = (before ++ [raw]) ++ after := by rw [hlines, List.append_cons]
  have hboundary := lineBoundary_of_lines_eq hcut
  rw [List.flatten_append, List.flatten_singleton, List.length_append] at hboundary
  exact hboundary

end Offsets

end VhdlCatalog.Source
