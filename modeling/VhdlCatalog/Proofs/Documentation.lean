import VhdlCatalog.Proofs.Ranges

/-!
**The documentation of a declaration is the comment run above it.**

A comment documents the declaration that opens on the line right after it.  This module shows that
the documentation of every declaration is the maximal run of comment lines that ends where the
declaration begins: all lines in it are comment lines, and no comment line stands right before it.
Hence there is documentation exactly when the line above the opening line is a comment line, and no
comment documents two declarations that open on different lines.

Main definitions:

* `VhdlCatalog.Source.IsCommentRun` — two offsets bound a maximal run of comment lines.

Main results:

* `VhdlCatalog.Source.isCommentRun_of_mem_codeLines` — the run above a code line;
* `VhdlCatalog.Source.IsCommentRun.lt_iff` — a run has a line exactly when a comment line ends where
  it ends;
* `VhdlCatalog.documentation_of_scanSource` — **the documentation of all declarations**.
-/

set_option relaxedAutoImplicit false
set_option autoImplicit false

namespace VhdlCatalog

namespace Source

/-! ### Comment runs -/

/-- The offsets bound a run of comment lines that is maximal downwards: the lines that reach into
the range lie in it as a whole and are comment lines, and the line that ends where it begins is
none. -/
structure IsCommentRun (data : Bytes) (start stop : Int) : Prop where
  nonneg : 0 ≤ start
  le : start ≤ stop
  whole : ∀ l ∈ sourceLines data, start < l.stop → l.start < stop → start ≤ l.start ∧ l.stop ≤ stop
  comment : ∀ l ∈ sourceLines data, start < l.stop → l.start < stop → l.isComment = true
  maximal : start = 0 ∨ ∃ l ∈ sourceLines data, l.stop = start ∧ l.isComment = false

theorem sourceLines_eq_of_lines_eq {data : Bytes} {before rest : List Bytes}
    (h : lines data = before ++ rest) :
    sourceLines data = linesFollowing [] (before.rdropWhile isCommentBytes) ++
      (linesFollowing (before.rdropWhile isCommentBytes) (before.rtakeWhile isCommentBytes) ++
        linesFollowing before rest) := by
  have hcut : before.rdropWhile isCommentBytes ++ before.rtakeWhile isCommentBytes = before :=
    List.rdropWhile_append_rtakeWhile
  conv_lhs => rw [sourceLines, h, linesFollowing_append, ← hcut, linesFollowing_append]
  rw [List.append_assoc, List.nil_append, List.nil_append, hcut]

/-- A line that reaches into the range of the comment lines at the end of `before` is one of
them. -/
theorem mem_run_of_reaches {data : Bytes} {before rest : List Bytes}
    (h : lines data = before ++ rest) {l : SourceLine} (hl : l ∈ sourceLines data)
    (hstop : (before.rdropWhile isCommentBytes).flatten.length < l.stop)
    (hstart : l.start < before.flatten.length) :
    l ∈ linesFollowing (before.rdropWhile isCommentBytes) (before.rtakeWhile isCommentBytes) := by
  rw [sourceLines_eq_of_lines_eq h, List.mem_append, List.mem_append] at hl
  rcases hl with hl | hl | hl
  · have := (bounds_of_mem_linesFollowing hl).2
    rw [List.nil_append] at this
    omega
  · exact hl
  · have := (bounds_of_mem_linesFollowing hl).1
    omega

/-- No comment line stands right before the comment lines at the end of `before`. -/
theorem rdropWhile_eq_nil_or_exists {data : Bytes} {before rest : List Bytes}
    (h : lines data = before ++ rest) :
    before.rdropWhile isCommentBytes = [] ∨ ∃ l ∈ sourceLines data,
      l.stop = (before.rdropWhile isCommentBytes).flatten.length ∧ l.isComment = false := by
  have hcut : before.rdropWhile isCommentBytes ++ before.rtakeWhile isCommentBytes = before :=
    List.rdropWhile_append_rtakeWhile
  rcases List.eq_nil_or_concat' (before.rdropWhile isCommentBytes) with hnil | ⟨kept, r, hkept⟩
  · exact Or.inl hnil
  · have hne : before.rdropWhile isCommentBytes ≠ [] := by simp [hkept]
    have hr : isCommentBytes r = false := by
      have hlast := List.rdropWhile_last_not isCommentBytes before hne
      simpa [hkept] using hlast
    refine Or.inr ⟨.following kept r, ?_, ?_, ?_⟩
    · refine mem_sourceLines.2 ⟨kept, r, before.rtakeWhile isCommentBytes ++ rest, ?_, rfl⟩
      conv_lhs => rw [h, ← hcut, hkept]
      simp
    · simp [hkept, SourceLine.following]
    · rw [isComment_following, hr]

/-- **The documentation of a code line** is the comment run above it. -/
theorem isCommentRun_of_mem_codeLines {data : Bytes} {l : CodeLine} (h : l ∈ codeLines data) :
    IsCommentRun data l.docStart l.start := by
  have hle := docStart_le_start h
  obtain ⟨before, raw, after, hlines, rfl⟩ := exists_of_mem_codeLines h
  simp only [CodeLine.following] at hle ⊢
  refine ⟨by omega, by omega, ?_, ?_, ?_⟩
  · intro x hx hstop hstart
    have hbounds := bounds_of_mem_linesFollowing
      (mem_run_of_reaches hlines hx (by omega) (by omega))
    rw [List.rdropWhile_append_rtakeWhile] at hbounds
    omega
  · intro x hx hstop hstart
    obtain ⟨as, r, bs, hr, rfl⟩ := mem_linesFollowing.1
      (mem_run_of_reaches hlines hx (by omega) (by omega))
    rw [isComment_following]
    exact List.mem_rtakeWhile_imp (by rw [hr]; simp)
  · rcases rdropWhile_eq_nil_or_exists hlines with hnil | ⟨x, hx, hstop, hcomment⟩
    · exact Or.inl (by simp [hnil])
    · exact Or.inr ⟨x, hx, by omega, hcomment⟩

/-- A run that ends where a line begins has a line of its own exactly when a comment line ends
there. -/
theorem IsCommentRun.lt_iff {data : Bytes} {start stop : Int} {l : SourceLine}
    (h : IsCommentRun data start stop) (hl : l ∈ sourceLines data) (hbegin : stop = l.start) :
    start < stop ↔ ∃ x ∈ sourceLines data, x.stop = stop ∧ x.isComment = true := by
  have hnonneg := h.nonneg
  constructor
  · intro hlt
    rcases exists_stop_eq_start hl with hzero | ⟨x, hx, hstop⟩
    · omega
    · have := start_lt_stop hx
      exact ⟨x, hx, by omega, h.comment x hx (by omega) (by omega)⟩
  · rintro ⟨x, hx, hstop, hcomment⟩
    have := start_lt_stop hx
    rcases h.maximal with hzero | ⟨y, hy, hstop', hnot⟩
    · omega
    · -- in an empty run the comment line `x` would end where `y` ends.
      by_contra hge
      have hle := h.le
      have hxy : x = y := eq_of_stop_eq hx hy (by omega)
      rw [hxy, hnot] at hcomment
      cases hcomment

/-- A run does not go up over a code line. -/
theorem stop_le_docStart {data : Bytes} {a b : CodeLine} (ha : a ∈ codeLines data)
    (hb : b ∈ codeLines data) (hle : a.stop ≤ b.start) : a.stop ≤ b.docStart := by
  by_contra hlt
  have hpos := start_lt_stop_of_mem_codeLines ha
  have hcomment := (isCommentRun_of_mem_codeLines hb).comment a.place (place_mem_sourceLines ha)
    (by simp; omega) (by simp; omega)
  rw [isComment_place_of_mem_codeLines ha] at hcomment
  cases hcomment

end Source

/-! ### Files -/

open Source

/-- The line belongs to the documentation of the declaration. -/
def Declaration.DocumentedBy (d : Declaration) (l : SourceLine) : Prop :=
  d.docStart ≤ l.start ∧ (l.stop : Int) ≤ d.docStop

variable {filepath library : String} {data : Bytes} {file : FileScan} {d : Declaration}

/-- A line documents nothing that opens after another code line below it. -/
theorem not_documentedBy_of_stop_le {d' : Declaration} {a a' b b' : CodeLine} {l : SourceLine}
    (ha : a ∈ codeLines data) (hb : b ∈ codeLines data) (hd : d.Spans a a')
    (hd' : d'.Spans b b') (hle : a.stop ≤ b.start) (hl : l ∈ sourceLines data)
    (hdoc : d.DocumentedBy l) : ¬d'.DocumentedBy l := by
  rintro ⟨hstart, -⟩
  have hstop := hdoc.2
  have hpos := start_lt_stop hl
  have hfirst := start_lt_stop_of_mem_codeLines ha
  have hrun := stop_le_docStart ha hb hle
  rw [hd.docStop, docStop_eq_start ha] at hstop
  rw [hd'.docStart] at hstart
  omega

/-- **The documentation of a declaration is the comment run above it**: whole comment lines, as many
as there are.  There is documentation exactly when a comment line ends where the declaration begins,
and when another line ends there, the documentation is empty.  No line documents two declarations
that open on different lines. -/
theorem documentation_of_scanSource (h : (scanSource filepath library data).result = .ok file)
    (hd : d ∈ file.declarations) :
    d.docStop = d.codeStart ∧ IsCommentRun data d.docStart d.codeStart ∧
    (d.hasDoc = true ↔ ∃ l ∈ sourceLines data, l.stop = d.codeStart ∧ l.isComment = true) ∧
    ((∃ l ∈ sourceLines data, l.stop = d.codeStart ∧ l.isComment = false) →
      d.docStart = d.codeStart ∧ d.docStop = d.codeStart) ∧
    ∀ d' ∈ file.declarations, d'.line ≠ d.line →
      ∀ l ∈ sourceLines data, ¬(d.DocumentedBy l ∧ d'.DocumentedBy l) := by
  obtain ⟨first, hfirst, last, -, hspans, -⟩ := exists_spans_of_scanSource h hd
  have hplace := place_mem_sourceLines hfirst
  have hstop : d.docStop = d.codeStart := by
    rw [hspans.docStop, hspans.codeStart, docStop_eq_start hfirst]
  have hrun : IsCommentRun data d.docStart d.codeStart := by
    rw [hspans.docStart, hspans.codeStart]
    exact isCommentRun_of_mem_codeLines hfirst
  have hiff : d.docStart < d.codeStart ↔
      ∃ l ∈ sourceLines data, l.stop = d.codeStart ∧ l.isComment = true :=
    hrun.lt_iff hplace hspans.codeStart
  refine ⟨hstop, hrun, ?_, ?_, ?_⟩
  · rw [Declaration.hasDoc, decide_eq_true_eq, hstop, hiff]
  · rintro ⟨l, hl, hend, hnot⟩
    have hempty : ¬d.docStart < d.codeStart := by
      rw [hiff]
      rintro ⟨x, hx, hend', hcomment⟩
      have hxl : x = l := eq_of_stop_eq hx hl (by omega)
      rw [hxl, hnot] at hcomment
      cases hcomment
    have hle := hrun.le
    exact ⟨by omega, hstop⟩
  · rintro d' hd' hline l hl ⟨hdoc, hdoc'⟩
    obtain ⟨first', hfirst', last', -, hspans', -⟩ := exists_spans_of_scanSource h hd'
    rcases eq_or_stop_le hplace (place_mem_sourceLines hfirst') with heq | hle | hle
    · have hnumber : first.number = first'.number := congrArg SourceLine.number heq
      exact hline (by rw [hspans.line, hspans'.line, hnumber])
    · exact not_documentedBy_of_stop_le hfirst hfirst' hspans hspans' hle hl hdoc hdoc'
    · exact not_documentedBy_of_stop_le hfirst' hfirst hspans' hspans hle hl hdoc' hdoc

/-- The documentation of the two constants in the sample, which share a comment line. -/
theorem documentation_of_sample :
    ∃ file d, (scanSource "sample.vhd" "Work" sample).result = .ok file ∧
      d ∈ file.declarations ∧ d.name = "b" ∧ d.docStart < d.docStop ∧
      d.docStop = d.codeStart ∧ IsCommentRun sample d.docStart d.codeStart ∧
      (d.hasDoc = true ↔ ∃ l ∈ sourceLines sample, l.stop = d.codeStart ∧ l.isComment = true) ∧
      ((∃ l ∈ sourceLines sample, l.stop = d.codeStart ∧ l.isComment = false) →
        d.docStart = d.codeStart ∧ d.docStop = d.codeStart) ∧
      ∀ d' ∈ file.declarations, d'.line ≠ d.line →
        ∀ l ∈ sourceLines sample, ¬(d.DocumentedBy l ∧ d'.DocumentedBy l) := by
  have hany : (scanSource "sample.vhd" "Work" sample).result.toOption.map
      (fun file => file.declarations.any fun d => d.name = "b" && d.hasDoc) = some true := by
    decide +kernel
  obtain ⟨file, h, hany⟩ := exists_file_sample hany
  obtain ⟨d, hd, hb⟩ := List.any_eq_true.1 hany
  obtain ⟨hname, hdoc⟩ := Bool.and_eq_true_iff.1 hb
  exact ⟨file, d, h, hd, by simpa using hname, by simpa [Declaration.hasDoc] using hdoc,
    documentation_of_scanSource h hd⟩

end VhdlCatalog
