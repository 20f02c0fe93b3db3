import VhdlCatalog.Proofs.Block

/-!
**Stretches of lines and the ranges of declarations.**

The parts of a file and the parts of a package header have one thing in common: they are stretches
of lines one after another, and the declarations made in a stretch have all of its lines as their
range.  Whether a line lies in the range of some declaration is therefore decided inside its own
stretch.

Main definitions:

* `VhdlCatalog.Source.Ordered` — lines that stand one after another;
* `VhdlCatalog.Declaration.contains`, `VhdlCatalog.Declaration.encloses` — a line lies in a range,
  and not at its beginning;
* `VhdlCatalog.Declaration.Spans` — a declaration takes its place from two lines;
* `VhdlCatalog.Scan.Stretch` — a stretch of lines with the declarations made in it.

Main results:

* `VhdlCatalog.Scan.filter_outside` — **ranges are local**: to leave out the lines that some
  declaration encloses is to do so stretch by stretch;
* `VhdlCatalog.Scan.flatMap_outside` — only the first line of every stretch is left.
-/

set_option relaxedAutoImplicit false
set_option autoImplicit false

namespace VhdlCatalog

open Source

/-! ### Lines one after another -/

namespace Source

/-- The lines stand one after another, and none is empty. -/
structure Ordered (ls : List CodeLine) : Prop where
  pairwise : ls.Pairwise fun a b => a.stop ≤ b.start
  start_lt_stop : ∀ l ∈ ls, l.start < l.stop

theorem ordered_codeLines (data : Bytes) : Ordered (codeLines data) :=
  ⟨pairwise_codeLines data, fun _ h => start_lt_stop_of_mem_codeLines h⟩

theorem ordered_append {as bs : List CodeLine} :
    Ordered (as ++ bs) ↔ Ordered as ∧ Ordered bs ∧ ∀ a ∈ as, ∀ b ∈ bs, a.stop ≤ b.start := by
  constructor
  · rintro ⟨hp, hs⟩
    obtain ⟨ha, hb, hab⟩ := List.pairwise_append.1 hp
    exact ⟨⟨ha, fun l hl => hs l (List.mem_append_left _ hl)⟩,
      ⟨hb, fun l hl => hs l (List.mem_append_right _ hl)⟩, hab⟩
  · rintro ⟨ha, hb, hab⟩
    refine ⟨List.pairwise_append.2 ⟨ha.pairwise, hb.pairwise, hab⟩, fun l hl => ?_⟩
    rcases List.mem_append.1 hl with hl | hl
    · exact ha.start_lt_stop l hl
    · exact hb.start_lt_stop l hl

theorem Ordered.cons {l : CodeLine} {ls : List CodeLine} (h : Ordered (l :: ls)) :
    l.start < l.stop ∧ Ordered ls ∧ ∀ b ∈ ls, l.stop ≤ b.start := by
  obtain ⟨hl, hls, hle⟩ := ordered_append.1 (show Ordered ([l] ++ ls) from h)
  exact ⟨hl.start_lt_stop l (by simp), hls, hle l (by simp)⟩

theorem Ordered.of_mem_flatMap {α : Type} {xs : List α} {f : α → List CodeLine}
    (h : Ordered (xs.flatMap f)) {x : α} (hx : x ∈ xs) : Ordered (f x) := by
  obtain ⟨as, bs, rfl⟩ := List.append_of_mem hx
  rw [List.flatMap_append, List.flatMap_cons] at h
  exact (ordered_append.1 (ordered_append.1 h).2.1).1

section Filter

variable {as bs : List CodeLine} {l : CodeLine} {P : CodeLine → Bool}

/-- A test on where lines begin that turns true at a line leaves the lines after it. -/
theorem Ordered.filter_suffix (h : Ordered (as ++ l :: bs))
    (hbefore : ∀ x, x.start < l.start → P x = false)
    (hafter : ∀ x, l.start < x.start → P x = true) :
    (as ++ l :: bs).filter P = [l].filter P ++ bs := by
  obtain ⟨ha, hlb, hle⟩ := ordered_append.1 h
  obtain ⟨hl, -, hlt⟩ := hlb.cons
  have has : as.filter P = [] := by
    rw [List.filter_eq_nil_iff]
    intro x hx
    have := ha.start_lt_stop x hx
    have := hle x hx l (by simp)
    rw [hbefore x (by omega)]
    simp
  have hbs : bs.filter P = bs := by
    rw [List.filter_eq_self]
    intro x hx
    have := hlt x hx
    exact hafter x (by omega)
  rw [List.append_cons, List.filter_append, List.filter_append, has, hbs, List.nil_append]

/-- A test on where lines end that turns false at a line leaves the lines before it. -/
theorem Ordered.filter_initial (h : Ordered (as ++ l :: bs))
    (hbefore : ∀ x, x.stop < l.stop → P x = true)
    (hafter : ∀ x, l.stop < x.stop → P x = false) :
    (as ++ l :: bs).filter P = as ++ [l].filter P := by
  obtain ⟨-, hlb, hle⟩ := ordered_append.1 h
  obtain ⟨hl, hb, hlt⟩ := hlb.cons
  have has : as.filter P = as := by
    rw [List.filter_eq_self]
    intro x hx
    have := hle x hx l (by simp)
    exact hbefore x (by omega)
  have hbs : bs.filter P = [] := by
    rw [List.filter_eq_nil_iff]
    intro x hx
    have := hlt x hx
    have := hb.start_lt_stop x hx
    rw [hafter x (by omega)]
    simp
  rw [List.append_cons, List.filter_append, List.filter_append, has, hbs, List.append_nil]

end Filter

end Source

/-! ### Lines in a range -/

namespace Declaration

/-- The line lies in the code range of the declaration. -/
def contains (d : Declaration) (l : SourceLine) : Bool :=
  decide (d.codeStart ≤ l.start) && decide (l.stop ≤ d.codeStop)

/-- The line lies in the code range of the declaration, and the declaration begins earlier. -/
def encloses (d : Declaration) (l : SourceLine) : Bool :=
  decide (d.codeStart < l.start) && decide (l.stop ≤ d.codeStop)

theorem contains_iff {d : Declaration} {l : SourceLine} :
    d.contains l = true ↔ d.codeStart ≤ l.start ∧ (l.stop : Int) ≤ d.codeStop := by
  simp [contains]

theorem encloses_iff {d : Declaration} {l : SourceLine} :
    d.encloses l = true ↔ d.codeStart < l.start ∧ (l.stop : Int) ≤ d.codeStop := by
  simp [encloses]

theorem contains_of_encloses {d : Declaration} {l : SourceLine} (h : d.encloses l = true) :
    d.contains l = true := by
  rw [encloses_iff] at h
  exact contains_iff.2 ⟨by omega, h.2⟩

end Declaration

/-- The declaration takes its place from the lines it opens and closes on: number, documentation
and first byte from the one, and its end from the other. -/
structure Declaration.Spans (d : Declaration) (first last : CodeLine) : Prop where
  line : d.line = first.number
  docStart : d.docStart = first.docStart
  docStop : d.docStop = first.docStop
  codeStart : d.codeStart = first.start
  codeStop : d.codeStop = last.stop

namespace Scan

theorem spans_declare (t : Target) (scope : String) (name : List Char) (first last : CodeLine)
    (summary : List Char) : (declare t scope name first last.stop summary).Spans first last :=
  ⟨rfl, rfl, rfl, rfl, rfl⟩

/-! ### Stretches -/

/-- A stretch of lines with the declarations made in it, all of which have its lines as their
range.  Where nothing is declared, it is a single line. -/
structure Stretch where
  /-- The first line. -/
  first : CodeLine
  /-- The other lines. -/
  rest : List CodeLine
  /-- The declarations. -/
  declarations : List Declaration
  /-- They open on the first line and close on the last. -/
  spans : ∀ d ∈ declarations, d.Spans first (rest.getLastD first)
  /-- Where nothing is declared, there is only one line. -/
  single : declarations = [] → rest = []

namespace Stretch

/-- All lines. -/
def lines (s : Stretch) : List CodeLine := s.first :: s.rest

/-- The last line. -/
def last (s : Stretch) : CodeLine := s.rest.getLastD s.first

theorem last_mem_lines (s : Stretch) : s.last ∈ s.lines := by
  rw [last, lines, List.getLastD_eq_getLast?]
  cases h : s.rest.getLast? with
  | none => simp
  | some l => simpa using Or.inr (List.mem_of_getLast? h)

theorem stop_le_last {s : Stretch} (h : Ordered s.lines) {l : CodeLine} (hl : l ∈ s.lines) :
    l.stop ≤ s.last.stop := by
  rcases List.eq_nil_or_concat' s.rest with hr | ⟨rest, x, hr⟩
  · simp only [lines, hr, List.mem_singleton] at hl
    simp [last, hr, hl]
  · have hlast : s.last = x := by simp [last, hr]
    rw [lines, hr, ← List.cons_append] at h hl
    obtain ⟨-, hx, hle⟩ := ordered_append.1 h
    rw [hlast]
    rcases List.mem_append.1 hl with hl | hl
    · have := hle l hl x (by simp)
      have := hx.start_lt_stop x (by simp)
      omega
    · rw [List.mem_singleton.1 hl]

theorem contains_of_mem {s : Stretch} (h : Ordered s.lines) {l : CodeLine} (hl : l ∈ s.lines)
    {d : Declaration} (hd : d ∈ s.declarations) : d.contains l.place = true := by
  have hbefore : l.stop ≤ (s.rest.getLastD s.first).stop := stop_le_last h hl
  have hafter : s.first.start ≤ l.start := by
    obtain ⟨hpos, -, hle⟩ := h.cons
    rcases List.mem_cons.1 hl with rfl | hl
    · exact Nat.le_refl _
    · have := hle l hl
      omega
  rw [Declaration.contains_iff, (s.spans d hd).codeStart, (s.spans d hd).codeStop,
    CodeLine.place_start, CodeLine.place_stop]
  omega

theorem not_contains_of_last_le {s : Stretch} {l : CodeLine} (hl : s.last.stop ≤ l.start)
    (hpos : l.start < l.stop) {d : Declaration} (hd : d ∈ s.declarations) :
    d.contains l.place = false := by
  refine Bool.eq_false_iff.2 fun hin => ?_
  have hstop := (Declaration.contains_iff.1 hin).2
  have hlast : (s.rest.getLastD s.first).stop ≤ l.start := hl
  rw [(s.spans d hd).codeStop, CodeLine.place_stop] at hstop
  omega

/-- Outside its first line, every line of a stretch is enclosed by the declarations in it. -/
theorem filter_encloses {s : Stretch} (h : Ordered s.lines) :
    (s.lines.filter fun l => s.declarations.all fun d => !d.encloses l.place) = [s.first] := by
  have hfirst : (s.declarations.all fun d => !d.encloses s.first.place) = true := by
    rw [List.all_eq_true]
    intro d hd
    rw [Bool.not_eq_true', Bool.eq_false_iff, Ne, Declaration.encloses_iff,
      (s.spans d hd).codeStart]
    simp
  have hrest : (s.rest.filter fun l => s.declarations.all fun d => !d.encloses l.place) = [] := by
    rw [List.filter_eq_nil_iff]
    intro l hl hall
    cases hd : s.declarations with
    | nil => simp [s.single hd] at hl
    | cons d ds =>
        have hmem : d ∈ s.declarations := by simp [hd]
        have hnot := List.all_eq_true.1 hall d hmem
        have hin := Declaration.contains_iff.1 (contains_of_mem h (List.mem_cons_of_mem _ hl) hmem)
        obtain ⟨hpos, -, hle⟩ := h.cons
        have hafter := hle l hl
        have henc : d.encloses l.place = true := by
          rw [Declaration.encloses_iff]
          refine ⟨?_, hin.2⟩
          rw [(s.spans d hmem).codeStart, CodeLine.place_start]
          omega
        simp [henc] at hnot
  rw [lines, List.filter_cons, if_pos hfirst, hrest]

end Stretch

/-- **Ranges are local**: to leave out the lines that some declaration encloses is to do so stretch
by stretch. -/
theorem filter_outside {ss : List Stretch} (h : Ordered (ss.flatMap Stretch.lines)) :
    ((ss.flatMap Stretch.lines).filter fun l =>
      (ss.flatMap Stretch.declarations).all fun d => !d.encloses l.place) =
      ss.flatMap fun s => s.lines.filter fun l =>
        s.declarations.all fun d => !d.encloses l.place := by
  induction ss with
  | nil => rfl
  | cons s ss ih =>
      rw [List.flatMap_cons] at h
      obtain ⟨hs, hss, hle⟩ := ordered_append.1 h
      -- no later declaration begins before the lines of `s` end
      have hlater : ∀ l ∈ s.lines,
          ((ss.flatMap Stretch.declarations).all fun d => !d.encloses l.place) = true := by
        intro l hl
        rw [List.all_eq_true]
        intro d hd
        obtain ⟨s', hs', hd'⟩ := List.mem_flatMap.1 hd
        have hfirst : s'.first ∈ ss.flatMap Stretch.lines :=
          List.mem_flatMap.2 ⟨s', hs', List.mem_cons_self ..⟩
        have := hle l hl _ hfirst
        have := hs.start_lt_stop l hl
        rw [Bool.not_eq_true', Bool.eq_false_iff, Ne, Declaration.encloses_iff,
          (s'.spans d hd').codeStart, CodeLine.place_start]
        omega
      -- and no declaration of `s` reaches beyond them
      have hearlier : ∀ l ∈ ss.flatMap Stretch.lines,
          (s.declarations.all fun d => !d.encloses l.place) = true := by
        intro l hl
        rw [List.all_eq_true]
        intro d hd
        have hnot := Stretch.not_contains_of_last_le (hle _ s.last_mem_lines l hl)
          (hss.start_lt_stop l hl) hd
        rw [Bool.not_eq_true', Bool.eq_false_iff]
        exact fun henc => by simp [Declaration.contains_of_encloses henc] at hnot
      rw [List.flatMap_cons, List.flatMap_cons, List.flatMap_cons, List.filter_append, ← ih hss]
      congr 1
      · refine List.filter_congr fun l hl => ?_
        rw [List.all_append, hlater l hl, Bool.and_true]
      · refine List.filter_congr fun l hl => ?_
        rw [List.all_append, hearlier l hl, Bool.true_and]

/-- What the lines bring that no declaration encloses is what the first lines of the stretches
bring. -/
theorem flatMap_outside {β : Type} (g : SourceLine → List β) {ss : List Stretch}
    (h : Ordered (ss.flatMap Stretch.lines)) :
    (((ss.flatMap Stretch.lines).map CodeLine.place).filter fun l =>
      (ss.flatMap Stretch.declarations).all fun d => !d.encloses l).flatMap g =
      ss.flatMap fun s => g s.first.place := by
  rw [List.filter_map, List.flatMap_map, Function.comp_def, filter_outside h, List.flatMap_assoc]
  refine List.flatMap_congr fun s hs => ?_
  rw [Stretch.filter_encloses (h.of_mem_flatMap hs), List.flatMap_singleton]

/-! ### Parts of files as stretches -/

/-- A part of a package header as a stretch. -/
def HeaderItem.stretch {name : List Char} (t : Target) (scope : String) :
    HeaderItem name → Stretch
  | other l _ _ => ⟨l, [], [], by simp, fun _ => rfl⟩
  | member b =>
      { first := b.first
        rest := b.lines.tail
        declarations := (b.members t scope).map Member.declaration
        spans := by
          intro d hd
          obtain ⟨m, hm, rfl⟩ := List.mem_map.1 hd
          obtain ⟨n, -, rfl⟩ := List.mem_map.1 hm
          rw [b.getLastD_tail_lines]
          exact spans_declare ..
        single := fun h => by simp [MemberBlock.members, Opening.names] at h }

/-- A part of a file as a stretch. -/
def FileItem.stretch (t : Target) : FileItem → Stretch
  | other l _ => ⟨l, [], [], by simp, fun _ => rfl⟩
  | entity b =>
      { first := b.first
        rest := b.body ++ [b.last]
        declarations := [b.declaration t]
        spans := by
          rw [List.forall_mem_singleton, List.getLastD_concat]
          exact spans_declare ..
        single := fun h => by simp at h }
  | package b =>
      { first := b.first
        rest := b.items.flatMap HeaderItem.lines ++ [b.last]
        declarations := [b.toHeader.declaration t b.last.stop]
        spans := by
          rw [List.forall_mem_singleton, List.getLastD_concat]
          exact spans_declare ..
        single := fun h => by simp at h }

@[simp] theorem HeaderItem.lines_stretch {name : List Char} (t : Target) (scope : String)
    (item : HeaderItem name) : (item.stretch t scope).lines = item.lines := by
  cases item with
  | other l _ _ => rfl
  | member b => exact b.lines_eq_cons.symm

@[simp] theorem HeaderItem.declarations_stretch {name : List Char} (t : Target) (scope : String)
    (item : HeaderItem name) :
    (item.stretch t scope).declarations = (item.members t scope).map Member.declaration := by
  cases item <;> rfl

theorem HeaderItem.mem_declarations_stretch {name : List Char} {t : Target} {scope : String}
    {item : HeaderItem name} {m : Member} (h : m ∈ item.members t scope) :
    m.declaration ∈ (item.stretch t scope).declarations := by
  rw [declarations_stretch]
  exact List.mem_map_of_mem h

@[simp] theorem FileItem.lines_stretch (t : Target) (item : FileItem) :
    (item.stretch t).lines = item.lines := by
  cases item <;> rfl

@[simp] theorem FileItem.declarations_stretch (t : Target) (item : FileItem) :
    (item.stretch t).declarations = (item.units t).map Symbol.declaration := by
  cases item <;> rfl

theorem FileItem.mem_declarations_stretch {t : Target} {item : FileItem} {u : Symbol}
    (h : u ∈ item.units t) : u.declaration ∈ (item.stretch t).declarations := by
  rw [declarations_stretch]
  exact List.mem_map_of_mem h

end Scan

end VhdlCatalog
