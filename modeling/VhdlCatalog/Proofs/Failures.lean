import VhdlCatalog.Proofs.BlockRun

/-!
**Why a file is given up.**

A pass over the lines of a file can go wrong in two ways only.  The lines may run out while a
declaration is open, or a member may be closed whose opening line declares a name twice.  This
module says so without the pass: every list of lines is a list of finished parts, then perhaps a
unit that is cut off, or a member that repeats a name with whatever comes after it.  Which of the
three it is decides the outcome of the scan, and what stands in the error.

Main definitions:

* `VhdlCatalog.FirstRepeat` — the first name that has come before;
* `VhdlCatalog.Scan.Complete`, `VhdlCatalog.Scan.CutOff`, `VhdlCatalog.Scan.Repeats` — **the three
  ways** in which lines can be read.

Main results:

* `VhdlCatalog.Scan.complete_or_cutOff_or_repeats` — there is no fourth way;
* `VhdlCatalog.Scan.result_of_complete`, `VhdlCatalog.Scan.result_of_cutOff`,
  `VhdlCatalog.Scan.result_of_repeats` — the outcome of each;
* `VhdlCatalog.exists_distinct_items_of_scanSource` — a file that is scanned;
* `VhdlCatalog.failures_of_scanSource` — **errors are exactly these two**.
-/

set_option relaxedAutoImplicit false
set_option autoImplicit false

namespace VhdlCatalog

open Source

/-! ### Repeated names -/

/-- `x` is the first in the list that has come before. -/
def FirstRepeat {α : Type} (xs : List α) (x : α) : Prop :=
  ∃ as bs, xs = as ++ x :: bs ∧ as.Nodup ∧ x ∈ as

theorem nodup_or_exists_firstRepeat {α : Type} (xs : List α) :
    xs.Nodup ∨ ∃ x, FirstRepeat xs x := by
  induction xs using List.reverseRecOn with
  | nil => exact Or.inl List.nodup_nil
  | append_singleton xs y ih =>
      rcases ih with hnodup | ⟨x, as, bs, rfl, has, hx⟩
      · by_cases hy : y ∈ xs
        · exact Or.inr ⟨y, xs, [], rfl, hnodup, hy⟩
        · refine Or.inl (List.nodup_append.2 ⟨hnodup, List.nodup_singleton y, ?_⟩)
          intro a ha b hb heq
          rw [List.mem_singleton.1 hb] at heq
          exact hy (heq ▸ ha)
      · exact Or.inr ⟨x, as, bs ++ [y], by simp, has, hx⟩

namespace Scan

/-! ### Three ways to read lines -/

/-- The lines are those of finished parts in which no declaration repeats a name. -/
def Complete (ls : List CodeLine) : Prop :=
  ∃ items : List FileItem, ls = items.flatMap FileItem.lines ∧ ∀ item ∈ items, item.Distinct

/-- The lines run out in the unit `u`.  No declaration that was closed before repeats a name. -/
def CutOff (ls : List CodeLine) (u : OpenUnit) : Prop :=
  ∃ items : List FileItem, ls = items.flatMap FileItem.lines ++ u.lines ∧
    (∀ item ∈ items, item.Distinct) ∧ u.Distinct

/-- The member `b`, which comes after the header `h`, is the first declaration to be closed that
repeats a name, and `x` is the first name it repeats. -/
def Repeats (ls : List CodeLine) (h : Header) (b : MemberBlock) (x : List Char) : Prop :=
  ∃ (items : List FileItem) (rest : List CodeLine),
    ls = items.flatMap FileItem.lines ++ (h.lines ++ (b.lines ++ rest)) ∧
    (∀ item ∈ items, item.Distinct) ∧ h.Distinct ∧ FirstRepeat b.opening.names x

variable {ls : List CodeLine} {l : CodeLine} {items : List FileItem}

/-- One more finished part. -/
theorem complete_concat {ms : List CodeLine} (hitems : ∀ item ∈ items, item.Distinct)
    (item : FileItem) (hitem : item.Distinct) (hlines : item.lines = ms ++ [l])
    (hls : ls = items.flatMap FileItem.lines ++ ms) : Complete (ls ++ [l]) := by
  refine ⟨items ++ [item], by simp [hls, hlines], fun x hx => ?_⟩
  rcases List.mem_append.1 hx with hx | hx
  · exact hitems x hx
  · rw [List.mem_singleton.1 hx]
    exact hitem

theorem Header.distinct_snoc {h : Header} {item : HeaderItem h.opening.name} (hh : h.Distinct)
    (hitem : item.Distinct) : (h.snoc item).Distinct := by
  intro x hx
  rcases List.mem_append.1 hx with hx | hx
  · exact hh x hx
  · rw [List.mem_singleton.1 hx]
    exact hitem

/-- A line of a member, whose earlier lines are `before`. -/
theorem cutOff_or_repeats_of_member {h : Header} {before : List CodeLine} {o : Opening MemberForm}
    (hitems : ∀ item ∈ items, item.Distinct) (hh : h.Distinct)
    (hopens : memberOpening? (before.headD l).line = some o)
    (hwaits : NoneCloses ((Construct.member o.form).ClosedBy o.name) (before.map CodeLine.place))
    (hls : ls = items.flatMap FileItem.lines ++ (h.lines ++ before)) :
    (∃ u, CutOff (ls ++ [l]) u) ∨ ∃ h b x, Repeats (ls ++ [l]) h b x := by
  by_cases hc : (Construct.member o.form).ClosedBy o.name (before.map CodeLine.place) l.place
  · rcases nodup_or_exists_firstRepeat o.names with hnodup | ⟨x, hx⟩
    · refine Or.inl ⟨.package (h.snoc (.member ⟨o, before, l, hopens, hc, hwaits⟩)), items, ?_,
        hitems, Header.distinct_snoc hh hnodup⟩
      simp [hls, OpenUnit.lines, Header.lines_snoc, HeaderItem.lines, MemberBlock.lines]
    · refine Or.inr ⟨h, ⟨o, before, l, hopens, hc, hwaits⟩, x, items, [], ?_, hitems, hh, hx⟩
      simp [hls, MemberBlock.lines]
  · have hwaits' := hwaits.concat hc
    cases before with
    | nil =>
        refine Or.inl ⟨.member h ⟨o, l, [], hopens, hwaits'⟩, items, ?_, hitems, hh⟩
        simp [hls, OpenUnit.lines, OpenBlock.lines]
    | cons first rest =>
        refine Or.inl ⟨.member h ⟨o, first, rest ++ [l], hopens, by simpa using hwaits'⟩, items, ?_,
          hitems, hh⟩
        simp [hls, OpenUnit.lines, OpenBlock.lines]

/-- One more line inside a unit. -/
theorem CutOff.concat {u : OpenUnit} (h : CutOff ls u) (l : CodeLine) :
    Complete (ls ++ [l]) ∨ (∃ u, CutOff (ls ++ [l]) u) ∨ ∃ h b x, Repeats (ls ++ [l]) h b x := by
  obtain ⟨items, hls, hitems, hu⟩ := h
  cases u with
  | entity e =>
      by_cases hc : (Construct.unit .entity).ClosedBy e.opening.name (e.body.map CodeLine.place)
          l.place
      · exact Or.inl (complete_concat hitems
          (.entity ⟨e.opening, e.first, e.body, l, e.opens, e.isEntity, e.waits, hc⟩) trivial rfl
          hls)
      · have hwaits := e.waits.concat hc
        refine Or.inr (Or.inl ⟨.entity ⟨e.opening, e.first, e.body ++ [l], e.opens, e.isEntity,
          by simpa using hwaits⟩, items, ?_, hitems, trivial⟩)
        simp [hls, OpenUnit.lines]
  | package h =>
      -- a line that opens a member belongs to it, even if it could close the package
      cases ho : memberOpening? l.line with
      | some o =>
          have hopens : memberOpening? (List.headD [] l).line = some o := ho
          refine Or.inr (cutOff_or_repeats_of_member hitems hu hopens (noneCloses_nil _) ?_)
          rw [hls, OpenUnit.lines, List.append_nil]
      | none =>
          by_cases hc : (Construct.unit .package).ClosedBy h.opening.name [] l.place
          · exact Or.inl (complete_concat hitems (.package ⟨h, l, ho, hc⟩) hu rfl hls)
          · refine Or.inr (Or.inl ⟨.package (h.snoc (.other l ho hc)), items, ?_, hitems,
              Header.distinct_snoc hu trivial⟩)
            simp [hls, OpenUnit.lines, Header.lines_snoc, HeaderItem.lines]
  | member h b =>
      have hopens : memberOpening? (b.lines.headD l).line = some b.opening := b.opens
      exact Or.inr (cutOff_or_repeats_of_member hitems hu hopens b.waits hls)

/-- **There is no fourth way.** -/
theorem complete_or_cutOff_or_repeats (ls : List CodeLine) :
    Complete ls ∨ (∃ u, CutOff ls u) ∨ ∃ h b x, Repeats ls h b x := by
  induction ls using List.reverseRecOn with
  | nil => exact Or.inl ⟨[], rfl, by simp⟩
  | append_singleton ls l ih =>
      rcases ih with ⟨items, hls, hitems⟩ | ⟨u, hu⟩ | ⟨h, b, x, items, rest, hls, hnames⟩
      · have hls' : ls = items.flatMap FileItem.lines ++ [] := by rw [hls, List.append_nil]
        cases ho : unitOpening? l.line with
        | none => exact Or.inl (complete_concat hitems (.other l ho) trivial rfl hls')
        | some o =>
            cases hf : o.form with
            | entity =>
                exact Or.inr (Or.inl ⟨.entity ⟨o, l, [], ho, hf, noneCloses_nil _⟩, items,
                  by rw [hls]; rfl, hitems, trivial⟩)
            | package =>
                refine Or.inr (Or.inl ⟨.package ⟨o, l, ho, hf, []⟩, items,
                  by rw [hls]; rfl, hitems, ?_⟩)
                intro item hitem
                simp at hitem
      · exact hu.concat l
      · exact Or.inr (Or.inr ⟨h, b, x, items, rest ++ [l], by simp [hls], hnames⟩)

/-! ### The outcome of each -/

variable {t : Target}

theorem result_of_complete (h : Complete ls) (hn : Numbered ls) :
    ∃ file, (run t .start ls).result t = .ok file := by
  obtain ⟨items, rfl, hitems⟩ := h
  have hreach := reaches_of_distinct (t := t) (s := .start) hitems hn rfl
  exact ⟨_, by rw [Progress.result, hreach.2]⟩

/-- The error of a unit that is cut off. -/
def OpenUnit.error (filepath : String) (u : OpenUnit) : Error :=
  .unterminated filepath u.construct (String.ofList u.name) u.first.number

theorem result_of_cutOff {u : OpenUnit} (h : CutOff ls u) (hn : Numbered ls) :
    (run t .start ls).result t = .error (u.error t.filepath) := by
  obtain ⟨items, rfl, hitems, hu⟩ := h
  obtain ⟨hn, hnu, -⟩ := numbered_append.1 hn
  have hreach := reaches_of_distinct (t := t) (s := .start) hitems hn rfl
  cases u with
  | entity e =>
      have hend := hreach.append fun s' hs' => reaches_openEntity e hs'
      rw [OpenUnit.lines, Progress.result, hend.2]
      rfl
  | package h =>
      have hend := hreach.append fun s' hs' => reaches_header h (Header.nodup_keys hu hnu) hs'
      rw [OpenUnit.lines, Progress.result, hend.2]
      rfl
  | member h b =>
      have hkeys := Header.nodup_keys (t := t) hu (numbered_append.1 hnu).1
      have hheader := hreach.append fun s' hs' => reaches_header h hkeys hs'
      obtain ⟨m, hmember, hfirst, hm⟩ := reaches_openBlock (t := t) b hheader.2
      have hopening := hm.opens
      rw [hfirst, b.opens, Option.some.injEq] at hopening
      rw [OpenUnit.lines, ← List.append_assoc, run_append, Progress.result, hmember.2]
      simp only [hfirst, ← hopening]
      rfl

/-- The error of a member that repeats a name. -/
def MemberBlock.error (t : Target) (h : Header) (b : MemberBlock) (x : List Char) : Error :=
  .duplicate t.filepath (String.ofList x) b.first.number
    (h.declaration t h.first.stop).qualifiedName

/-- Adding the names of a member up to the first one that is repeated is refused there. -/
theorem addMember_of_firstRepeat {h : Header} {b : MemberBlock} {x : List Char}
    (hnames : h.Distinct) (hn : Numbered (h.lines ++ b.lines))
    (hx : FirstRepeat b.opening.names x) :
    (b.members t (h.declaration t h.first.stop).qualifiedName).foldlM Package.addMember
      (h.package t h.first.stop) = .error (b.error t h x) := by
  obtain ⟨as, bs, heq, has, hmem⟩ := hx
  obtain ⟨hnh, -, hlt⟩ := numbered_append.1 hn
  rw [MemberBlock.members, heq, List.map_append, List.map_cons]
  refine Package.foldlM_addMember_eq_error ?_ ?_
  · rw [List.map_append]
    refine List.nodup_append.2 ⟨Header.nodup_keys hnames hnh, b.nodup_keys _ has, ?_⟩
    intro k hk k' hk'
    obtain ⟨m, hm, rfl⟩ := List.mem_map.1 hk
    obtain ⟨m', hm', rfl⟩ := List.mem_map.1 hk'
    obtain ⟨n, -, rfl⟩ := List.mem_map.1 hm'
    obtain ⟨item, hitem, hm⟩ := List.mem_flatMap.1 hm
    obtain ⟨a, ha, hline⟩ := HeaderItem.exists_line hm
    have hafter : a ∈ h.lines := List.mem_cons_of_mem _ (List.mem_flatMap.2 ⟨item, hitem, ha⟩)
    exact key_ne_key hline rfl (hlt a hafter b.first (by rw [b.lines_eq_cons]; simp))
  · rw [List.map_append]
    exact List.mem_append_right _ (List.mem_map_of_mem (List.mem_map_of_mem hmem))

theorem result_of_repeats {h : Header} {b : MemberBlock} {x : List Char} (hr : Repeats ls h b x)
    (hn : Numbered ls) : (run t .start ls).result t = .error (b.error t h x) := by
  obtain ⟨items, rest, rfl, hitems, hh, hx⟩ := hr
  obtain ⟨hn, hnu, -⟩ := numbered_append.1 hn
  rw [← List.append_assoc] at hnu
  have hnb := (numbered_append.1 hnu).1
  have hreach := reaches_of_distinct (t := t) (s := .start) hitems hn rfl
  have hkeys := Header.nodup_keys (t := t) hh (numbered_append.1 hnb).1
  have hheader := hreach.append fun s' hs' => reaches_header h hkeys hs'
  have hmember := hheader.append fun s' hs' => reaches_memberBlock b hs'
  rw [Header.package, Package.declaration_ofMembers] at hmember
  rw [← Header.package, addMember_of_firstRepeat hh hnb hx] at hmember
  have hfailed := hmember.append fun s' hs' => reaches_failed rest hs'
  rw [← List.append_assoc, ← List.append_assoc, Progress.result, hfailed.2]

end Scan

/-! ### Files -/

/-- **In a file that is scanned** no declaration repeats a name. -/
theorem exists_distinct_items_of_scanSource {filepath library : String} {data : Bytes}
    {file : FileScan} (h : (scanSource filepath library data).result = .ok file) :
    ∃ items : List Scan.FileItem, codeLines data = items.flatMap Scan.FileItem.lines ∧
      (∀ item ∈ items, item.Distinct) ∧
      file.units = items.flatMap (Scan.FileItem.units (.ofFile filepath library)) := by
  have hn := numbered_codeLines data
  have hresult := h
  rw [result_scanSource] at hresult
  obtain ⟨items, hlines, hitems⟩ : Scan.Complete (codeLines data) := by
    rcases Scan.complete_or_cutOff_or_repeats (codeLines data) with hc | ⟨u, hu⟩ | ⟨g, b, x, hr⟩
    · exact hc
    · rw [Scan.result_of_cutOff hu hn] at hresult
      cases hresult
    · rw [Scan.result_of_repeats hr hn] at hresult
      cases hresult
  refine ⟨items, hlines, hitems, ?_⟩
  rw [hlines] at hn
  have hreach :=
    Scan.reaches_of_distinct (t := .ofFile filepath library) (s := .start) hitems hn rfl
  rw [(run_of_scanSource h).2, hlines, hreach.1]
  rfl

/-- **Errors are exactly these two.**  A scan succeeds exactly when the code lines of the source, up
to its end or its first body, are those of finished parts in which no declaration repeats a name.
It fails exactly when they run out while a declaration is open, and then names form, first name and
line of the innermost one; or when a member is closed whose opening line repeats a name, and then
names the first repeated name, that line, and the package.  In both cases no declaration that is
closed earlier repeats a name. -/
theorem failures_of_scanSource (filepath library : String) (data : Bytes) :
    ((∃ file, (scanSource filepath library data).result = .ok file) ↔
      Scan.Complete (codeLines data)) ∧
    ∀ e, (scanSource filepath library data).result = .error e ↔
      (∃ u, Scan.CutOff (codeLines data) u ∧
        e = .unterminated filepath u.construct (String.ofList u.name) u.first.number) ∨
      ∃ h b x, Scan.Repeats (codeLines data) h b x ∧
        e = .duplicate filepath (String.ofList x) b.first.number
          (h.declaration (.ofFile filepath library) h.first.stop).qualifiedName := by
  have hn := numbered_codeLines data
  rw [result_scanSource]
  refine ⟨⟨?_, fun hc => Scan.result_of_complete hc hn⟩, fun e => ⟨fun he => ?_, ?_⟩⟩
  · rintro ⟨file, hfile⟩
    rcases Scan.complete_or_cutOff_or_repeats (codeLines data) with hc | ⟨u, hu⟩ | ⟨h, b, x, hr⟩
    · exact hc
    · rw [Scan.result_of_cutOff hu hn] at hfile
      cases hfile
    · rw [Scan.result_of_repeats hr hn] at hfile
      cases hfile
  · rcases Scan.complete_or_cutOff_or_repeats (codeLines data) with hc | ⟨u, hu⟩ | ⟨h, b, x, hr⟩
    · obtain ⟨file, hfile⟩ := Scan.result_of_complete hc hn
      rw [hfile] at he
      cases he
    · rw [Scan.result_of_cutOff hu hn] at he
      exact Or.inl ⟨u, hu, (Except.error.inj he).symm⟩
    · rw [Scan.result_of_repeats hr hn] at he
      exact Or.inr ⟨h, b, x, hr, (Except.error.inj he).symm⟩
  · rintro (⟨u, hu, rfl⟩ | ⟨h, b, x, hr, rfl⟩)
    · exact Scan.result_of_cutOff hu hn
    · exact Scan.result_of_repeats hr hn

/-- Of two errors the one whose declaration ends first counts: the record is cut off, but the
constant before it has been closed. -/
example :
    (match (scanSource "f.vhd" "Work" ("package p is\nconstant a, b, b, a : t;\n" ++
        "type r is record\n").toUTF8.data.toList).result with
      | .error e => decide (e = .duplicate "f.vhd" "b" 2 "work.p")
      | .ok _ => false) = true := by
  decide +kernel

end VhdlCatalog
