import VhdlCatalog.Proofs.Documentation

/-!
**Declarations are ordered, disjoint and properly nested.**

A declaration takes up the bytes from its documentation to its closing line.  The blocks of a file
stand one after another, and documentation never reaches up over a code line, so what the blocks
declare is ordered as well: units come one after another, the members of a package lie between its
opening and its closing line, and two members of a package either share an opening line, and then
everything but the name, or are disjoint and ordered like their lines.

Main definitions:

* `VhdlCatalog.Declaration.SharesSite` — two declarations differ at most in name and scope.

Main results:

* `VhdlCatalog.Scan.Stretch.apart`, `VhdlCatalog.Scan.pairwise_apart` — what is declared in one
  stretch ends before the documentation of what is declared in a later one;
* `VhdlCatalog.Scan.PackageBlock.inside` — members lie inside their package;
* `VhdlCatalog.nesting_of_scanSource` — **order and nesting** of all symbols of a file.
-/

set_option relaxedAutoImplicit false
set_option autoImplicit false

namespace VhdlCatalog

open Source

/-- The two declarations were made by one opening line and run to one closing line. -/
structure Declaration.SharesSite (d e : Declaration) : Prop where
  line : d.line = e.line
  docStart : d.docStart = e.docStart
  docStop : d.docStop = e.docStop
  codeStart : d.codeStart = e.codeStart
  codeStop : d.codeStop = e.codeStop
  signature : d.signature = e.signature
  summary : d.summary = e.summary

namespace Scan

variable {data : Bytes} {t : Target}

/-! ### Stretches one after another -/

/-- What is declared in a stretch ends before the documentation of what is declared in a later
one, and has a smaller line number. -/
theorem Stretch.apart {s s' : Stretch} (hord : Ordered s.lines)
    (hs : ∀ l ∈ s.lines, l ∈ codeLines data) (hfirst : s'.first ∈ codeLines data)
    (hle : s.last.stop ≤ s'.first.start) {d d' : Declaration} (hd : d ∈ s.declarations)
    (hd' : d' ∈ s'.declarations) : d.codeStop ≤ d'.docStart ∧ d.line < d'.line := by
  have hdoc := stop_le_docStart (hs _ s.last_mem_lines) hfirst hle
  have hmem : s.first ∈ s.lines := List.mem_cons_self ..
  have hstop := stop_le_last hord hmem
  have hnumber := number_lt_number (place_mem_sourceLines (hs _ hmem))
    (place_mem_sourceLines hfirst) (by simp; omega)
  have hlast : d.codeStop = s.last.stop := (s.spans d hd).codeStop
  rw [hlast, (s.spans d hd).line, (s'.spans d' hd').docStart, (s'.spans d' hd').line]
  simp only [CodeLine.place_number] at hnumber
  omega

/-- **Stretches are apart**: so are the declarations made in any two of them. -/
theorem pairwise_apart {ss : List Stretch} (hord : Ordered (ss.flatMap Stretch.lines))
    (hmem : ∀ l ∈ ss.flatMap Stretch.lines, l ∈ codeLines data) :
    ss.Pairwise fun s s' => ∀ d ∈ s.declarations, ∀ d' ∈ s'.declarations,
      d.codeStop ≤ d'.docStart ∧ d.line < d'.line := by
  induction ss with
  | nil => exact List.Pairwise.nil
  | cons s ss ih =>
      rw [List.flatMap_cons] at hord hmem
      obtain ⟨hs, hss, hle⟩ := ordered_append.1 hord
      refine List.pairwise_cons.2 ⟨?_, ih hss fun l hl => hmem l (List.mem_append_right _ hl)⟩
      intro s' hs' d hd d' hd'
      have hfirst : s'.first ∈ ss.flatMap Stretch.lines :=
        List.mem_flatMap.2 ⟨s', hs', List.mem_cons_self ..⟩
      exact Stretch.apart hs (fun l hl => hmem l (List.mem_append_left _ hl))
        (hmem _ (List.mem_append_right _ hfirst)) (hle _ s.last_mem_lines _ hfirst) hd hd'

/-! ### Units -/

/-- **Units are apart**, and declared on different lines. -/
theorem pairwise_units_apart {items : List FileItem}
    (h : codeLines data = items.flatMap FileItem.lines) :
    (items.flatMap (FileItem.units t)).Pairwise fun u u' =>
      u.declaration.codeStop ≤ u'.declaration.docStart ∧
        u.declaration.line < u'.declaration.line := by
  have hlines : (items.map (FileItem.stretch t)).flatMap Stretch.lines = codeLines data := by
    simp [List.flatMap_map, h]
  have hapart := pairwise_apart (hlines ▸ ordered_codeLines data) fun l hl => hlines ▸ hl
  rw [List.pairwise_map] at hapart
  refine List.pairwise_flatMap.2 ⟨fun item _ => ?_, hapart.imp fun hitems u hu u' hu' => ?_⟩
  · cases item <;> simp [FileItem.units]
  · exact hitems _ (FileItem.mem_declarations_stretch hu) _
      (FileItem.mem_declarations_stretch hu')

theorem pairwise_units {items : List FileItem}
    (h : codeLines data = items.flatMap FileItem.lines) :
    (items.flatMap (FileItem.units t)).Pairwise fun u u' =>
      u.declaration.codeStop ≤ u'.declaration.docStart :=
  (pairwise_units_apart h).imp And.left

/-! ### Members -/

variable {name : List Char} {scope : String}

/-- The members of one part of a header share their site. -/
theorem HeaderItem.sharesSite {item : HeaderItem name} {m m' : Member}
    (hm : m ∈ item.members t scope) (hm' : m' ∈ item.members t scope) :
    m.declaration.SharesSite m'.declaration := by
  cases item with
  | other l _ _ => simp [members] at hm
  | member b =>
      obtain ⟨n, -, rfl⟩ := List.mem_map.1 hm
      obtain ⟨n', -, rfl⟩ := List.mem_map.1 hm'
      exact ⟨rfl, rfl, rfl, rfl, rfl, rfl, rfl⟩

/-- **Members are apart** unless they share their site. -/
theorem members_apart {items : List (HeaderItem name)}
    (hord : Ordered (items.flatMap HeaderItem.lines))
    (hmem : ∀ l ∈ items.flatMap HeaderItem.lines, l ∈ codeLines data) {m m' : Member}
    (hm : m ∈ items.flatMap (HeaderItem.members t scope))
    (hm' : m' ∈ items.flatMap (HeaderItem.members t scope)) :
    (m.declaration.line = m'.declaration.line → m.declaration.SharesSite m'.declaration) ∧
    (m.declaration.line < m'.declaration.line →
      m.declaration.codeStop ≤ m'.declaration.docStart) := by
  have hlines : (items.map (HeaderItem.stretch t scope)).flatMap Stretch.lines =
      items.flatMap HeaderItem.lines := by
    simp [List.flatMap_map]
  have hapart := pairwise_apart (hlines ▸ hord) (hlines ▸ hmem)
  rw [List.pairwise_map] at hapart
  obtain ⟨item, hitem, hm⟩ := List.mem_flatMap.1 hm
  obtain ⟨item', hitem', hm'⟩ := List.mem_flatMap.1 hm'
  have hd := HeaderItem.mem_declarations_stretch hm
  have hd' := HeaderItem.mem_declarations_stretch hm'
  -- of two parts of the header one comes first, unless they are the same
  have hall : ∀ ⦃x⦄, x ∈ items → ∀ ⦃y⦄, y ∈ items → x = y ∨
      (∀ d ∈ (x.stretch t scope).declarations, ∀ d' ∈ (y.stretch t scope).declarations,
        d.codeStop ≤ d'.docStart ∧ d.line < d'.line) ∨
      (∀ d ∈ (y.stretch t scope).declarations, ∀ d' ∈ (x.stretch t scope).declarations,
        d.codeStop ≤ d'.docStart ∧ d.line < d'.line) :=
    List.Pairwise.forall_of_forall_of_flip (fun _ _ => Or.inl rfl)
      (hapart.imp fun h => Or.inr (Or.inl h)) (hapart.imp fun h => Or.inr (Or.inr h))
  rcases hall hitem hitem' with rfl | hlt | hgt
  · have hsite := HeaderItem.sharesSite hm hm'
    exact ⟨fun _ => hsite, fun hline => by rw [hsite.line] at hline; omega⟩
  · have h := hlt _ hd _ hd'
    exact ⟨fun hline => by omega, fun _ => h.1⟩
  · have h := hgt _ hd' _ hd
    exact ⟨fun hline => by omega, fun hline => by omega⟩

/-- **Members lie inside their package**: after its opening line and before its closing line. -/
theorem PackageBlock.inside {b : PackageBlock} {as bs : List CodeLine}
    (h : codeLines data = (as ++ b.first :: b.items.flatMap HeaderItem.lines) ++ b.last :: bs)
    {m : Member} (hm : m ∈ b.items.flatMap (HeaderItem.members t scope)) :
    (b.first.stop : Int) ≤ m.declaration.docStart ∧
      m.declaration.codeStop ≤ b.last.start := by
  have hord := ordered_codeLines data
  rw [h] at hord
  obtain ⟨hbefore, -, hlast⟩ := ordered_append.1 hord
  obtain ⟨-, hitems, hfirst⟩ := (ordered_append.1 hbefore).2.1.cons
  obtain ⟨item, hitem, hm⟩ := List.mem_flatMap.1 hm
  have hin : ∀ l ∈ item.lines, l ∈ b.items.flatMap HeaderItem.lines := fun l hl =>
    List.mem_flatMap.2 ⟨item, hitem, hl⟩
  obtain ⟨x, hx, y, hy, hspans, -⟩ := HeaderItem.exists_spans (hitems.of_mem_flatMap hitem) hm
  have hxdata : x ∈ codeLines data := by
    rw [h]
    simp [hin x hx]
  have hdoc := stop_le_docStart (by rw [h]; simp) hxdata (hfirst x (hin x hx))
  have hstop := hlast y (by simp [hin y hy]) b.last (by simp)
  rw [hspans.docStart, hspans.codeStop]
  omega

end Scan

/-! ### Files -/

variable {filepath library : String} {data : Bytes} {file : FileScan}

/-- **Declarations are ordered, disjoint and properly nested.**  Every unit ends before the
documentation of a later one.  The members of a package, documentation included, lie between its
opening and its closing line, strictly inside its range.  Two members of a package with one line
number share their site, and otherwise the one with the smaller number ends before the
documentation of the other. -/
theorem nesting_of_scanSource (h : (scanSource filepath library data).result = .ok file) :
    (file.units.Pairwise fun u u' => u.declaration.codeStop ≤ u'.declaration.docStart) ∧
    ∀ p, Symbol.package p ∈ file.units →
      (∃ first ∈ codePlaces data, ∃ last ∈ codePlaces data,
        p.declaration.line = first.number ∧ p.declaration.codeStart = first.start ∧
        p.declaration.codeStop = last.stop ∧
        ∀ m ∈ p.members,
          (first.stop ≤ m.declaration.docStart ∧ m.declaration.codeStop ≤ last.start) ∧
          p.declaration.codeStart < m.declaration.docStart ∧
          m.declaration.codeStop < p.declaration.codeStop) ∧
      ∀ m ∈ p.members, ∀ m' ∈ p.members,
        (m.declaration.line = m'.declaration.line →
          m.declaration.SharesSite m'.declaration) ∧
        (m.declaration.line < m'.declaration.line →
          m.declaration.codeStop ≤ m'.declaration.docStart) := by
  obtain ⟨items, hlines, hunits⟩ := exists_items_of_scanSource h
  rw [hunits]
  refine ⟨Scan.pairwise_units hlines, fun p hp => ?_⟩
  obtain ⟨b, hb, rfl⟩ := Scan.FileItem.exists_package_of_mem hp
  obtain ⟨as, bs, hsplit⟩ := Scan.FileItem.exists_split_of_package hb
  rw [← hlines] at hsplit
  simp only [Scan.Header.package, Package.mem_members_ofMembers, Package.declaration_ofMembers,
    Scan.Header.members]
  have hfirst : b.first ∈ codeLines data := by
    rw [hsplit]
    simp
  have hlast : b.last ∈ codeLines data := by
    rw [hsplit]
    simp
  refine ⟨⟨b.first.place, ?_, b.last.place, ?_, rfl, rfl, rfl, fun m hm => ?_⟩,
    fun m hm m' hm' => ?_⟩
  · exact map_place_codeLines data ▸ List.mem_map_of_mem hfirst
  · exact map_place_codeLines data ▸ List.mem_map_of_mem hlast
  · have hin := Scan.PackageBlock.inside hsplit hm
    have hstart := start_lt_stop_of_mem_codeLines hfirst
    have hstop := start_lt_stop_of_mem_codeLines hlast
    refine ⟨hin, ?_, ?_⟩
    · show (b.first.start : Int) < m.declaration.docStart
      omega
    · show m.declaration.codeStop < (b.last.stop : Int)
      omega
  · have hord := ordered_codeLines data
    rw [hsplit] at hord
    have hitems := (ordered_append.1 (ordered_append.1 hord).1).2.1.cons.2.1
    have hmem : ∀ l ∈ b.items.flatMap Scan.HeaderItem.lines, l ∈ codeLines data := by
      intro l hl
      rw [hsplit]
      exact List.mem_append_left _ (List.mem_append_right _ (List.mem_cons_of_mem _ hl))
    exact Scan.members_apart hitems hmem hm hm'

/-- The nesting of the sample, which has a unit after a package with four members. -/
theorem nesting_of_sample :
    ∃ file p, (scanSource "sample.vhd" "Work" sample).result = .ok file ∧
      file.units.length = 2 ∧ Symbol.package p ∈ file.units ∧ p.members.length = 4 ∧
      (file.units.Pairwise fun u u' => u.declaration.codeStop ≤ u'.declaration.docStart) ∧
      (∃ first ∈ codePlaces sample, ∃ last ∈ codePlaces sample,
        p.declaration.line = first.number ∧ p.declaration.codeStart = first.start ∧
        p.declaration.codeStop = last.stop ∧
        ∀ m ∈ p.members,
          (first.stop ≤ m.declaration.docStart ∧ m.declaration.codeStop ≤ last.start) ∧
          p.declaration.codeStart < m.declaration.docStart ∧
          m.declaration.codeStop < p.declaration.codeStop) ∧
      ∀ m ∈ p.members, ∀ m' ∈ p.members,
        (m.declaration.line = m'.declaration.line →
          m.declaration.SharesSite m'.declaration) ∧
        (m.declaration.line < m'.declaration.line →
          m.declaration.codeStop ≤ m'.declaration.docStart) := by
  have hcount : (scanSource "sample.vhd" "Work" sample).result.toOption.map
      (fun file => (file.units.length, file.units.map fun u =>
        u.casesOn (fun _ => 0) (fun p => p.members.length) fun _ => 0)) = some (2, [4, 0]) := by
    decide +kernel
  obtain ⟨file, h, hcount⟩ := exists_file_sample hcount
  obtain ⟨hlen, hmembers⟩ := Prod.mk.inj hcount
  obtain ⟨horder, hnest⟩ := nesting_of_scanSource h
  -- the first unit is the one with members
  cases hunits : file.units with
  | nil => simp [hunits] at hlen
  | cons u us =>
      cases u with
      | package p =>
          have hp : Symbol.package p ∈ file.units := by simp [hunits]
          have hfour : p.members.length = 4 := by
            simp only [hunits, List.map_cons, List.cons.injEq] at hmembers
            exact hmembers.1
          exact ⟨file, p, h, hlen, hp, hfour, horder, hnest p hp⟩
      | entity d => simp [hunits] at hmembers
      | member m => simp [hunits] at hmembers

end VhdlCatalog
