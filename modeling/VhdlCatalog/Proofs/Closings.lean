import VhdlCatalog.Proofs.Stretch

/-!
**Every declaration ends at its first closing line.**

For every form of declaration there is a rule that says when a line closes it
(`VhdlCatalog.Construct.ClosedBy`), and there are lines that the rule is tried on: for an entity the
lines after its opening line, for a member its opening line and those after it, and for a package
the lines after its opening line that neither lie in a member nor open one.  This module shows that
the end of a returned declaration is the end of the first of these lines that the rule accepts.

Main results:

* `VhdlCatalog.Scan.EntityBlock.endsAtFirst`, `VhdlCatalog.Scan.MemberBlock.endsAtFirst`,
  `VhdlCatalog.Scan.PackageBlock.endsAtFirst` — one for each kind of block;
* `VhdlCatalog.closings_of_scanSource` — **first closing lines**, for all symbols of a file.
-/

set_option relaxedAutoImplicit false
set_option autoImplicit false

namespace VhdlCatalog

open Source

/-- No line closes when closing does not depend on the lines before. -/
theorem noneCloses_of_forall {closes : List SourceLine → SourceLine → Prop} {ls : List SourceLine}
    (h : ∀ l ∈ ls, ∀ before, ¬closes before l) : NoneCloses closes ls := by
  intro as l bs heq
  exact h l (by simp [heq]) as

/-- The closing rule of the package is tried on the line: it neither lies in a member nor opens
one. -/
def Package.tries (p : Package) (l : SourceLine) : Bool :=
  (p.members.all fun m => !m.declaration.contains l) && (memberOpening? l.line).isNone

namespace Scan

variable {data : Bytes} {as bs : List CodeLine}

/-- An entity ends at the first line after its opening line that closes it. -/
theorem EntityBlock.endsAtFirst (b : EntityBlock)
    (h : codeLines data = as ++ b.first :: (b.body ++ b.last :: bs)) :
    EndsAtFirst ((Construct.unit .entity).ClosedBy b.opening.name)
      ((codePlaces data).filter fun l => decide ((b.first.start : Int) < l.start)) b.last.stop := by
  have hord := ordered_codeLines data
  rw [h] at hord
  refine ⟨b.body.map CodeLine.place, b.last.place, bs.map CodeLine.place, ?_, b.closes, rfl,
    b.waits⟩
  rw [filter_codePlaces, h, hord.filter_suffix (by simp; omega) (by simp)]
  simp

/-- A member ends at the first line from its opening line on that closes it. -/
theorem MemberBlock.endsAtFirst (b : MemberBlock) (h : codeLines data = as ++ (b.lines ++ bs)) :
    EndsAtFirst ((Construct.member b.opening.form).ClosedBy b.opening.name)
      ((codePlaces data).filter fun l => decide ((b.first.start : Int) ≤ l.start)) b.last.stop := by
  have hcons : b.first :: (b.lines.tail ++ bs) = b.lines ++ bs := by
    rw [← List.cons_append, ← b.lines_eq_cons]
  have hord := ordered_codeLines data
  rw [h, ← hcons] at hord
  refine ⟨b.before.map CodeLine.place, b.last.place, bs.map CodeLine.place, ?_, b.closes, rfl,
    b.waits⟩
  have hfirst : ([b.first].filter fun l => decide ((b.first.start : Int) ≤ l.place.start)) =
      [b.first] := by simp
  rw [filter_codePlaces, h, ← hcons, hord.filter_suffix (by simp) (by simp; omega), hfirst,
    List.singleton_append, hcons]
  simp [MemberBlock.lines]

theorem HeaderItem.contains_of_mem {name : List Char} {item : HeaderItem name} {t : Target}
    {scope : String} (h : Ordered item.lines) {l : CodeLine} (hl : l ∈ item.lines) {m : Member}
    (hm : m ∈ item.members t scope) : m.declaration.contains l.place = true := by
  rw [← item.lines_stretch t scope] at h hl
  exact Stretch.contains_of_mem h hl (mem_declarations_stretch hm)

theorem HeaderItem.not_contains_of_le {name : List Char} {item : HeaderItem name} {t : Target}
    {scope : String} {l : CodeLine} (h : ∀ x ∈ item.lines, x.stop ≤ l.start)
    (hpos : l.start < l.stop) {m : Member} (hm : m ∈ item.members t scope) :
    m.declaration.contains l.place = false := by
  rw [← item.lines_stretch t scope] at h
  exact Stretch.not_contains_of_last_le (h _ (Stretch.last_mem_lines _)) hpos
    (mem_declarations_stretch hm)

theorem PackageBlock.tries_last (t : Target) (b : PackageBlock)
    (h : Ordered (b.items.flatMap HeaderItem.lines ++ b.last :: bs)) :
    (b.toHeader.package t b.last.stop).tries b.last.place = true := by
  obtain ⟨-, hlast, hle⟩ := ordered_append.1 h
  rw [Package.tries, Bool.and_eq_true, List.all_eq_true]
  refine ⟨fun m hm => ?_, by simp [b.lastOpens]⟩
  obtain ⟨item, hitem, hm⟩ := PackageBlock.mem_members.1 hm
  rw [Bool.not_eq_true']
  refine HeaderItem.not_contains_of_le (fun x hx => ?_) (hlast.start_lt_stop _ (by simp)) hm
  exact hle x (List.mem_flatMap.2 ⟨item, hitem, hx⟩) _ (by simp)

/-- A line of the header on which the closing rule is tried does not close the package.  The lines
of a member are not tried, because something is declared there. -/
theorem PackageBlock.not_closedBy_of_tries (t : Target) (b : PackageBlock)
    (h : Ordered (b.items.flatMap HeaderItem.lines)) {l : CodeLine}
    (hl : l ∈ b.items.flatMap HeaderItem.lines)
    (htry : (b.toHeader.package t b.last.stop).tries l.place = true) :
    ¬(Construct.unit .package).ClosedBy b.opening.name [] l.place := by
  obtain ⟨item, hitem, hl⟩ := List.mem_flatMap.1 hl
  cases item with
  | other x _ hwaits =>
      obtain rfl : l = x := by simpa [HeaderItem.lines] using hl
      exact hwaits
  | member c =>
      -- the member under the first name already contains the line
      have hm : c.member t (b.toHeader.declaration t b.first.stop).qualifiedName c.opening.name ∈
          (HeaderItem.member c : HeaderItem b.opening.name).members t
            (b.toHeader.declaration t b.first.stop).qualifiedName :=
        List.mem_map_of_mem (List.mem_cons_self ..)
      have hin := HeaderItem.contains_of_mem (h.of_mem_flatMap hitem) hl hm
      rw [Package.tries, Bool.and_eq_true, List.all_eq_true] at htry
      have hnot := htry.1 _ (PackageBlock.mem_members.2 ⟨_, hitem, hm⟩)
      simp [hin] at hnot

/-- A package ends at the first line after its opening line that is tried and closes it. -/
theorem PackageBlock.endsAtFirst (t : Target) (b : PackageBlock)
    (h : codeLines data = (as ++ b.first :: b.items.flatMap HeaderItem.lines) ++ b.last :: bs) :
    EndsAtFirst ((Construct.unit .package).ClosedBy b.opening.name)
      (((codePlaces data).filter fun l => decide ((b.first.start : Int) < l.start)).filter
        (b.toHeader.package t b.last.stop).tries) b.last.stop := by
  rw [List.append_assoc, List.cons_append] at h
  have hord := ordered_codeLines data
  rw [h] at hord
  have hafter : ((codePlaces data).filter fun l => decide ((b.first.start : Int) < l.start)) =
      (b.items.flatMap HeaderItem.lines).map CodeLine.place ++
        b.last.place :: bs.map CodeLine.place := by
    rw [filter_codePlaces, h, hord.filter_suffix (by simp; omega) (by simp)]
    simp
  obtain ⟨-, hrest, -⟩ := (ordered_append.1 hord).2.1.cons
  rw [hafter, List.filter_append, List.filter_cons, if_pos (b.tries_last t hrest)]
  refine ⟨_, b.last.place, _, rfl, b.closes, rfl, noneCloses_of_forall fun l hl before => ?_⟩
  obtain ⟨hl, htry⟩ := List.mem_filter.1 hl
  obtain ⟨x, hx, rfl⟩ := List.mem_map.1 hl
  exact b.not_closedBy_of_tries t (ordered_append.1 hrest).1 hx htry

theorem FileItem.exists_split_of_entity {items : List FileItem} {b : EntityBlock}
    (h : entity b ∈ items) :
    ∃ as bs, items.flatMap lines = as ++ b.first :: (b.body ++ b.last :: bs) := by
  obtain ⟨as, bs, rfl⟩ := List.append_of_mem h
  exact ⟨as.flatMap lines, bs.flatMap lines, by simp [lines]⟩

theorem HeaderItem.exists_split_of_member {name : List Char} {items : List (HeaderItem name)}
    {b : MemberBlock} (h : member b ∈ items) :
    ∃ as bs, items.flatMap lines = as ++ (b.lines ++ bs) := by
  obtain ⟨as, bs, rfl⟩ := List.append_of_mem h
  exact ⟨as.flatMap lines, bs.flatMap lines, by simp [lines]⟩

end Scan

/-! ### Files -/

variable {filepath library : String} {data : Bytes} {file : FileScan}

/-- **Every declaration ends at its first closing line.**  An entity ends at the first code line
after its opening line that closes it; a package at the first one that moreover neither lies in a
member nor opens one; and a member, declared by the opening `o` of its first line, at the first code
line from that line on that closes `o`, whose first name is the one looked for. -/
theorem closings_of_scanSource (h : (scanSource filepath library data).result = .ok file) :
    (∀ d, Symbol.entity d ∈ file.units →
      EndsAtFirst ((Construct.unit .entity).ClosedBy d.name.toList)
        ((codePlaces data).filter fun l => decide (d.codeStart < l.start)) d.codeStop) ∧
    ∀ p, Symbol.package p ∈ file.units →
      EndsAtFirst ((Construct.unit .package).ClosedBy p.declaration.name.toList)
        (((codePlaces data).filter fun l => decide (p.declaration.codeStart < l.start)).filter
          p.tries) p.declaration.codeStop ∧
      ∀ m ∈ p.members, ∃ first ∈ codePlaces data, ∃ o,
        m.declaration.codeStart = first.start ∧ memberOpening? first.line = some o ∧
        m.category = o.form.category ∧ m.form = o.form.typeForm ∧
        m.declaration.name.toList ∈ o.names ∧
        EndsAtFirst ((Construct.member o.form).ClosedBy o.name)
          ((codePlaces data).filter fun l => decide (m.declaration.codeStart ≤ l.start))
          m.declaration.codeStop := by
  obtain ⟨items, hlines, hunits⟩ := exists_items_of_scanSource h
  rw [hunits]
  refine ⟨fun d hd => ?_, fun p hp => ?_⟩
  · obtain ⟨b, hb, rfl⟩ := Scan.FileItem.exists_entity_of_mem hd
    obtain ⟨as, bs, hsplit⟩ := Scan.FileItem.exists_split_of_entity hb
    exact b.endsAtFirst (hlines.trans hsplit)
  · obtain ⟨b, hb, rfl⟩ := Scan.FileItem.exists_package_of_mem hp
    obtain ⟨as, bs, hsplit⟩ := Scan.FileItem.exists_split_of_package hb
    refine ⟨?_, fun m hm => ?_⟩
    · have hname :
          (b.toHeader.package (.ofFile filepath library) b.last.stop).declaration.name.toList =
            b.opening.name := String.toList_ofList
      rw [hname]
      exact b.endsAtFirst _ (hlines.trans hsplit)
    · obtain ⟨item, hitem, hm⟩ := Scan.PackageBlock.mem_members.1 hm
      cases item with
      | other l _ _ => simp [Scan.HeaderItem.members] at hm
      | member c =>
          obtain ⟨n, hn, rfl⟩ := List.mem_map.1 hm
          obtain ⟨as', bs', hinner⟩ := Scan.HeaderItem.exists_split_of_member hitem
          have hdata : codeLines data =
              (as ++ b.first :: as') ++ (c.lines ++ (bs' ++ b.last :: bs)) := by
            rw [hlines, hsplit, hinner]
            simp
          refine ⟨c.first.place, ?_, c.opening, rfl, c.opens, rfl, rfl, ?_, c.endsAtFirst hdata⟩
          · rw [← map_place_codeLines, hdata, c.lines_eq_cons]
            simp
          · simpa [Scan.MemberBlock.member, Scan.declare] using hn

/-- The closings of the sample, where a procedure goes over a comment line with a semicolon. -/
theorem closings_of_sample :
    ∃ file, (scanSource "sample.vhd" "Work" sample).result = .ok file ∧ file.units.length = 2 ∧
      (∀ d, Symbol.entity d ∈ file.units →
        EndsAtFirst ((Construct.unit .entity).ClosedBy d.name.toList)
          ((codePlaces sample).filter fun l => decide (d.codeStart < l.start)) d.codeStop) ∧
      ∀ p, Symbol.package p ∈ file.units →
        EndsAtFirst ((Construct.unit .package).ClosedBy p.declaration.name.toList)
          (((codePlaces sample).filter fun l => decide (p.declaration.codeStart < l.start)).filter
            p.tries) p.declaration.codeStop ∧
        ∀ m ∈ p.members, ∃ first ∈ codePlaces sample, ∃ o,
          m.declaration.codeStart = first.start ∧ memberOpening? first.line = some o ∧
          m.category = o.form.category ∧ m.form = o.form.typeForm ∧
          m.declaration.name.toList ∈ o.names ∧
          EndsAtFirst ((Construct.member o.form).ClosedBy o.name)
            ((codePlaces sample).filter fun l => decide (m.declaration.codeStart ≤ l.start))
            m.declaration.codeStop := by
  have hlen : (scanSource "sample.vhd" "Work" sample).result.toOption.map
      (fun file => file.units.length) = some 2 := by
    decide +kernel
  obtain ⟨file, h, hlen⟩ := exists_file_sample hlen
  exact ⟨file, h, hlen, closings_of_scanSource h⟩

end VhdlCatalog
