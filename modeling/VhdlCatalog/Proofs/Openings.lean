import VhdlCatalog.Proofs.Stretch

/-!
**What is declared is what is opened.**

A declaration is recognised by its opening line, but not every line that looks like an opening line
opens something: one that lies inside a declaration already open is part of that declaration.  This
module shows that nothing else stands between the lines of a file and the symbols returned for it.
The units are one for each line that opens a unit and is not enclosed by an earlier unit, and the
members of a package are, category by category, those of the lines of its header that open members
and are not enclosed by an earlier member.

Main definitions:

* `VhdlCatalog.Heading` — what the opening line of a symbol decides;
* `VhdlCatalog.unitHeading?`, `VhdlCatalog.memberHeadings` — what a line would open;
* `VhdlCatalog.Package.headerLines` — the code lines between the first and the last of a package.

Main results:

* `VhdlCatalog.headings_units`, `VhdlCatalog.headings_members` — the two levels;
* `VhdlCatalog.openings_of_scanSource` — **openings are sound and complete**.
-/

set_option relaxedAutoImplicit false
set_option autoImplicit false

namespace VhdlCatalog

open Source

/-! ### Headings -/

/-- What the opening line of a symbol decides. -/
structure Heading where
  /-- The kind of the symbol. -/
  kind : Kind
  /-- The form of a type; empty for other symbols. -/
  form : String
  /-- The declared name. -/
  name : String
  /-- Qualified name of the library or package around the symbol. -/
  scope : String
  /-- Number of the opening line. -/
  line : Int
  /-- Offset of the first byte of the opening line. -/
  codeStart : Int
  deriving DecidableEq, Repr

/-- The heading of a declaration of the given kind and form. -/
def Declaration.heading (d : Declaration) (kind : Kind) (form : String) : Heading :=
  ⟨kind, form, d.name, d.scope, d.line, d.codeStart⟩

/-- The heading of a member. -/
def Member.heading (m : Member) : Heading := m.declaration.heading m.category.kind m.form

/-- The heading of a symbol. -/
def Symbol.heading : Symbol → Heading
  | .entity d => d.heading .entity ""
  | .package p => p.declaration.heading .package ""
  | .member m => m.heading

/-- The kind of a unit of the given form. -/
def UnitForm.kind : UnitForm → Kind
  | entity => .entity
  | package => .package

/-- The heading of a symbol that the line declares. -/
def Source.SourceLine.heading (l : SourceLine) (kind : Kind) (form scope : String)
    (name : List Char) : Heading :=
  ⟨kind, form, String.ofList name, scope, l.number, l.start⟩

/-- The unit that the line opens, when it opens one. -/
def unitHeading? (library : String) (l : SourceLine) : Option Heading :=
  (unitOpening? l.line).map fun o => l.heading o.form.kind "" library o.name

/-- The members that the line opens, one for each name. -/
def memberHeadings (scope : String) (l : SourceLine) : List Heading :=
  match memberOpening? l.line with
  | none => []
  | some o => o.names.map (l.heading o.form.category.kind o.form.typeForm scope)

/-- The code lines strictly between the opening and the closing line of a package. -/
def Package.headerLines (p : Package) (data : Bytes) : List SourceLine :=
  (codePlaces data).filter fun l =>
    decide (p.declaration.codeStart < l.start) && decide (l.stop < p.declaration.codeStop)

/-! ### The two levels -/

namespace Scan

theorem FileItem.headings_units (t : Target) (item : FileItem) :
    (item.units t).map Symbol.heading =
      (unitHeading? t.library (item.stretch t).first.place).toList := by
  cases item with
  | other l h =>
      have hnone : unitHeading? t.library l.place = none := by
        rw [unitHeading?, CodeLine.place_line, h]
        rfl
      simp [units, stretch, hnone]
  | entity b =>
      have hsome : unitHeading? t.library b.first.place =
          some (b.first.place.heading .entity "" t.library b.opening.name) := by
        rw [unitHeading?, CodeLine.place_line, b.opens, Option.map_some, b.isEntity]
        rfl
      simp only [units, stretch, hsome]
      rfl
  | package b =>
      have hsome : unitHeading? t.library b.first.place =
          some (b.first.place.heading .package "" t.library b.opening.name) := by
        rw [unitHeading?, CodeLine.place_line, b.opens, Option.map_some, b.isPackage]
        rfl
      simp only [units, stretch, hsome]
      rfl

theorem HeaderItem.headings_members {name : List Char} (t : Target) (scope : String)
    (item : HeaderItem name) :
    (item.members t scope).map Member.heading =
      memberHeadings scope (item.stretch t scope).first.place := by
  cases item with
  | other l h _ => simp [members, stretch, memberHeadings, h]
  | member b =>
      have hopens : memberOpening? b.first.place.line = some b.opening := b.opens
      simp only [members, stretch, memberHeadings, hopens, MemberBlock.members, List.map_map]
      rfl

end Scan

/-- **The units** of a file are opened by the lines that no unit encloses. -/
theorem headings_units {items : List Scan.FileItem} (t : Scan.Target)
    (h : Ordered (items.flatMap Scan.FileItem.lines)) :
    (items.flatMap (Scan.FileItem.units t)).map Symbol.heading =
      (((items.flatMap Scan.FileItem.lines).map CodeLine.place).filter fun l =>
        (items.flatMap (Scan.FileItem.units t)).all fun u =>
          !u.declaration.encloses l).filterMap (unitHeading? t.library) := by
  have hlines : (items.map (Scan.FileItem.stretch t)).flatMap Scan.Stretch.lines =
      items.flatMap Scan.FileItem.lines := by
    simp [List.flatMap_map]
  have hdecls : (items.map (Scan.FileItem.stretch t)).flatMap Scan.Stretch.declarations =
      (items.flatMap (Scan.FileItem.units t)).map Symbol.declaration := by
    simp [List.flatMap_map, List.map_flatMap]
  have houtside := Scan.flatMap_outside (fun l => (unitHeading? t.library l).toList)
    (hlines ▸ h)
  rw [hlines, hdecls] at houtside
  simp only [List.all_map, Function.comp_def] at houtside
  rw [List.filterMap_eq_flatMap_toList, houtside, List.flatMap_map, List.map_flatMap]
  exact List.flatMap_congr fun item _ => item.headings_units t

theorem headerLines_package {items : List Scan.FileItem} {b : Scan.PackageBlock} {data : Bytes}
    (t : Scan.Target) (hdata : codeLines data = items.flatMap Scan.FileItem.lines)
    (hb : .package b ∈ items) :
    (b.toHeader.package t b.last.stop).headerLines data =
      (b.items.flatMap Scan.HeaderItem.lines).map CodeLine.place := by
  obtain ⟨as, bs, hsplit⟩ := Scan.FileItem.exists_split_of_package hb
  rw [← hdata] at hsplit
  have hord := ordered_codeLines data
  rw [hsplit] at hord
  have hinitial : ((codeLines data).filter fun l => decide ((l.stop : Int) < b.last.stop)) =
      as ++ b.first :: b.items.flatMap Scan.HeaderItem.lines := by
    rw [hsplit, hord.filter_initial (by simp) (by simp; omega)]
    simp
  have hmiddle : ((as ++ b.first :: b.items.flatMap Scan.HeaderItem.lines).filter fun l =>
      decide ((b.first.start : Int) < l.start)) = b.items.flatMap Scan.HeaderItem.lines := by
    rw [(ordered_append.1 hord).1.filter_suffix (by simp; omega) (by simp)]
    simp
  have hheader : (b.toHeader.package t b.last.stop).headerLines data =
      (((codeLines data).filter fun l => decide ((l.stop : Int) < b.last.stop)).filter fun l =>
        decide ((b.first.start : Int) < l.start)).map CodeLine.place := by
    rw [Package.headerLines, filter_codePlaces, List.filter_filter]
    rfl
  rw [hheader, hinitial, hmiddle]

/-- **The members** of a package are opened by the lines of its header that no member encloses. -/
theorem headings_members {b : Scan.PackageBlock} (t : Scan.Target)
    (h : Ordered (b.items.flatMap Scan.HeaderItem.lines)) :
    (b.toHeader.members t).map Member.heading =
      (((b.items.flatMap Scan.HeaderItem.lines).map CodeLine.place).filter fun l =>
        (b.toHeader.members t).all fun m => !m.declaration.encloses l).flatMap
          (memberHeadings (b.toHeader.declaration t b.first.stop).qualifiedName) := by
  have hlines : (b.items.map (Scan.HeaderItem.stretch t
      (b.toHeader.declaration t b.first.stop).qualifiedName)).flatMap Scan.Stretch.lines =
      b.items.flatMap Scan.HeaderItem.lines := by
    simp [List.flatMap_map]
  have hdecls : (b.items.map (Scan.HeaderItem.stretch t
      (b.toHeader.declaration t b.first.stop).qualifiedName)).flatMap Scan.Stretch.declarations =
      (b.toHeader.members t).map Member.declaration := by
    simp [Scan.Header.members, List.flatMap_map, List.map_flatMap]
  have houtside := Scan.flatMap_outside
    (memberHeadings (b.toHeader.declaration t b.first.stop).qualifiedName) (hlines ▸ h)
  rw [hlines, hdecls] at houtside
  simp only [List.all_map, Function.comp_def] at houtside
  rw [houtside, List.flatMap_map, Scan.Header.members, List.map_flatMap]
  exact List.flatMap_congr fun item _ => item.headings_members t _

theorem Category.kind_inj {c d : Category} : c.kind = d.kind ↔ c = d := by
  cases c <;> cases d <;> decide

/-! ### Files -/

variable {filepath library : String} {data : Bytes} {file : FileScan}

/-- **Openings are sound and complete.**  The units of a file are, in source order, one for each
code line that opens a unit and is not enclosed by a unit.  The members of a package are, in every
category and in source order, those of the lines of its header that open members and are not
enclosed by a member, one for each declared name. -/
theorem openings_of_scanSource (h : (scanSource filepath library data).result = .ok file) :
    file.units.map Symbol.heading =
      ((codePlaces data).filter fun l =>
        file.units.all fun u => !u.declaration.encloses l).filterMap
          (unitHeading? (String.ofList (Text.lower library.toList))) ∧
    ∀ p, Symbol.package p ∈ file.units → ∀ c : Category,
      (p.table c).values.map Member.heading =
        (((p.headerLines data).filter fun l =>
          p.members.all fun m => !m.declaration.encloses l).flatMap
            (memberHeadings p.declaration.qualifiedName)).filter (·.kind = c.kind) := by
  obtain ⟨items, hlines, hunits⟩ := exists_items_of_scanSource h
  have hord := ordered_codeLines data
  rw [hlines] at hord
  refine ⟨?_, ?_⟩
  · rw [hunits, ← map_place_codeLines, hlines]
    exact headings_units _ hord
  · intro p hp c
    rw [hunits] at hp
    obtain ⟨b, hb, rfl⟩ := Scan.FileItem.exists_package_of_mem hp
    obtain ⟨as, bs, hsplit⟩ := Scan.FileItem.exists_split_of_package hb
    rw [hsplit] at hord
    have hitems := (ordered_append.1 (ordered_append.1 hord).1).2.1.cons.2.1
    -- the scope of the members was taken when the package was open, and does not know its end
    rw [headerLines_package _ hlines hb]
    simp only [Scan.Header.package, Package.all_members_ofMembers, Package.table_ofMembers,
      Package.values_tableOf, Package.declaration_ofMembers]
    rw [show (b.toHeader.declaration (.ofFile filepath library) b.last.stop).qualifiedName =
      (b.toHeader.declaration (.ofFile filepath library) b.first.stop).qualifiedName from rfl,
      ← headings_members _ hitems, List.filter_map]
    refine congrArg _ (List.filter_congr fun m _ => ?_)
    exact decide_eq_decide.2 Category.kind_inj.symm

/-- The openings of the sample, which has two units. -/
theorem openings_of_sample :
    ∃ file, (scanSource "sample.vhd" "Work" sample).result = .ok file ∧ file.units.length = 2 ∧
      file.units.map Symbol.heading =
        ((codePlaces sample).filter fun l =>
          file.units.all fun u => !u.declaration.encloses l).filterMap
            (unitHeading? (String.ofList (Text.lower "Work".toList))) ∧
      ∀ p, Symbol.package p ∈ file.units → ∀ c : Category,
        (p.table c).values.map Member.heading =
          (((p.headerLines sample).filter fun l =>
            p.members.all fun m => !m.declaration.encloses l).flatMap
              (memberHeadings p.declaration.qualifiedName)).filter (·.kind = c.kind) := by
  have hlen : (scanSource "sample.vhd" "Work" sample).result.toOption.map
      (fun file => file.units.length) = some 2 := by
    decide +kernel
  obtain ⟨file, h, hlen⟩ := exists_file_sample hlen
  exact ⟨file, h, hlen, openings_of_scanSource h⟩

end VhdlCatalog
