import Mathlib.Data.List.Perm.Basic
import VhdlCatalog.Proofs.CatalogRuns
import VhdlCatalog.Proofs.DeclaredNames

/-!
**What a path stands for.**

The qualified name of a symbol is a path: the library, the unit, and for members their name.  In a
catalog of scanned files the symbols that it stands for are those with this qualified name, whatever
else is in the catalog, as long as there is a name at its end.  A member whose name is empty cannot
be found: its qualified name ends with a dot, and then stands for its package.  Any other path is
looked up in one library after another.

Main definitions:

* `VhdlCatalog.components` — the components of a dotted name;
* `VhdlCatalog.Library.symbols` — the units of a library with their members;
* `VhdlCatalog.Library.Declared` — a library of scanned units;
* `VhdlCatalog.Catalog.ofFiles` — the catalog of given files.

Main results:

* `VhdlCatalog.Symbol.DeclaredIn.components_eq`,
  `VhdlCatalog.Symbol.DeclaredIn.components_of_mem_members` — the components of qualified names;
* `VhdlCatalog.Library.Declared.resolveIn_unit`, `VhdlCatalog.Library.Declared.resolveIn_member` —
  **paths within a library**: exactly the symbols with these components are found;
* `VhdlCatalog.resolve_qualified_names` — **paths in a catalog**.
-/

set_option relaxedAutoImplicit false
set_option autoImplicit false

namespace VhdlCatalog

open Source

/-! ### Dotted names -/

/-- The components of a dotted name, also empty ones. -/
def components (name : String) : List String :=
  (Text.pieces (· == '.') name.toList).map String.ofList

theorem components_of_dotless {name : String} (h : '.' ∉ name.toList) :
    components name = [name] := by
  have hpieces : Text.pieces (· == '.') name.toList = [name.toList] :=
    Canonical.pieces_of_forall fun c hc => by
      rw [beq_eq_false_iff_ne]
      rintro rfl
      exact h hc
  rw [components, hpieces, List.map_singleton, String.ofList_toList]

/-- A first component. -/
theorem components_dot {name : String} (h : '.' ∉ name.toList) (rest : String) :
    components (name ++ "." ++ rest) = name :: components rest := by
  have htext : (name ++ "." ++ rest).toList = name.toList ++ '.' :: rest.toList := by simp
  have hname := components_of_dotless h
  rw [components, Text.pieces_eq_splitOnP] at hname
  rw [components, components, htext, Text.pieces_eq_splitOnP, Text.pieces_eq_splitOnP,
    List.splitOnP_append_cons _ _ (by rfl), List.map_append, hname]
  rfl

theorem components_ne_nil (name : String) : components name ≠ [] := by
  rw [components, Ne, List.map_eq_nil_iff]
  exact Text.pieces_ne_nil _ _

/-- A name is known from its components. -/
theorem components_injective : Function.Injective components := by
  intro a b h
  have hpieces : ∀ name : String,
      ['.'].intercalate ((components name).map String.toList) = name.toList := by
    intro name
    rw [components, Text.pieces_eq_splitOnP, List.map_map]
    have hid : String.toList ∘ String.ofList = id := funext fun _ => String.toList_ofList
    rw [hid, List.map_id]
    exact List.intercalate_splitOn '.'
  have hlist := hpieces a
  rw [h, hpieces b] at hlist
  exact String.toList_injective hlist.symm

/-! ### Paths -/

theorem IsLower.dot {a b : String} (ha : IsLower a) (hb : IsLower b) : IsLower (a ++ "." ++ b) := by
  intro c hc
  simp only [String.toList_append, List.mem_append] at hc
  rcases hc with (hc | hc) | hc
  · exact ha c hc
  · rw [show c = '.' by simpa using hc]
    decide +kernel
  · exact hb c hc

namespace Catalog

/-- In lower case, a path has the components of its name that are not empty. -/
theorem pathParts_eq {path : String} (h : IsLower path) :
    pathParts path = (components path).filter fun part => !part.isEmpty := by
  rw [pathParts, Text.lower, Text.lowerFrom_of_isLowered h, components, List.filter_map]
  congr 1
  refine List.filter_congr fun part _ => ?_
  cases part <;> simp

theorem dotless_of_mem_pathParts {path part : String} (h : part ∈ pathParts path) :
    '.' ∉ part.toList := by
  obtain ⟨piece, hpiece, rfl⟩ := List.mem_map.1 h
  intro hdot
  rw [String.toList_ofList] at hdot
  have hcut := (Text.mem_of_mem_pieces (List.mem_of_mem_filter hpiece) '.' hdot).2
  cases hcut

/-- A path that begins with the name of a library. -/
theorem pathParts_dot {library path : String} (h : IsComponent library) (hpath : IsLower path) :
    pathParts (library ++ "." ++ path) = library :: pathParts path := by
  have hne : library.isEmpty = false := by simpa using h.nonempty
  rw [pathParts_eq (h.lower.dot hpath), components_dot h.dotless, pathParts_eq hpath,
    List.filter_cons_of_pos (by simp [hne])]

end Catalog

/-! ### Qualified names -/

section QualifiedNames

variable {library : String}

theorem qualifiedName_of_scope {d : Declaration} (h : d.scope ≠ "") :
    d.qualifiedName = d.scope ++ "." ++ d.name := by
  rw [Declaration.qualifiedName, if_neg (by simpa using h)]

theorem Symbol.DeclaredIn.qualifiedName {s : Symbol} (hlibrary : IsComponent library)
    (h : s.DeclaredIn library) :
    s.declaration.qualifiedName = library ++ "." ++ s.declaration.name := by
  rw [qualifiedName_of_scope (by rw [h.scope]; exact hlibrary.nonempty), h.scope]

/-- The qualified name of a unit has two components. -/
theorem Symbol.DeclaredIn.components_eq {s : Symbol} (hlibrary : IsComponent library)
    (h : s.DeclaredIn library) :
    components s.declaration.qualifiedName = [library, s.declaration.name] := by
  rw [h.qualifiedName hlibrary, components_dot hlibrary.dotless,
    components_of_dotless h.name.dotless]

theorem Package.DeclaredIn.qualifiedName_member {p : Package} {m : Member}
    (hlibrary : IsComponent library) (h : p.DeclaredIn library) (hm : m ∈ p.members) :
    m.declaration.qualifiedName =
      library ++ "." ++ p.declaration.name ++ "." ++ m.declaration.name := by
  have hpackage : p.declaration.qualifiedName = library ++ "." ++ p.declaration.name :=
    Symbol.DeclaredIn.qualifiedName (s := .package p) hlibrary h
  have hscope : m.declaration.scope = library ++ "." ++ p.declaration.name :=
    (h.memberScope m hm).trans hpackage
  have hne : m.declaration.scope ≠ "" := by
    rw [hscope]
    intro hempty
    simpa using congrArg String.toList hempty
  rw [qualifiedName_of_scope hne, hscope]

end QualifiedNames

/-! ### Symbols -/

/-- The members of a unit. -/
def Symbol.members : Symbol → List Symbol
  | package p => p.members.map Symbol.member
  | _ => []

/-- All symbols of a library: the units, each with its members. -/
def Library.symbols (lib : Library) : List Symbol :=
  lib.contents.flatMap fun e => e.2 :: e.2.members

theorem flatMap_ite {α β : Type} (p : α → Prop) [DecidablePred p] (f : α → List β) (xs : List α) :
    xs.flatMap (fun x => if p x then f x else []) =
      (xs.filter fun x => decide (p x)).flatMap f := by
  induction xs with
  | nil => rfl
  | cons x xs ih =>
      by_cases hx : p x
      · simp [hx, ih]
      · simp [hx, ih]

namespace Symbol.DeclaredIn

variable {library : String} {s : Symbol}

/-- The qualified name of a member has the components of its unit, and those of its name. -/
theorem components_of_mem_members (hlibrary : IsComponent library) (h : s.DeclaredIn library)
    {x : Symbol} (hx : x ∈ s.members) :
    components x.declaration.qualifiedName =
      library :: s.declaration.name :: components x.declaration.name := by
  cases s with
  | entity d => cases hx
  | package p =>
      obtain ⟨m, hm, rfl⟩ := List.mem_map.1 hx
      have hassoc : library ++ "." ++ p.declaration.name ++ "." ++ m.declaration.name =
          library ++ "." ++ (p.declaration.name ++ "." ++ m.declaration.name) := by
        simp only [String.append_assoc]
      have hunit : '.' ∉ p.declaration.name.toList := h.name.dotless
      simp only [declaration]
      rw [Package.DeclaredIn.qualifiedName_member hlibrary h hm, hassoc,
        components_dot hlibrary.dotless, components_dot hunit]
  | member m => cases hx

theorem isLower_of_mem_members (hlibrary : IsComponent library) (h : s.DeclaredIn library)
    {x : Symbol} (hx : x ∈ s.members) : IsLower x.declaration.qualifiedName := by
  cases s with
  | entity d => cases hx
  | package p =>
      obtain ⟨m, hm, rfl⟩ := List.mem_map.1 hx
      rw [declaration, Package.DeclaredIn.qualifiedName_member hlibrary h hm]
      exact (hlibrary.lower.dot h.name.lower).dot (Package.DeclaredIn.memberLower h m hm)
  | member m => cases hx

/-- Two components belong to a unit and not to its members. -/
theorem filter_unit (hlibrary : IsComponent library) (h : s.DeclaredIn library) (unit : String) :
    ((s :: s.members).filter fun x =>
        components x.declaration.qualifiedName = [library, unit]) =
      if s.declaration.name = unit then [s] else [] := by
  have hmembers : (s.members.filter fun x =>
      decide (components x.declaration.qualifiedName = [library, unit])) = [] := by
    refine List.filter_eq_nil_iff.2 fun x hx => ?_
    simp [h.components_of_mem_members hlibrary hx, components_ne_nil]
  rw [List.filter_cons, hmembers, h.components_eq hlibrary]
  simp

/-- Three components, of which the last has no dot, belong to members. -/
theorem filter_member (hlibrary : IsComponent library) (h : s.DeclaredIn library) (unit : String)
    {name : String} (hname : '.' ∉ name.toList) :
    ((s :: s.members).filter fun x =>
        components x.declaration.qualifiedName = [library, unit, name]) =
      if s.declaration.name = unit then s.members.filter fun x => x.declaration.name = name
      else [] := by
  have hself : components s.declaration.qualifiedName ≠ [library, unit, name] := by
    rw [h.components_eq hlibrary]
    simp
  have hmember : ∀ x ∈ s.members,
      (decide (components x.declaration.qualifiedName = [library, unit, name])) =
        (decide (s.declaration.name = unit) && decide (x.declaration.name = name)) := by
    intro x hx
    rw [h.components_of_mem_members hlibrary hx, ← components_of_dotless hname]
    simp [components_injective.eq_iff]
  rw [List.filter_cons_of_neg (by simpa using hself), List.filter_congr hmember]
  by_cases hunit : s.declaration.name = unit
  · simp [hunit]
  · simp [hunit]

end Symbol.DeclaredIn

/-! ### Libraries -/

/-- The library has a name that can stand in a path, and units as scans declare them, each under its
own key. -/
structure Library.Declared (lib : Library) : Prop where
  name : IsComponent lib.name
  own : ∀ e ∈ lib.contents, e.1 = e.2.declaration.id
  units : ∀ e ∈ lib.contents, e.2.DeclaredIn lib.name

theorem Package.named_perm {p : Package} (h : ∀ e ∈ p.entries, e.1 = e.2.declaration.id)
    (name : String) :
    (p.named name).Perm (p.members.filter fun m => m.declaration.name = name) := by
  have hfilter : (p.entries.filter fun e => decide (e.1.name = name)) =
      p.entries.filter fun e => decide (e.2.declaration.name = name) :=
    List.filter_congr fun e he => by rw [h e he]; rfl
  rw [named, pick, members, List.filter_map, hfilter]
  exact List.mergeSort_perm ..

namespace Library.Declared

variable {lib : Library}

theorem named_perm (h : lib.Declared) (unit : String) :
    (lib.named unit).Perm
      ((lib.contents.filter fun e => e.2.declaration.name = unit).map Prod.snd) := by
  have hfilter : (lib.contents.filter fun e => decide (e.1.name = unit)) =
      lib.contents.filter fun e => decide (e.2.declaration.name = unit) :=
    List.filter_congr fun e he => by rw [h.own e he]; rfl
  rw [Library.named, hfilter]
  exact List.mergeSort_perm ..

/-- **Units**: found are the symbols with these two components. -/
theorem resolveIn_unit (h : lib.Declared) (unit : String) :
    (Catalog.resolveIn lib [unit]).Perm
      (lib.symbols.filter fun s =>
        components s.declaration.qualifiedName = [lib.name, unit]) := by
  have hsymbols : (lib.symbols.filter fun s =>
      decide (components s.declaration.qualifiedName = [lib.name, unit])) =
        (lib.contents.filter fun e => e.2.declaration.name = unit).map Prod.snd := by
    rw [Library.symbols, List.filter_flatMap, List.map_eq_flatMap, ← flatMap_ite]
    exact List.flatMap_congr fun e he => (h.units e he).filter_unit h.name unit
  rw [hsymbols]
  exact h.named_perm unit

/-- **Members**: found are the symbols with these three components. -/
theorem resolveIn_member (h : lib.Declared) (unit : String) {name : String}
    (hname : '.' ∉ name.toList) :
    (Catalog.resolveIn lib [unit, name]).Perm
      (lib.symbols.filter fun s =>
        components s.declaration.qualifiedName = [lib.name, unit, name]) := by
  have hsymbols : (lib.symbols.filter fun s =>
      decide (components s.declaration.qualifiedName = [lib.name, unit, name])) =
        ((lib.contents.filter fun e => e.2.declaration.name = unit).map Prod.snd).flatMap
          fun s => s.members.filter fun x => x.declaration.name = name := by
    rw [Library.symbols, List.filter_flatMap, List.flatMap_map, ← flatMap_ite]
    exact List.flatMap_congr fun e he => (h.units e he).filter_member h.name unit hname
  rw [hsymbols]
  refine List.Perm.flatMap (h.named_perm unit) fun s hs => ?_
  obtain ⟨e, he, rfl⟩ := List.mem_map.1 ((h.named_perm unit).mem_iff.1 hs)
  have hunit := h.units e (List.mem_of_mem_filter he)
  cases hs : e.2 with
  | entity d => exact .refl _
  | package p =>
      rw [hs] at hunit
      rw [Symbol.members, List.filter_map]
      exact (Package.named_perm hunit.own name).map _
  | member m => exact .refl _

/-- **Whatever is found** in a library has its name and the path as components. -/
theorem components_of_mem_resolveIn (h : lib.Declared) {parts : List String}
    (hparts : ∀ part ∈ parts, '.' ∉ part.toList) {s : Symbol}
    (hs : s ∈ Catalog.resolveIn lib parts) :
    components s.declaration.qualifiedName = lib.name :: parts := by
  match parts with
  | [] => cases hs
  | [unit] => simpa using List.of_mem_filter ((h.resolveIn_unit unit).mem_iff.1 hs)
  | [unit, name] =>
      have hname : '.' ∉ name.toList := hparts name (by simp)
      simpa using List.of_mem_filter ((h.resolveIn_member unit hname).mem_iff.1 hs)
  | _ :: _ :: _ :: _ => cases hs

end Library.Declared

/-! ### Catalogs -/

/-- The file comes from a scan, for a library whose name can stand in a path. -/
structure FileScan.Placed (file : FileScan) : Prop where
  scanned : ∃ filepath library data, (scanSource filepath library data).result = .ok file
  nonempty : file.library ≠ ""
  dotless : '.' ∉ file.library.toList

theorem FileScan.Placed.isComponent {file : FileScan} (h : file.Placed) :
    IsComponent file.library := by
  obtain ⟨filepath, library, data, hscan⟩ := h.scanned
  refine ⟨h.nonempty, ?_, h.dotless⟩
  rw [library_of_scanSource hscan]
  exact isLower_lowerName library

namespace Catalog

/-- The catalog that is left when files are merged into an empty one, one after another.  A file
that is refused leaves no units. -/
def ofFiles (files : List FileScan) : Catalog :=
  (runAll (files.map fun file => .insertion (.file file))).1

/-- **The libraries of scanned files** have units as scans declare them. -/
theorem declared_of_get? {files : List FileScan} (hfiles : ∀ file ∈ files, file.Placed)
    {name : String} {lib : Library} (h : (ofFiles files).get? name = some lib) :
    lib.name = name ∧ lib.Declared := by
  obtain ⟨bs, hrun, -, hbs⟩ := exists_runAll_eq (files.map fun file => .insertion (.file file))
  -- every batch has the library of a file, and its units or none
  have hbatch : ∀ b ∈ bs, IsComponent b.library ∧ ∀ s ∈ b.symbols, s.DeclaredIn b.library := by
    intro b hb
    obtain ⟨call, hcall, hb⟩ := hbs b hb
    obtain ⟨file, hfile, rfl⟩ := List.mem_map.1 hcall
    have hplaced := hfiles file hfile
    obtain ⟨filepath, library, data, hscan⟩ := hplaced.scanned
    rcases hb with rfl | rfl
    · exact ⟨hplaced.isComponent, declaredIn_of_scanSource hscan⟩
    · exact ⟨hplaced.isComponent, fun s hs => by cases hs⟩
  rw [ofFiles, hrun, get?_ofBatches] at h
  split at h
  · next hname =>
      obtain rfl := Option.some.inj h
      obtain ⟨b, hb, rfl⟩ := Batch.mem_libraries.1 hname
      refine ⟨rfl, (hbatch b hb).1, fun e he => ?_, fun e he => ?_⟩
      · rw [Library.contents_ofUnits] at he
        obtain ⟨s, -, rfl⟩ := List.mem_map.1 he
        rfl
      · rw [Library.contents_ofUnits] at he
        obtain ⟨s, hs, rfl⟩ := List.mem_map.1 he
        obtain ⟨b', hb', hs⟩ := List.mem_flatMap.1 (Library.mem_of_mem_byKind hs)
        obtain ⟨hb', hlibrary⟩ := List.mem_filter.1 hb'
        have hdeclared := (hbatch b' hb').2 s hs
        rwa [of_decide_eq_true hlibrary] at hdeclared
  · cases h

variable {c : Catalog}

/-- A path whose components begin with the name of a library. -/
theorem resolve_of_components {lib : Library} (hlib : c.get? lib.name = some lib)
    (hname : lib.name ≠ "") {path : String} {parts : List String} (hlower : IsLower path)
    (hparts : components path = lib.name :: parts) :
    c.resolve path = resolveIn lib (parts.filter fun part => !part.isEmpty) := by
  have hne : lib.name.isEmpty = false := by simpa using hname
  rw [resolve, pathParts_eq hlower, hparts, List.filter_cons_of_pos (by simp [hne])]
  simp only [hlib]

/-- A path that does not begin with the name of a library is looked up in all of them. -/
theorem resolve_of_not_library {path : String}
    (h : ∀ first ∈ (pathParts path).head?, c.contains first = false) :
    c.resolve path = c.libraryNames.flatMap fun name =>
      (c.get? name).toList.flatMap fun lib => resolveIn lib (pathParts path) := by
  have hsorted : c.resolve path = c.sorted.flatMap fun lib => resolveIn lib (pathParts path) := by
    rw [resolve]
    cases hparts : pathParts path with
    | nil => simp [resolveIn]
    | cons first rest =>
        have hnone : c.get? first = none := Table.get?_eq_none (h first (by simp [hparts]))
        simp only [hnone]
  rw [hsorted, sorted, List.filterMap_eq_flatMap_toList, List.flatMap_assoc]

theorem exists_get?_of_mem_libraryNames {name : String} (h : name ∈ c.libraryNames) :
    ∃ lib, c.get? name = some lib := by
  have hkey : name ∈ c.libraries.keys := List.mem_mergeSort.1 h
  obtain ⟨e, he, rfl⟩ := List.mem_map.1 hkey
  rw [← Option.isSome_iff_exists, get?, Table.get?, Option.isSome_map, List.find?_isSome]
  exact ⟨e, he, by simp⟩

end Catalog

namespace Library.Declared

variable {lib : Library} {s : Symbol}

/-- **The qualified names of a library** are in lower case, and have two components for units and
three for members whose name has no dot. -/
theorem qualifiedName_of_mem (h : lib.Declared) (hs : s ∈ lib.symbols)
    (hdot : '.' ∉ s.declaration.name.toList) :
    IsLower s.declaration.qualifiedName ∧
      ((s.declaration.name ≠ "" ∧
        components s.declaration.qualifiedName = [lib.name, s.declaration.name]) ∨
      ∃ unit, IsComponent unit ∧
        components s.declaration.qualifiedName = [lib.name, unit, s.declaration.name]) := by
  obtain ⟨e, he, hs⟩ := List.mem_flatMap.1 hs
  have hunit := h.units e he
  rcases List.mem_cons.1 hs with rfl | hs
  · refine ⟨?_, Or.inl ⟨hunit.name.nonempty, hunit.components_eq h.name⟩⟩
    rw [hunit.qualifiedName h.name]
    exact h.name.lower.dot hunit.name.lower
  · refine ⟨hunit.isLower_of_mem_members h.name hs,
      Or.inr ⟨e.2.declaration.name, hunit.name, ?_⟩⟩
    rw [hunit.components_of_mem_members h.name hs, components_of_dotless hdot]

/-- **A qualified name** stands for the symbols of the library that have it, unless the name at its
end is empty. -/
theorem resolve_qualifiedName (h : lib.Declared) {c : Catalog} (hlib : c.get? lib.name = some lib)
    (hs : s ∈ lib.symbols) (hdot : '.' ∉ s.declaration.name.toList) :
    s.declaration.name ≠ "" ↔ (c.resolve s.declaration.qualifiedName).Perm
      (lib.symbols.filter fun x =>
        x.declaration.qualifiedName = s.declaration.qualifiedName) := by
  have hsame : ∀ x : Symbol, (x.declaration.qualifiedName = s.declaration.qualifiedName) =
      (components x.declaration.qualifiedName = components s.declaration.qualifiedName) := by
    intro x
    rw [components_injective.eq_iff]
  obtain ⟨hlower, ⟨hne, hcomponents⟩ | ⟨unit, hunit, hcomponents⟩⟩ := h.qualifiedName_of_mem hs hdot
  · simp only [hsame, hcomponents]
    refine iff_of_true hne ?_
    rw [Catalog.resolve_of_components hlib h.name.nonempty hlower hcomponents]
    simpa [hne] using h.resolveIn_unit s.declaration.name
  · have hresolve := Catalog.resolve_of_components hlib h.name.nonempty hlower hcomponents
    constructor
    · intro hne
      simp only [hsame, hcomponents]
      rw [hresolve]
      simpa [hunit.nonempty, hne] using h.resolveIn_member unit hdot
    · -- without a name at the end the unit is found, and the symbol is not among its namesakes
      intro hperm hempty
      have hmem : s ∈ c.resolve s.declaration.qualifiedName :=
        hperm.mem_iff.2 (List.mem_filter.2 ⟨hs, by simp⟩)
      have hparts : ([unit, s.declaration.name].filter fun part => !part.isEmpty) = [unit] := by
        simp [hunit.nonempty, hempty]
      rw [hresolve, hparts] at hmem
      have htwo := h.components_of_mem_resolveIn (by simpa using hunit.dotless) hmem
      rw [hcomponents] at htwo
      simp at htwo

end Library.Declared

/-- **Qualified names and other paths.**  Let scanned files be merged into an empty catalog, for
libraries whose names are not empty and have no dot; some of the files may be refused.

Let a symbol of a library have a name without a dot.  Then its qualified name stands for exactly the
symbols of that library that have the same one, each once, if and only if its name is not empty.  A
path in lower case that does not begin with the name of a library stands for what it stands for in
each library, by name.  And whatever a path stands for has a qualified name that ends with the
components of the path. -/
theorem resolve_qualified_names (files : List FileScan) (hfiles : ∀ file ∈ files, file.Placed) :
    let c := Catalog.ofFiles files
    (∀ name lib, c.get? name = some lib → ∀ s ∈ lib.symbols, '.' ∉ s.declaration.name.toList →
      (s.declaration.name ≠ "" ↔ (c.resolve s.declaration.qualifiedName).Perm
        (lib.symbols.filter fun x =>
          x.declaration.qualifiedName = s.declaration.qualifiedName))) ∧
    (∀ path, Config.lowerName path = path →
      (∀ first ∈ (Catalog.pathParts path).head?, c.contains first = false) →
      c.resolve path = c.libraryNames.flatMap fun name => c.resolve (name ++ "." ++ path)) ∧
    ∀ path, ∀ s ∈ c.resolve path,
      Catalog.pathParts path <:+ components s.declaration.qualifiedName := by
  intro c
  refine ⟨fun name lib hlib s hs hdot => ?_, fun path hpath hfirst => ?_, fun path s hs => ?_⟩
  · obtain ⟨rfl, hdeclared⟩ := Catalog.declared_of_get? hfiles hlib
    exact hdeclared.resolve_qualifiedName hlib hs hdot
  · rw [Catalog.resolve_of_not_library hfirst]
    refine List.flatMap_congr fun name hname => ?_
    obtain ⟨lib, hlib⟩ := Catalog.exists_get?_of_mem_libraryNames hname
    obtain ⟨rfl, hdeclared⟩ := Catalog.declared_of_get? hfiles hlib
    rw [Catalog.resolve, Catalog.pathParts_dot hdeclared.name (lowerName_eq_self_iff.1 hpath)]
    simp only [hlib, Option.toList_some, List.flatMap_singleton]
  · rw [Catalog.resolve] at hs
    have hdotless : ∀ part ∈ Catalog.pathParts path, '.' ∉ part.toList := fun part =>
      Catalog.dotless_of_mem_pathParts
    cases hparts : Catalog.pathParts path with
    | nil => exact List.nil_suffix
    | cons first rest =>
        rw [hparts] at hs hdotless
        cases hlib : c.get? first with
        | some lib =>
            obtain ⟨rfl, hdeclared⟩ := Catalog.declared_of_get? hfiles hlib
            simp only [hlib] at hs
            rw [hdeclared.components_of_mem_resolveIn
              (fun part hpart => hdotless part (List.mem_cons_of_mem _ hpart)) hs]
        | none =>
            simp only [hlib] at hs
            obtain ⟨lib, hmem, hs⟩ := List.mem_flatMap.1 hs
            obtain ⟨name, -, hlib⟩ := List.mem_filterMap.1 hmem
            have hdeclared := (Catalog.declared_of_get? hfiles hlib).2
            rw [hdeclared.components_of_mem_resolveIn hdotless hs]
            exact List.suffix_cons _ _

/-! ### Samples -/

/-- The file that a text is scanned to, when it is for a library. -/
def scanText (library text : String) : FileScan :=
  ((scanSource "p.vhd" library text.toUTF8.data.toList).result.toOption).getD ⟨"", "", []⟩

theorem placed_scanText {library text : String}
    (h : ((scanSource "p.vhd" library text.toUTF8.data.toList).result.toOption).isSome = true)
    (hne : (scanText library text).library ≠ "")
    (hdot : '.' ∉ (scanText library text).library.toList) : (scanText library text).Placed := by
  refine ⟨⟨"p.vhd", library, text.toUTF8.data.toList, ?_⟩, hne, hdot⟩
  cases hresult : (scanSource "p.vhd" library text.toUTF8.data.toList).result with
  | error e =>
      rw [hresult] at h
      cases h
  | ok file =>
      rw [scanText, hresult]
      rfl

/-- Two libraries with a package of the same name, one of which is not given in lower case. -/
theorem resolve_qualified_names_sample :
    let text := "package p is\n  constant c : t := 1;\nend p;\n"
    let c := Catalog.ofFiles [scanText "Work" text, scanText "ieee" text]
    (∃ lib, c.get? "work" = some lib ∧ ∃ s ∈ lib.symbols, s.declaration.name = "c" ∧
      s.declaration.qualifiedName = "work.p.c" ∧ (c.resolve "work.p.c").Perm
        (lib.symbols.filter fun x => x.declaration.qualifiedName = "work.p.c")) ∧
    c.resolve "p.c" = c.libraryNames.flatMap (fun name => c.resolve (name ++ "." ++ "p.c")) ∧
    ∀ s ∈ c.resolve "P..C", ["p", "c"] <:+ components s.declaration.qualifiedName := by
  intro text c
  have hplaced : ∀ file ∈ [scanText "Work" text, scanText "ieee" text], file.Placed :=
    List.forall_mem_cons.2 ⟨placed_scanText (by decide +kernel) (by decide +kernel)
      (by decide +kernel), List.forall_mem_singleton.2 (placed_scanText (by decide +kernel)
        (by decide +kernel) (by decide +kernel))⟩
  obtain ⟨hexact, hfans, hends⟩ := resolve_qualified_names _ hplaced
  have hsymbols : ((c.get? "work").map fun lib => lib.symbols.map fun s =>
      (s.declaration.name, s.declaration.qualifiedName)) =
        some [("p", "work.p"), ("c", "work.p.c")] := by
    decide +kernel
  refine ⟨?_, hfans "p.c" (by decide +kernel) (by decide +kernel), ?_⟩
  · obtain ⟨lib, hlib, hnames⟩ := Option.map_eq_some_iff.1 hsymbols
    have hmem : ("c", "work.p.c") ∈ lib.symbols.map fun s =>
        (s.declaration.name, s.declaration.qualifiedName) := by
      rw [hnames]
      simp
    obtain ⟨s, hs, heq⟩ := List.mem_map.1 hmem
    obtain ⟨hname, hqualified⟩ := Prod.mk.inj heq
    refine ⟨lib, hlib, s, hs, hname, hqualified, ?_⟩
    rw [← hqualified]
    exact (hexact "work" lib hlib s hs (by rw [hname]; decide)).1 (by rw [hname]; decide)
  · have hparts : Catalog.pathParts "P..C" = ["p", "c"] := by decide +kernel
    rw [← hparts]
    exact hends "P..C"

/-- **A member without a name** is not found by its qualified name: the operator between the quotes
is cut at its commas, and the path stands for the package. -/
theorem unnamed_member_not_resolved :
    let c := Catalog.ofFiles
      [scanText "work" "package p is\n  function \"a,,b\" return t;\nend p;\n"]
    ((c.get? "work").map fun lib => lib.symbols.map fun s => (s.declaration.name, s.describe)) =
      some [("p", "package work.p"), ("\"a", "function work.p.\"a"), ("", "function work.p."),
        ("b\"", "function work.p.b\"")] ∧
    (c.resolve "work.p.").map Symbol.describe = ["package work.p"] := by
  decide +kernel

end VhdlCatalog
