import VhdlCatalog.Symbol

/-!
**Libraries.**

A library is a named group of units.

Main definitions:

* `VhdlCatalog.Library` — the entities and packages of a library;
* `VhdlCatalog.Library.add` — one more unit;
* `VhdlCatalog.Library.addAll` — several units, all of them or none;
* `VhdlCatalog.Library.units` — the units in the order in which they are shown.
-/

set_option relaxedAutoImplicit false
set_option autoImplicit false

namespace VhdlCatalog

/-- A named group of entities and packages. -/
structure Library where
  /-- The name. -/
  name : String
  /-- The entities. -/
  entities : Table SymbolId Declaration
  /-- The packages. -/
  packages : Table SymbolId Package

namespace Library

/-- A library without units. -/
def ofName (name : String) : Library := ⟨name, .empty, .empty⟩

/-- The refusal of a unit whose name and line are taken. -/
def taken (lib : Library) (d : Declaration) : Error :=
  .duplicate d.filepath d.name d.line lib.name

/-- The library with one more unit.  Refused when a unit of its kind has the same name and line,
and when the symbol is not a unit. -/
def add (lib : Library) : Symbol → Except Error Library
  | .entity d =>
      if lib.entities.contains d.id then .error (lib.taken d)
      else .ok { lib with entities := lib.entities.push d.id d }
  | .package p =>
      if lib.packages.contains p.declaration.id then .error (lib.taken p.declaration)
      else .ok { lib with packages := lib.packages.push p.declaration.id p }
  | .member m => .error (.notAUnit m.category.kind)

/-- The library with several more units, or the first refusal.  Nothing is added to the library
itself before all of them are taken; `Library.addOnCopy` says how. -/
def addAll (lib : Library) (symbols : List Symbol) : Except Error Library :=
  symbols.foldlM add lib

/-- The units, entities first. -/
def contents (lib : Library) : List (SymbolId × Symbol) :=
  lib.entities.entries.map (fun e => (e.1, Symbol.entity e.2)) ++
    lib.packages.entries.map (fun e => (e.1, Symbol.package e.2))

/-- The units with a given name, by line. -/
def named (lib : Library) (name : String) : List Symbol :=
  ((lib.contents.filter fun e => e.1.name = name).map Prod.snd).mergeSort
    fun a b => a.declaration.lineLe b.declaration

/-- The names of the entities, in ascending order. -/
def entityNames (lib : Library) : List String :=
  sortNames (lib.entities.keys.map SymbolId.name)

/-- The names of the packages, in ascending order. -/
def packageNames (lib : Library) : List String :=
  sortNames (lib.packages.keys.map SymbolId.name)

/-- The order in which units are shown: by name, line, kind and file. -/
def unitLe (a b : Symbol) : Bool :=
  let (da, db) := (a.declaration, b.declaration)
  if da.name ≠ db.name then decide (da.name < db.name)
  else if da.line ≠ db.line then decide (da.line < db.line)
  else if a.kind ≠ b.kind then decide (a.kind.label < b.kind.label)
  else decide (da.filepath ≤ db.filepath)

/-- The units in the order in which they are shown. -/
def units (lib : Library) : List Symbol := (lib.contents.map Prod.snd).mergeSort unitLe

/-- The library in words. -/
def describe (lib : Library) : String := "library " ++ lib.name

end Library

end VhdlCatalog
