import VhdlCatalog.Catalog

/-!
**The outline of a catalog.**

The outline lists libraries, units and member names in the order in which they are shown, and
nothing else.  All output formats walk it.

Main definitions:

* `VhdlCatalog.UnitOutline`, `VhdlCatalog.LibraryOutline` — a unit, and a library;
* `VhdlCatalog.Catalog.outline` — the outline of a catalog.
-/

set_option relaxedAutoImplicit false
set_option autoImplicit false

namespace VhdlCatalog

/-- A unit, and the names of its members by category. -/
structure UnitOutline where
  /-- The unit. -/
  symbol : Symbol
  /-- The categories that have members, each with their names. -/
  members : List (Category × List String)

/-- A library and its units. -/
structure LibraryOutline where
  /-- Name of the library. -/
  name : String
  /-- Its units. -/
  units : List UnitOutline

namespace Symbol

/-- The names of the members of a unit by category, without the categories that have none. -/
def memberNames : Symbol → List (Category × List String)
  | package p =>
      (Category.all.map fun c => (c, p.names c)).filter fun entry => !entry.2.isEmpty
  | _ => []

end Symbol

namespace Catalog

/-- Libraries, units and member names in the order in which they are shown. -/
def outline (c : Catalog) : List LibraryOutline :=
  c.sorted.map fun lib => ⟨lib.name, lib.units.map fun s => ⟨s, s.memberNames⟩⟩

end Catalog

end VhdlCatalog
