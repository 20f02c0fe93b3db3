import VhdlCatalog.Library
import VhdlCatalog.Text.Case

/-!
**The catalog.**

A catalog groups the symbols of many files by library.  Symbols are looked up by a dotted path.

Main definitions:

* `VhdlCatalog.Catalog` — libraries by name;
* `VhdlCatalog.Catalog.ensure` — the library of a name, made on first mention;
* `VhdlCatalog.Catalog.addSymbol`, `VhdlCatalog.Catalog.addSymbols` — more units for a library;
* `VhdlCatalog.Catalog.resolve` — the symbols a path stands for;
* `VhdlCatalog.Catalog.identities` — library, qualified name and line of every symbol.
-/

set_option relaxedAutoImplicit false
set_option autoImplicit false

namespace VhdlCatalog

/-- The libraries of one build, by name. -/
structure Catalog where
  /-- The libraries, oldest first. -/
  libraries : Table String Library

/-- Library, qualified name and line of a symbol. -/
structure Identity where
  /-- Name of the library. -/
  library : String
  /-- Qualified name of the symbol. -/
  qualifiedName : String
  /-- Line of its declaration. -/
  line : Int
  deriving DecidableEq, Repr

namespace Identity

/-- The order by library, qualified name and line. -/
def le (a b : Identity) : Bool :=
  if a.library ≠ b.library then decide (a.library < b.library)
  else if a.qualifiedName ≠ b.qualifiedName then decide (a.qualifiedName < b.qualifiedName)
  else decide (a.line ≤ b.line)

end Identity

namespace Catalog

/-- No libraries. -/
def empty : Catalog := ⟨.empty⟩

/-! ### Filling -/

/-- The library of a name, or a new one. -/
def libraryOrNew (c : Catalog) (name : String) : Library :=
  (c.libraries.get? name).getD (Library.ofName name)

/-- The catalog with a library of that name, made if there was none. -/
def ensure (c : Catalog) (name : String) : Catalog :=
  if c.libraries.contains name then c else ⟨c.libraries.push name (Library.ofName name)⟩

/-- Changes the library of a name, which is made first if there is none.  When the change is
refused the library keeps its units; `Catalog.addInPlace` does the same on the library that is
there. -/
def update (c : Catalog) (name : String) (change : Library → Except Error Library) :
    Catalog × Option Error :=
  match change (c.libraryOrNew name) with
  | .ok lib => (⟨c.libraries.put name lib⟩, none)
  | .error e => (c.ensure name, some e)

/-- Adds one symbol to a library. -/
def addSymbol (c : Catalog) (library : String) (s : Symbol) : Catalog × Option Error :=
  c.update library fun lib => lib.add s

/-- Adds several symbols to a library, all of them or none. -/
def addSymbols (c : Catalog) (library : String) (symbols : List Symbol) :
    Catalog × Option Error :=
  c.update library fun lib => lib.addAll symbols

/-! ### Looking up -/

/-- The library of a name. -/
def get? (c : Catalog) (name : String) : Option Library := c.libraries.get? name

/-- There is a library of that name. -/
def contains (c : Catalog) (name : String) : Bool := c.libraries.contains name

/-- The number of libraries. -/
def size (c : Catalog) : Nat := c.libraries.size

/-- The names of the libraries, in ascending order. -/
def libraryNames (c : Catalog) : List String := sortNames c.libraries.keys

/-- The libraries by name. -/
def sorted (c : Catalog) : List Library := c.libraryNames.filterMap c.get?

/-- The components of a dotted path, lower-cased; empty ones are left out. -/
def pathParts (path : String) : List String :=
  ((Text.pieces (· == '.') (Text.lower path.toList)).filter fun part => !part.isEmpty).map
    String.ofList

/-- The symbols in a library that one or two components stand for: a unit, or a unit and one of
its members. -/
def resolveIn (lib : Library) : List String → List Symbol
  | [unit] => lib.named unit
  | [unit, name] =>
      (lib.named unit).flatMap fun s =>
        match s with
        | .package p => (p.named name).map Symbol.member
        | _ => []
  | _ => []

/-- The symbols that a path stands for.  A first component that names a library selects it;
otherwise every library is searched. -/
def resolve (c : Catalog) (path : String) : List Symbol :=
  match pathParts path with
  | [] => []
  | first :: rest =>
      match c.get? first with
      | some lib => resolveIn lib rest
      | none => c.sorted.flatMap fun lib => resolveIn lib (first :: rest)

/-- The identities of the symbols in a unit of the library called `library`. -/
def unitIdentities (library : String) (s : Symbol) : List Identity :=
  let identity (d : Declaration) : Identity := ⟨library, d.qualifiedName, d.line⟩
  identity s.declaration ::
    match s with
    | .package p => p.entries.map fun e => identity e.2.declaration
    | _ => []

/-- Library, qualified name and line of every symbol, each once, in ascending order. -/
def identities (c : Catalog) : List Identity :=
  ((c.sorted.flatMap fun lib => lib.units.flatMap (unitIdentities lib.name)).eraseDups).mergeSort
    Identity.le

end Catalog

end VhdlCatalog
