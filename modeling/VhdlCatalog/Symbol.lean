import VhdlCatalog.Package

/-!
**Symbols.**

A symbol is a library unit, that is an entity or a package, or a member of a package.

Main definitions:

* `VhdlCatalog.Symbol` — the symbols of a catalog;
* `VhdlCatalog.Package.add` — adding any symbol to a package;
* `VhdlCatalog.Symbol.excerpt` — documentation and code of a symbol.
-/

set_option relaxedAutoImplicit false
set_option autoImplicit false

namespace VhdlCatalog

/-- A symbol of a catalog. -/
inductive Symbol where
  /-- An entity. -/
  | entity (declaration : Declaration)
  /-- A package with its members. -/
  | package (package : Package)
  /-- A member of a package. -/
  | member (member : Member)

namespace Symbol

/-- The declaration of a symbol. -/
def declaration : Symbol → Declaration
  | entity d => d
  | package p => p.declaration
  | member m => m.declaration

/-- The kind of a symbol. -/
def kind : Symbol → Kind
  | entity _ => .entity
  | package _ => .package
  | member m => m.category.kind

/-- The symbol in words: kind and qualified name. -/
def describe (s : Symbol) : String := s.kind.label ++ " " ++ s.declaration.qualifiedName

/-- One line for the symbol. -/
def headline (s : Symbol) : String := s.declaration.headline s.kind

/-- The documentation of the symbol, out of the contents of its file. -/
def doc (s : Symbol) (source : Bytes) : List Char := s.declaration.doc source

/-- The code of the symbol, out of the contents of its file; for a package its summary. -/
def code (s : Symbol) (source : Bytes) : List Char :=
  match s with
  | package p => p.codeSummary.toList
  | _ => s.declaration.code source

/-- Documentation and code. -/
def excerpt (s : Symbol) (source : Bytes) : List Char × List Char := (s.doc source, s.code source)

end Symbol

namespace Package

/-- The package with one more symbol, which has to be a member. -/
def add (p : Package) : Symbol → Except Error Package
  | .member m => p.addMember m
  | s => .error (.notAMember s.kind p.declaration.name)

end Package

end VhdlCatalog
