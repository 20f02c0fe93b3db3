import VhdlCatalog.Construct
import VhdlCatalog.Source.Line

/-!
**Declarations.**

A declaration does not hold its text.  It records the file it stands in and two ranges of bytes:
that of the comment block above it and that of the declaration itself.

Main definitions:

* `VhdlCatalog.SymbolId` — name and line, by which containers tell symbols apart;
* `VhdlCatalog.Declaration` — what all symbols have in common;
* `VhdlCatalog.Declaration.doc`, `VhdlCatalog.Declaration.code` — the two excerpts of the source.
-/

set_option relaxedAutoImplicit false
set_option autoImplicit false

namespace VhdlCatalog

/-- Name and line of a symbol. -/
structure SymbolId where
  /-- The declared name. -/
  name : String
  /-- The line it is declared on. -/
  line : Int
  deriving DecidableEq, Repr

namespace SymbolId

/-- The order by name, then line. -/
def le (a b : SymbolId) : Bool :=
  decide (a.name < b.name) || (decide (a.name = b.name) && decide (a.line ≤ b.line))

end SymbolId

/-- Names in ascending order. -/
def sortNames (names : List String) : List String := names.mergeSort fun a b => decide (a ≤ b)

/-- What all symbols have in common. -/
structure Declaration where
  /-- The file the declaration stands in. -/
  filepath : String
  /-- The declared name. -/
  name : String
  /-- Number of the opening line. -/
  line : Int
  /-- Qualified name of the library or package around it. -/
  scope : String
  /-- Offset of the first byte of the documentation. -/
  docStart : Int
  /-- Offset just past the documentation. -/
  docStop : Int
  /-- Offset of the first byte of the declaration. -/
  codeStart : Int
  /-- Offset just past the declaration. -/
  codeStop : Int
  /-- The opening line as written, without comment and with single spaces. -/
  signature : String
  /-- The whole declaration on one line, for subprograms. -/
  summary : String
  deriving DecidableEq, Repr

namespace Declaration

/-- The key of the declaration in a container. -/
def id (d : Declaration) : SymbolId := ⟨d.name, d.line⟩

/-- The name with the scope before it. -/
def qualifiedName (d : Declaration) : String :=
  if d.scope.isEmpty then d.name else d.scope ++ "." ++ d.name

/-- There is a comment block above the declaration. -/
def hasDoc (d : Declaration) : Bool := decide (d.docStart < d.docStop)

/-- The comment block above the declaration, out of the contents of its file. -/
def doc (d : Declaration) (source : Bytes) : List Char :=
  Utf8.decode (Source.slice source d.docStart d.docStop)

/-- The declaration itself, out of the contents of its file. -/
def code (d : Declaration) (source : Bytes) : List Char :=
  Utf8.decode (Source.slice source d.codeStart d.codeStop)

/-- One line for the declaration: the summary, else the signature, else kind and name. -/
def headline (kind : Kind) (d : Declaration) : String :=
  if !d.summary.isEmpty then d.summary
  else if !d.signature.isEmpty then d.signature
  else kind.label ++ " " ++ d.name

/-- The order by line, then file. -/
def lineLe (a b : Declaration) : Bool :=
  decide (a.line < b.line) || (decide (a.line = b.line) && decide (a.filepath ≤ b.filepath))

end Declaration

end VhdlCatalog
