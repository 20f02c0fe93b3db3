import VhdlCatalog.Outline
import VhdlCatalog.Render.Emphasis

/-!
**Plain text output.**

Main definitions:

* `VhdlCatalog.PlainStyle` — how plain text is laid out;
* `VhdlCatalog.PlainStyle.catalogLines`, `VhdlCatalog.PlainStyle.renderCatalog` — the catalog as an
  indented tree;
* `VhdlCatalog.PlainStyle.renderSymbol` — a symbol as source text.
-/

set_option relaxedAutoImplicit false
set_option autoImplicit false

namespace VhdlCatalog

/-- How plain text is laid out. -/
structure PlainStyle where
  /-- Keywords are set in bold. -/
  bold : Bool
  /-- Spaces per level of the tree; none if negative. -/
  indent : Int
  deriving DecidableEq, Repr

namespace PlainStyle

/-- The style when nothing else is said. -/
def standard : PlainStyle := ⟨true, 2⟩

/-- The white space before an entry at a level of the tree. -/
def margin (style : PlainStyle) (level : Nat) : String :=
  String.ofList (List.replicate (level * style.indent.toNat) ' ')

/-- The lines for a unit and its members. -/
def unitLines (style : PlainStyle) (u : UnitOutline) : List String :=
  (style.margin 1 ++ u.symbol.kind.label ++ " " ++ u.symbol.declaration.name) ::
    u.members.flatMap fun entry =>
      entry.2.map fun name => style.margin 2 ++ entry.1.kind.label ++ " " ++ name

/-- The lines for a library. -/
def libraryLines (style : PlainStyle) (lib : LibraryOutline) : List String :=
  ("library " ++ lib.name) :: lib.units.flatMap style.unitLines

/-- The lines for a catalog. -/
def catalogLines (style : PlainStyle) (c : Catalog) : List String :=
  c.outline.flatMap style.libraryLines

/-- The catalog as an indented tree. -/
def renderCatalog (style : PlainStyle) (c : Catalog) : String :=
  "\n".intercalate (style.catalogLines c)

/-- The documentation and code of a symbol, out of the contents of its file. -/
def renderSymbol (style : PlainStyle) (s : Symbol) (source : Bytes) : String :=
  let (doc, code) := s.excerpt source
  let code := if style.bold then Emphasis.emphasize code else code
  String.ofList (Text.trimEnd (· == '\n') (doc ++ code))

end PlainStyle

end VhdlCatalog
