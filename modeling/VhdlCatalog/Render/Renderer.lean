import VhdlCatalog.Registry
import VhdlCatalog.Render.Page
import VhdlCatalog.Render.Plain

/-!
**Output formats.**

Main definitions:

* `VhdlCatalog.Format` — the output formats;
* `VhdlCatalog.formats` — the formats by name;
* `VhdlCatalog.RenderOption`, `VhdlCatalog.Renderer` — options, and a format with its options;
* `VhdlCatalog.Renderer.create` — the renderer for a name and options;
* `VhdlCatalog.Renderer.renderCatalog`, `VhdlCatalog.Renderer.renderSymbol` — what is written.
-/

set_option relaxedAutoImplicit false
set_option autoImplicit false

namespace VhdlCatalog

/-- The output formats. -/
inductive Format where
  | text
  | html
  deriving DecidableEq, Repr

/-- The formats by name. -/
def formats : Registry Format := ⟨"renderer", ⟨[("text", .text), ("html", .html)]⟩⟩

/-- An option of an output format. -/
inductive RenderOption where
  /-- Keywords are set in bold, or not. -/
  | bold (on : Bool)
  /-- Spaces per level of the tree. -/
  | indent (spaces : Int)
  /-- The title of the catalog page. -/
  | title (text : String)
  deriving DecidableEq, Repr

/-- Why there is no renderer for a name and options. -/
inductive RendererError where
  /-- There is no such format. -/
  | registry (error : RegistryError)
  /-- The format has no option of that name. -/
  | unexpected (format : Format) (option : String)
  /-- The number of spaces is beyond the numbers that lengths can be. -/
  | indentOutOfRange
  /-- The number of spaces is more than memory can hold. -/
  | indentTooLong
  deriving DecidableEq, Repr

namespace RenderOption

/-- The name of an option. -/
def name : RenderOption → String
  | bold _ => "bold"
  | indent _ => "indent"
  | title _ => "title"

/-- The format has the option. -/
def allowedIn (format : Format) : RenderOption → Bool
  | bold _ | indent _ => format = .text
  | title _ => format = .html

end RenderOption

namespace RendererError

/-- What writes a format, as it is called in messages. -/
def writer : Format → String
  | .text => "TextRenderer"
  | .html => "HtmlRenderer"

/-- The reason in words. -/
def message : RendererError → String
  | registry error => error.message
  | unexpected format option =>
      writer format ++ ".__init__() got an unexpected keyword argument '" ++ option ++ "'"
  | indentOutOfRange => "cannot fit 'int' into an index-sized integer"
  | indentTooLong => ""

end RendererError

/-- A format with its options. -/
inductive Renderer where
  /-- Plain text. -/
  | plain (style : PlainStyle)
  /-- Pages; the catalog page has the given title. -/
  | pages (title : String)
  deriving DecidableEq, Repr

namespace Renderer

/-- The title of the catalog page when nothing else is said. -/
def standardTitle : String := "VHDL symbol catalog"

/-- The renderer of a format, with the given style for plain text and title for pages. -/
def ofFormat (style : PlainStyle) (title : String) : Format → Renderer
  | .text => plain style
  | .html => pages title

/-- Lengths are below this, and not below its negative. -/
def lengthLimit : Int := 0x8000000000000000

/-- A margin has at most this many spaces. -/
def marginLimit : Int := 0x1000000000

/-- Checks the number of spaces per level of the tree. -/
def checkIndent (spaces : Int) : Except RendererError Unit :=
  if spaces < -lengthLimit ∨ lengthLimit ≤ spaces then .error .indentOutOfRange
  else if marginLimit < spaces then .error .indentTooLong
  else .ok ()

/-- The style of plain text with one more option. -/
def restyle (style : PlainStyle) : RenderOption → PlainStyle
  | .bold on => { style with bold := on }
  | .indent spaces => { style with indent := spaces }
  | .title _ => style

/-- The title of the catalog page with one more option. -/
def retitle (title : String) : RenderOption → String
  | .title text => text
  | .bold _ | .indent _ => title

/-- The renderer of a format with options. -/
def configure (format : Format) (options : List RenderOption) : Except RendererError Renderer :=
  match options.find? fun o => !RenderOption.allowedIn format o with
  | some o => .error (.unexpected format o.name)
  | none =>
      let style := options.foldl restyle .standard
      (checkIndent style.indent).map fun _ =>
        ofFormat style (options.foldl retitle standardTitle) format

/-- The renderer of the format with the given name. -/
def create (name : String) (options : List RenderOption) : Except RendererError Renderer :=
  match formats.create name (options.map RenderOption.name) id with
  | .ok format => configure format options
  | .error e => .error (.registry e)

/-- The overview of a catalog. -/
def renderCatalog (r : Renderer) (c : Catalog) : String :=
  match r with
  | plain style => style.renderCatalog c
  | pages title => (Page.catalog title c).render

/-- The documentation and code of a symbol, out of the contents of its file. -/
def renderSymbol (r : Renderer) (s : Symbol) (source : Bytes) : String :=
  match r with
  | plain style => style.renderSymbol s source
  | pages _ => (Page.symbol s source).render

end Renderer

end VhdlCatalog
