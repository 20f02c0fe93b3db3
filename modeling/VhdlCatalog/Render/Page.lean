import VhdlCatalog.Outline

/-!
**Pages.**

A page is fixed markup with values between.  Values are escaped when the page is written out, so
that nothing in a source can become markup.  The markup is that of two templates; the engine that
puts values into them, and escapes them automatically, is a library of its own, of which only this
behaviour is taken for granted.

Main definitions:

* `VhdlCatalog.Chunk`, `VhdlCatalog.Page` — the pieces of a page;
* `VhdlCatalog.Chunk.escape` — a value as it stands in a page;
* `VhdlCatalog.Page.render` — the written page;
* `VhdlCatalog.Page.catalog`, `VhdlCatalog.Page.symbol` — the two kinds of pages;
* `VhdlCatalog.Page.stripMarkers` — a comment block as plain text.
-/

set_option relaxedAutoImplicit false
set_option autoImplicit false

namespace VhdlCatalog

/-- A piece of a page. -/
inductive Chunk where
  /-- Fixed markup, written as it is. -/
  | markup (text : String)
  /-- A value, written escaped. -/
  | value (text : String)
  deriving DecidableEq, Repr

/-- A page, piece by piece. -/
abbrev Page := List Chunk

namespace Chunk

/-- One character of a value as it stands in a page.  This is what the automatic escaping of the
template engine is assumed to do: five characters are replaced, and all others are left as they
are. -/
def escapeChar (c : Char) : List Char :=
  if c = '&' then "&amp;".toList
  else if c = '<' then "&lt;".toList
  else if c = '>' then "&gt;".toList
  else if c = '\'' then "&#39;".toList
  else if c = '"' then "&#34;".toList
  else [c]

/-- A value as it stands in a page. -/
def escape (text : String) : String := String.ofList (text.toList.flatMap escapeChar)

/-- A piece as it stands in a page. -/
def render : Chunk → String
  | markup text => text
  | value text => escape text

end Chunk

namespace Page

/-- The written page. -/
def render (page : Page) : String := String.join (page.map Chunk.render)

/-! ### Frame -/

/-- What comes before the body of a page: the title, and the lines of the style sheet. -/
def head (title : String) (style : List String) : Page :=
  [.markup "<!DOCTYPE html>\n<html lang=\"en\">\n<head>\n<meta charset=\"utf-8\">\n<title>",
    .value title,
    .markup ("</title>\n<style>\n" ++ String.join (style.map fun rule => "  " ++ rule ++ "\n") ++
      "</style>\n</head>\n<body>\n")]

/-- What comes after the body of a page. -/
def foot : Page := [.markup "</body>\n</html>"]

/-! ### The catalog -/

/-- The style sheet of the catalog page. -/
def catalogStyle : List String :=
  ["body \x7b font-family: sans-serif; margin: 2em; \x7d",
    "h2 \x7b border-bottom: 1px solid #ccc; \x7d",
    ".kind \x7b color: #666; font-size: 0.9em; margin-right: 0.5em; \x7d",
    "ul.members \x7b margin-top: 0.2em; \x7d",
    ".summary \x7b font-family: monospace; color: #333; \x7d"]

/-- The entry of a member. -/
def memberEntry (category : Category) (name : String) : Page :=
  [.markup "        <li><span class=\"kind\">", .value category.kind.label,
    .markup "</span>", .value name, .markup "</li>\n"]

/-- The list of members of a unit; left out when there are none. -/
def memberList (members : List (Category × List String)) : Page :=
  if members.isEmpty then []
  else [.markup "      <ul class=\"members\">\n"] ++
    (members.flatMap fun entry => entry.2.flatMap (memberEntry entry.1)) ++
    [.markup "      </ul>\n"]

/-- The entry of a unit. -/
def unitEntry (u : UnitOutline) : Page :=
  let d := u.symbol.declaration
  [.markup "    <li class=\"unit\" id=\"", .value d.qualifiedName,
    .markup "\">\n      <span class=\"kind\">", .value u.symbol.kind.label,
    .markup "</span><strong>", .value d.name,
    .markup "</strong>\n      <span class=\"summary\">", .value d.filepath, .markup ":",
    .value (toString d.line), .markup "</span>\n"] ++
    memberList u.members ++ [.markup "    </li>\n"]

/-- The section of a library. -/
def librarySection (lib : LibraryOutline) : Page :=
  [.markup "<section class=\"library\" id=\"lib-", .value lib.name,
    .markup "\">\n  <h2>library ", .value lib.name,
    .markup "</h2>\n  <ul class=\"units\">\n"] ++
    lib.units.flatMap unitEntry ++ [.markup "  </ul>\n</section>\n"]

/-- The page of an outline. -/
def ofOutline (title : String) (libraries : List LibraryOutline) : Page :=
  head title catalogStyle ++ [.markup "<h1>", .value title, .markup "</h1>\n"] ++
    (if libraries.isEmpty then [.markup "<p class=\"empty\">No symbols found</p>\n"]
      else libraries.flatMap librarySection) ++ foot

/-- The page of a catalog. -/
def catalog (title : String) (c : Catalog) : Page := ofOutline title c.outline

/-! ### One symbol -/

/-- The style sheet of the page of a symbol. -/
def symbolStyle : List String :=
  ["body \x7b font-family: sans-serif; margin: 2em; \x7d",
    ".doc \x7b white-space: pre-wrap; \x7d",
    "pre.code \x7b background: #f6f8fa; padding: 1em; \x7d"]

/-- A line of a comment block without white space around it and without the `--`, which may have
one space after it. -/
def stripMarker (line : List Char) : List Char :=
  match Text.strip line with
  | '-' :: '-' :: ' ' :: text => text
  | '-' :: '-' :: text => text
  | text => text

/-- A comment block as plain text. -/
def stripMarkers (doc : List Char) : List Char :=
  Text.join ['\n'] ((Text.lines doc).map stripMarker)

/-- The page of a symbol with its documentation and code as plain text. -/
def ofExcerpt (s : Symbol) (doc code : String) : Page :=
  let d := s.declaration
  head d.qualifiedName symbolStyle ++
    [.markup "<h1><span class=\"kind\">", .value s.kind.label, .markup "</span> ",
      .value d.qualifiedName, .markup "</h1>\n<p class=\"location\">", .value d.filepath,
      .markup ":", .value (toString d.line), .markup "</p>\n"] ++
    (if doc.isEmpty then []
      else [.markup "<div class=\"doc\">", .value doc, .markup "</div>\n"]) ++
    [.markup "<pre class=\"code\">", .value code, .markup "</pre>\n"] ++ foot

/-- The page of a symbol, out of the contents of its file. -/
def symbol (s : Symbol) (source : Bytes) : Page :=
  let (doc, code) := s.excerpt source
  ofExcerpt s (String.ofList (stripMarkers doc)) (String.ofList (Text.trimEnd (· == '\n') code))

end Page

end VhdlCatalog
