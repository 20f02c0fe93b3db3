import VhdlCatalog.Text.Case
import VhdlCatalog.Source.Line
import VhdlCatalog.Source.Token

/-!
**Code lines and the comments above them.**

A cursor walks the lines of a source.  Blank lines and comment lines are passed over; a run of
comment lines directly above a code line is the documentation of that line.  The walk stops at the
first package body or architecture, because what follows only implements what has been declared.

Main definitions:

* `VhdlCatalog.Source.CodeLine` — a code line with its offsets and those of its documentation;
* `VhdlCatalog.Source.Cursor` — how far the walk has come;
* `VhdlCatalog.Source.Cursor.visit` — one line;
* `VhdlCatalog.Source.Cursor.advance` — up to the next code line;
* `VhdlCatalog.Source.codeLines` — all code lines up to the first body.
-/

set_option relaxedAutoImplicit false
set_option autoImplicit false

namespace VhdlCatalog.Source

/-! ### Kinds of lines -/

/-- What a line is, to one who looks for declarations. -/
inductive LineKind where
  /-- Only white space. -/
  | blank
  /-- A comment and nothing else. -/
  | comment
  /-- The first line of a package body or of an architecture. -/
  | body
  /-- Anything else. -/
  | code
  deriving DecidableEq, Repr

/-- The line begins, after white space, with `--`. -/
def isCommentLine (line : List Char) : Bool :=
  (Text.afterLiteral? ['-', '-'] (Text.skipBlanks line)).isSome

/-- The line begins a package body. -/
def opensPackageBody (line : List Char) : Bool :=
  Option.isSome do
    let cs ← Token.keyword? "package" line
    let cs ← Token.keyword? "body" cs
    let (_, cs) ← Token.identifier? cs
    Token.keyword? "is" cs

/-- The line begins an architecture. -/
def opensArchitecture (line : List Char) : Bool :=
  Option.isSome do
    let cs ← Token.keyword? "architecture" line
    let (_, cs) ← Token.identifier? cs
    let cs ← Token.keyword? "of" cs
    let (_, cs) ← Token.identifier? cs
    Token.keyword? "is" cs

/-- The kind of a lower-cased line. -/
def lineKind (line : List Char) : LineKind :=
  if line.all isBlank then .blank
  else if isCommentLine line then .comment
  else if opensPackageBody line || opensArchitecture line then .body
  else .code

/-! ### Code lines -/

/-- A code line. -/
structure CodeLine where
  /-- Number of the line, counted from one. -/
  number : Nat
  /-- Offset of the first byte of the line. -/
  start : Nat
  /-- Offset just past the terminator of the line. -/
  stop : Nat
  /-- Offset of the first byte of its documentation. -/
  docStart : Nat
  /-- Offset just past its documentation. -/
  docStop : Nat
  /-- The line as written, without its terminator. -/
  text : List Char
  deriving DecidableEq, Repr

namespace CodeLine

/-- The lower-cased line. -/
def line (l : CodeLine) : List Char := Text.lower l.text

/-- The lower-cased line without its comment. -/
def code (l : CodeLine) : List Char := stripComment l.line

/-- The line as written, without its comment and with single spaces. -/
def signature (l : CodeLine) : List Char := collapse (stripComment l.text)

end CodeLine

/-! ### The cursor -/

/-- A run of comment lines. -/
structure CommentRun where
  /-- The last line seen belongs to the run. -/
  active : Bool
  /-- Offset of the first byte of the run. -/
  start : Nat
  /-- Offset just past the run. -/
  stop : Nat
  deriving DecidableEq, Repr

/-- How far the walk over a source has come. -/
structure Cursor where
  /-- Number of the last line seen. -/
  number : Nat
  /-- Offset of its first byte. -/
  start : Nat
  /-- Offset just past its terminator. -/
  stop : Nat
  /-- The last run of comment lines. -/
  run : CommentRun
  deriving DecidableEq, Repr

/-- What one line brings. -/
inductive Sighting where
  /-- A blank or comment line. -/
  | passed
  /-- A body begins. -/
  | body
  /-- A code line. -/
  | code (line : CodeLine)
  deriving DecidableEq, Repr

namespace Cursor

/-- Before the first line. -/
def atStart : Cursor := ⟨0, 0, 0, ⟨false, 0, 0⟩⟩

/-- The cursor on the next line, which has the bytes `raw`. -/
def onto (c : Cursor) (raw : Bytes) : Cursor :=
  { c with number := c.number + 1, start := c.stop, stop := c.stop + raw.length }

/-- The code line the cursor stands on, when its text is `text`. -/
def codeLine (c : Cursor) (text : List Char) : CodeLine where
  number := c.number
  start := c.start
  stop := c.stop
  docStart := if c.run.active then c.run.start else c.start
  docStop := if c.run.active then c.run.stop else c.start
  text := text

/-- The cursor after a comment line it stands on: the run goes on, or begins here. -/
def extendRun (c : Cursor) : Cursor :=
  { c with run := ⟨true, if c.run.active then c.run.start else c.start, c.stop⟩ }

/-- The cursor after a line that ends a run. -/
def endRun (c : Cursor) : Cursor := { c with run := { c.run with active := false } }

/-- Looks at one line. -/
def visit (c : Cursor) (raw : Bytes) : Cursor × Sighting :=
  let here := c.onto raw
  let text := lineText raw
  match lineKind (Text.lower text) with
  | .blank => (here.endRun, .passed)
  | .comment => (here.extendRun, .passed)
  | .body => (here, .body)
  | .code => (here.endRun, .code (here.codeLine text))

/-- Walks on to the next code line.  Returns the cursor, the lines not yet seen, and the code line;
there is none when the lines run out or a body begins. -/
def advance (c : Cursor) : List Bytes → Cursor × List Bytes × Option CodeLine
  | [] => (c, [], none)
  | raw :: rest =>
      match c.visit raw with
      | (c', .passed) => c'.advance rest
      | (c', .body) => (c', rest, none)
      | (c', .code line) => (c', rest, some line)

/-- The code lines up to the end or the first body. -/
def codeLines (c : Cursor) : List Bytes → List CodeLine
  | [] => []
  | raw :: rest =>
      match c.visit raw with
      | (c', .passed) => c'.codeLines rest
      | (_, .body) => []
      | (c', .code line) => line :: c'.codeLines rest

end Cursor

/-- The code lines of a source up to its end or its first body. -/
def codeLines (data : Bytes) : List CodeLine := Cursor.atStart.codeLines (lines data)

end VhdlCatalog.Source
