import VhdlCatalog.Scan.Closing
import VhdlCatalog.Scan.Log
import VhdlCatalog.Scan.Opening
import VhdlCatalog.Symbol

/-!
**Scanning a file.**

The declarations of a file are collected in one pass over its code lines.  The pass is always in
one of a few phases: outside every unit, inside an entity, inside a package, or inside a member of
a package.  A file whose input ends inside a declaration is given up as a whole.

Main definitions:

* `VhdlCatalog.joinLines` — the lines of a declaration on one line;
* `VhdlCatalog.FileScan` — the units of a file;
* `VhdlCatalog.Scan.Phase`, `VhdlCatalog.Scan.Progress` — how far the pass has come;
* `VhdlCatalog.Scan.step` — one code line;
* `VhdlCatalog.scanSource` — the whole pass.

Main results:

* `VhdlCatalog.Scan.run_append` — a pass over two stretches of lines is one pass after the other.
-/

set_option relaxedAutoImplicit false
set_option autoImplicit false

namespace VhdlCatalog

open Source

/-! ### One-line summaries -/

/-- Leaves out the white space after every `mark`; `skipping` when one has just been read. -/
def dropBlanksAfter (mark : Char) (skipping : Bool) : List Char → List Char
  | [] => []
  | c :: cs =>
      if skipping && isBlank c then dropBlanksAfter mark true cs
      else c :: dropBlanksAfter mark (c == mark) cs

/-- The parts on one line with single spaces between them, tight against parentheses. -/
def joinLines (parts : List (List Char)) : List Char :=
  let text := Text.join [' '] (parts.filter fun part => !part.isEmpty)
  (dropBlanksAfter ')' false (dropBlanksAfter '(' false text).reverse).reverse

/-! ### What a scan yields -/

/-- The units of one file. -/
structure FileScan where
  /-- The file. -/
  filepath : String
  /-- The library its units belong to. -/
  library : String
  /-- The units in source order. -/
  units : List Symbol

namespace Scan

/-- A member that has been opened and not yet closed. -/
structure OpenMember where
  /-- What its opening line declares. -/
  opening : Opening MemberForm
  /-- Its opening line. -/
  first : CodeLine
  /-- Depth of parentheses after the last line. -/
  depth : Int
  /-- Its lines so far, on one line each. -/
  parts : List (List Char)
  deriving DecidableEq, Repr

/-- Where the pass stands. -/
inductive Phase where
  /-- Outside every unit. -/
  | outside
  /-- In the entity called `name` that begins on the line `first`. -/
  | inEntity (name : List Char) (first : CodeLine)
  /-- In a package, between its members. -/
  | inPackage (package : Package)
  /-- In a member of a package. -/
  | inMember (package : Package) (member : OpenMember)
  /-- The file has been given up. -/
  | failed (error : Error)

/-- How far the pass has come. -/
structure Progress where
  /-- The units read to their end. -/
  units : List Symbol
  /-- What has been reported. -/
  log : List Event
  /-- Where the pass stands. -/
  phase : Phase

/-- The file that is scanned and the library it belongs to. -/
structure Target where
  /-- The file. -/
  filepath : String
  /-- The library, in lower case. -/
  library : String

/-! ### Declarations -/

/-- The declaration of `name` that opens on `first` and ends at the offset `stop`. -/
def declare (t : Target) (scope : String) (name : List Char) (first : CodeLine) (stop : Nat)
    (summary : List Char) : Declaration where
  filepath := t.filepath
  name := String.ofList name
  line := first.number
  scope := scope
  docStart := first.docStart
  docStop := first.docStop
  codeStart := first.start
  codeStop := stop
  signature := String.ofList first.signature
  summary := String.ofList summary

/-- The report of a declaration read to its end. -/
def declaredEvent (construct : Construct) (d : Declaration) : Event :=
  .declared d.filepath d.line construct d.qualifiedName

namespace OpenMember

/-- A member that opens on the line `first`, which has yet to be looked at. -/
def begin (opening : Opening MemberForm) (first : CodeLine) : OpenMember := ⟨opening, first, 0, []⟩

/-- Looks at a line of the member: whether it closes it, and the member after it. -/
def feed (m : OpenMember) (l : CodeLine) : Bool × OpenMember :=
  let (closed, depth) := (Construct.member m.opening.form).closing m.opening.name m.depth l
  (closed, { m with depth := depth, parts := m.parts ++ [l.signature] })

/-- The members declared, once the member has been closed at the offset `stop`. -/
def members (m : OpenMember) (t : Target) (scope : String) (stop : Nat) : List Member :=
  let form := m.opening.form
  let summary := if form.isSubprogram then joinLines m.parts else []
  let d := declare t scope m.opening.name m.first stop summary
  m.opening.names.map fun name =>
    ⟨form.category, { d with name := String.ofList name }, form.typeForm⟩

end OpenMember

/-! ### The pass -/

/-- Before the first line. -/
def Progress.start : Progress := ⟨[], [], .outside⟩

/-- A line of an open member of the package. -/
def memberLine (t : Target) (s : Progress) (p : Package) (m : OpenMember) (l : CodeLine) :
    Progress :=
  match m.feed l with
  | (false, m') => { s with phase := .inMember p m' }
  | (true, m') =>
      let members := m'.members t p.declaration.qualifiedName l.stop
      let log := s.log ++ members.map fun member =>
        declaredEvent (.member m'.opening.form) member.declaration
      match members.foldlM Package.addMember p with
      | .ok p' => { s with log := log, phase := .inPackage p' }
      | .error e => { s with log := log, phase := .failed e }

/-- A line between the members of a package, which opens no member. -/
def packageLine (s : Progress) (p : Package) (l : CodeLine) : Progress :=
  if ((Construct.unit .package).closing p.declaration.name.toList 0 l).1 then
    let closed := { p with declaration := { p.declaration with codeStop := l.stop } }
    let d := closed.declaration
    { s with
      units := s.units ++ [.package closed]
      log := s.log ++ [.packaged d.filepath d.line d.qualifiedName closed.size]
      phase := .outside }
  else s

/-- A line after the opening line of an entity. -/
def entityLine (t : Target) (s : Progress) (name : List Char) (first l : CodeLine) : Progress :=
  if ((Construct.unit .entity).closing name 0 l).1 then
    let d := declare t t.library name first l.stop []
    { s with
      units := s.units ++ [.entity d]
      log := s.log ++ [declaredEvent (.unit .entity) d]
      phase := .outside }
  else s

/-- A line outside every unit. -/
def outsideLine (t : Target) (s : Progress) (l : CodeLine) : Progress :=
  match unitOpening? l.line with
  | none => s
  | some o =>
      match o.form with
      | .entity => { s with phase := .inEntity o.name l }
      | .package =>
          { s with
            phase := .inPackage (.ofDeclaration (declare t t.library o.name l l.stop [])) }

/-- One code line. -/
def step (t : Target) (s : Progress) (l : CodeLine) : Progress :=
  match s.phase with
  | .outside => outsideLine t s l
  | .inEntity name first => entityLine t s name first l
  | .inPackage p =>
      match memberOpening? l.line with
      | some o => memberLine t s p (.begin o l) l
      | none => packageLine s p l
  | .inMember p m => memberLine t s p m l
  | .failed _ => s

/-- Several code lines. -/
def run (t : Target) (s : Progress) (ls : List CodeLine) : Progress := ls.foldl (step t) s

@[simp] theorem run_nil (t : Target) (s : Progress) : run t s [] = s := rfl

@[simp] theorem run_cons (t : Target) (s : Progress) (l : CodeLine) (ls : List CodeLine) :
    run t s (l :: ls) = run t (step t s l) ls := rfl

/-- A pass over two stretches of lines is one pass after the other. -/
theorem run_append (t : Target) (s : Progress) (as bs : List CodeLine) :
    run t s (as ++ bs) = run t (run t s as) bs := by
  simp [run, List.foldl_append]

/-- What the pass has found when the lines run out. -/
def Progress.result (t : Target) (s : Progress) : Except Error FileScan :=
  match s.phase with
  | .outside => .ok ⟨t.filepath, t.library, s.units⟩
  | .inEntity name first =>
      .error (.unterminated t.filepath (.unit .entity) (String.ofList name) first.number)
  | .inPackage p =>
      .error (.unterminated t.filepath (.unit .package) p.declaration.name p.declaration.line)
  | .inMember _ m =>
      .error (.unterminated t.filepath (.member m.opening.form) (String.ofList m.opening.name)
        m.first.number)
  | .failed e => .error e

end Scan

/-- What scanning a file comes to: the units or the error, and what has been reported. -/
structure ScanOutcome where
  /-- The units of the file, or why it has been given up. -/
  result : Except Error FileScan
  /-- What has been reported. -/
  log : List Event

/-- Scans the contents of a file. -/
def scanSource (filepath library : String) (data : Bytes) : ScanOutcome :=
  let t : Scan.Target := ⟨filepath, String.ofList (Text.lower library.toList)⟩
  let s := Scan.run t .start (codeLines data)
  match s.result t with
  | .ok file => ⟨.ok file, s.log ++ [.scanned t.filepath file.units.length t.library]⟩
  | .error e => ⟨.error e, s.log⟩

end VhdlCatalog
