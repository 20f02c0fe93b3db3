import VhdlCatalog.Error
import VhdlCatalog.Path
import VhdlCatalog.Source.Utf8

/-!
**Files below a directory.**

A build reads files through a function from paths to contents.  A file tree is a snapshot of the
files below the current directory, and gives such a function.

Main definitions:

* `VhdlCatalog.Reader` — reading a file by its path;
* `VhdlCatalog.FileTree` — the files and directories below the current directory;
* `VhdlCatalog.FileTree.insert` — a tree with one more node and the directories on the way to it;
* `VhdlCatalog.FileTree.read` — reading from a tree.
-/

set_option relaxedAutoImplicit false
set_option autoImplicit false

namespace VhdlCatalog

/-- Reads a file by its path. -/
abbrev Reader := String → Except ReadFault Bytes

/-- What stands in a file tree. -/
inductive Node where
  /-- A file with its contents. -/
  | file (data : Bytes)
  /-- A directory. -/
  | directory
  deriving DecidableEq, Repr

/-- The files and directories below the current directory, by their components. -/
structure FileTree where
  /-- The nodes; of several under one path the first counts. -/
  nodes : List (List (List Char) × Node)

namespace FileTree

/-- Where a path leads to. -/
inductive Place where
  /-- The directory with these components. -/
  | directory (components : List (List Char))
  /-- A directory above the current one, or the root. -/
  | above
  /-- The file with these components. -/
  | file (components : List (List Char)) (data : Bytes)
  deriving DecidableEq, Repr

/-- No files. -/
def empty : FileTree := ⟨[]⟩

/-- What stands under the given components. -/
def find? (t : FileTree) (components : List (List Char)) : Option Node :=
  (t.nodes.find? fun n => decide (n.1 = components)).map Prod.snd

/-- The tree with a directory under the given components, where nothing stands there yet. -/
def ensureDirectory (t : FileTree) (components : List (List Char)) : FileTree :=
  if (t.find? components).isSome then t else ⟨(components, .directory) :: t.nodes⟩

/-- One step along a path on which missing directories are made.  The walk holds the tree so far
and the components of the place it has reached, which is never above the current directory. -/
def makeStep (walk : FileTree × List (List Char)) (part : List Char) :
    FileTree × List (List Char) :=
  let (t, reached) := walk
  if part = ['.'] then walk
  else if part = ['.', '.'] then (t, reached.dropLast)
  else (t.ensureDirectory (reached ++ [part]), reached ++ [part])

/-- The tree after a walk that makes missing directories, and the place that the walk reached.  A
directory that a later `..` leaves again is made as well. -/
def makeDirectories (t : FileTree) (parts : List (List Char)) : FileTree × List (List Char) :=
  parts.foldl makeStep (t, [])

/-- The tree with a node under a path, and with the directories that the path goes through. -/
def insert (t : FileTree) (path : String) (node : Node) : FileTree :=
  let parts := Path.components path.toList
  match node, parts.getLast? with
  | .file data, some name =>
      let (around, reached) := t.makeDirectories parts.dropLast
      ⟨(reached ++ [name], .file data) :: around.nodes⟩
  | _, _ => (t.makeDirectories parts).1

/-- The most bytes that a component of a path may have. -/
def componentLimit : Nat := 255

/-- The most bytes that a path may have. -/
def pathLimit : Nat := 4095

/-- The number of bytes of a text. -/
def byteLength (cs : List Char) : Nat := (String.ofList cs).utf8ByteSize

/-- One step along a path. -/
def enter (t : FileTree) (place : Place) (part : List Char) : Except ReadFault Place :=
  match place with
  | .file .. => .error .notDirectory
  | .above =>
      if part = ['.'] ∨ part = ['.', '.'] then .ok .above
      else .error (if componentLimit < byteLength part then .tooLong else .missing)
  | .directory components =>
      if part = ['.'] then .ok place
      else if part = ['.', '.'] then
        .ok (if components.isEmpty then .above else .directory components.dropLast)
      else match t.find? (components ++ [part]) with
        | some (.file data) => .ok (.file (components ++ [part]) data)
        | some .directory => .ok (.directory (components ++ [part]))
        | none => .error (if componentLimit < byteLength part then .tooLong else .missing)

/-- Where a path leads to. -/
def locate (t : FileTree) (path : String) : Except ReadFault Place :=
  let cs := path.toList
  if cs.contains (Char.ofNat 0) then .error .zeroCharacter
  else if cs.isEmpty then .error .missing
  else if pathLimit < byteLength cs then .error .tooLong
  else do
    let start := if cs.head? = some '/' then Place.above else Place.directory []
    let place ← (Path.components cs).foldlM t.enter start
    match place with
    | .file .. => if cs.getLast? = some '/' then .error .notDirectory else .ok place
    | _ => .ok place

/-- Reads the file at a path. -/
def read (t : FileTree) : Reader := fun path => do
  match ← t.locate path with
  | .file _ data => .ok data
  | _ => .error .isDirectory

/-- The tree without the file at a path. -/
def remove (t : FileTree) (path : String) : FileTree :=
  match t.locate path with
  | .ok (.file components _) => ⟨t.nodes.filter fun n => n.1 ≠ components⟩
  | _ => t

end FileTree

end VhdlCatalog
