import VhdlCatalog.Catalog
import VhdlCatalog.Config
import VhdlCatalog.FileTree
import VhdlCatalog.Scan.FileScan

/-!
**Building a catalog from files.**

Every file is scanned by a task of its own.  The tasks share nothing and may finish in any order;
when all are done their results are merged in the order of the files.  A file that fails only loses
its own symbols.  A build one file after another comes to the same.

Main definitions:

* `VhdlCatalog.Report` — the catalog, and the files that failed;
* `VhdlCatalog.Build.scanTask` — the scan of one file;
* `VhdlCatalog.Build.merge` — one result merged into a report;
* `VhdlCatalog.Build.concurrent` — the build whose tasks finish in a given order;
* `VhdlCatalog.scanFiles`, `VhdlCatalog.scanFilesSequentially` — the two builds.
-/

set_option relaxedAutoImplicit false
set_option autoImplicit false

namespace VhdlCatalog

/-- Scans one file. -/
def scanFile (read : Reader) (path library : String) : ScanOutcome :=
  match read path with
  | .ok data => scanSource path library data
  | .error fault => ⟨.error (.ofFault path fault), []⟩

/-- What a build comes to. -/
structure Report where
  /-- The symbols of the files that did not fail. -/
  catalog : Catalog
  /-- The last error of every path that failed. -/
  failures : Table String Error
  /-- What has been reported. -/
  log : List Event

namespace Report

/-- Before the first file. -/
def empty : Report := ⟨.empty, .empty, []⟩

/-- No file failed. -/
def ok (r : Report) : Bool := r.failures.entries.isEmpty

/-- A file fails. -/
def fail (r : Report) (path : String) (e : Error) : Report :=
  { r with failures := r.failures.put path e, log := r.log ++ [.failed e] }

end Report

namespace Build

/-! ### Tasks -/

/-- The scan of one file as part of a build. -/
structure Task where
  /-- Place of the file in the list of files. -/
  index : Nat
  /-- The file. -/
  path : String
  /-- The library it belongs to. -/
  library : String
  deriving DecidableEq, Repr

/-- The tasks of a build, in the order of the files. -/
def tasks (config : Config) (paths : List String) : List Task :=
  paths.zipIdx.map fun p => ⟨p.2, p.1, config.libraryFor p.1⟩

/-- The error with which a task ends; a path that is none fails only this task. -/
def taskError (path : String) : Error → Error
  | .badPath fault => .taskFailed path fault
  | e => e

/-- Runs a task. -/
def scanTask (read : Reader) (t : Task) : ScanOutcome :=
  let outcome := scanFile read t.path t.library
  ⟨outcome.result.mapError (taskError t.path), .scanning t.path t.library :: outcome.log⟩

/-! ### Merging -/

/-- Merges the result of one task into a report. -/
def merge (r : Report) (path : String) (result : Except Error FileScan) : Report :=
  match result with
  | .error e => r.fail path e
  | .ok file =>
      match r.catalog.addSymbols file.library file.units with
      | (catalog, none) => { r with catalog := catalog }
      | (catalog, some e) => { r with catalog := catalog }.fail path e

/-- The build whose tasks finish in the order `finished`. -/
def concurrent (read : Reader) (finished : List Task) : Report :=
  let outcomes := finished.map fun t => (t, scanTask read t)
  let inOrder := outcomes.mergeSort fun a b => decide (a.1.index ≤ b.1.index)
  let start : Report := { Report.empty with log := outcomes.flatMap fun o => o.2.log }
  let done := inOrder.foldl (fun r o => merge r o.1.path o.2.result) start
  if finished.isEmpty then done
  else { done with log := done.log ++ [.built finished.length done.failures.size] }

/-- One file of a build one file after another. -/
def sequentialStep (read : Reader) (r : Report) (t : Task) : Report :=
  let outcome := scanTask read t
  merge { r with log := r.log ++ outcome.log } t.path outcome.result

/-- The build one file after another. -/
def sequential (read : Reader) (ts : List Task) : Report :=
  ts.foldl (sequentialStep read) .empty

end Build

/-- Builds the catalog of some files, one task per file. -/
def scanFiles (read : Reader) (config : Config) (paths : List String) : Report :=
  Build.concurrent read (Build.tasks config paths)

/-- Builds the catalog of some files, one after another. -/
def scanFilesSequentially (read : Reader) (config : Config) (paths : List String) : Report :=
  Build.sequential read (Build.tasks config paths)

end VhdlCatalog
