import VhdlCatalog.Path
import VhdlCatalog.Table
import VhdlCatalog.Text.Case

/-!
**Which library a file belongs to.**

The library of a file is not read off the file.  It is assigned from outside, by path; a file
without an assignment goes to the default library.

Main definitions:

* `VhdlCatalog.Config` — the assignments, and how many files to scan at a time;
* `VhdlCatalog.Config.make?`, `VhdlCatalog.Config.ofOptions?` — building one;
* `VhdlCatalog.Config.assign` — one more assignment;
* `VhdlCatalog.Config.libraryFor` — the library of a file.
-/

set_option relaxedAutoImplicit false
set_option autoImplicit false

namespace VhdlCatalog

/-- How a catalog is built. -/
structure Config where
  /-- The library of files without an assignment. -/
  defaultLibrary : String
  /-- The library of a file, by the normal spelling of its path. -/
  libraries : Table String String
  /-- How many files to scan at a time; all of them if not given. -/
  workers : Option Int

/-- Why a configuration is refused. -/
inductive ConfigError where
  /-- The default library has no name. -/
  | noDefaultLibrary
  /-- The number of workers is not positive. -/
  | workersNotPositive (workers : Int)
  deriving DecidableEq, Repr

namespace ConfigError

/-- The refusal in words. -/
def message : ConfigError → String
  | noDefaultLibrary => "default library name must not be empty"
  | workersNotPositive workers => "workers must be positive, got " ++ toString workers

end ConfigError

namespace Config

/-- The library that files go to when nothing else is said. -/
def standardLibrary : String := "work"

/-- A name in lower case. -/
def lowerName (name : String) : String := String.ofList (Text.lower name.toList)

/-- The default configuration. -/
def standard : Config := ⟨standardLibrary, .empty, none⟩

/-- Assigns a file to a library. -/
def assignOne (libraries : Table String String) (path library : String) : Table String String :=
  libraries.put (Path.normalize path) (lowerName library)

/-- A configuration with the given assignments, later ones over earlier ones. -/
def make? (defaultLibrary : String) (libraries : Table String String) (workers : Option Int) :
    Except ConfigError Config :=
  if defaultLibrary.isEmpty then .error .noDefaultLibrary
  else
    let config : Config :=
      ⟨lowerName defaultLibrary,
        libraries.entries.foldl (fun t e => assignOne t e.1 e.2) .empty, workers⟩
    match workers with
    | some n => if n < 1 then .error (.workersNotPositive n) else .ok config
    | none => .ok config

/-- Assigns files to a library. -/
def assign (c : Config) (library : String) (paths : List String) : Config :=
  { c with libraries := paths.foldl (fun t path => assignOne t path library) c.libraries }

/-- The configuration that command-line options ask for: pairs of library and file, the default
library, and the number of workers. -/
def ofOptions? (pairs : List (String × String)) (defaultLibrary : Option String)
    (workers : Option Int) : Except ConfigError Config := do
  let name := match defaultLibrary with
    | some name => if name.isEmpty then standardLibrary else name
    | none => standardLibrary
  let config ← make? name .empty workers
  return pairs.foldl (fun c pair => c.assign pair.1 [pair.2]) config

/-- The library of a file. -/
def libraryFor (c : Config) (path : String) : String :=
  (c.libraries.get? (Path.normalize path)).getD c.defaultLibrary

/-- The files that have been assigned. -/
def files (c : Config) : List String := c.libraries.keys

end Config

end VhdlCatalog
