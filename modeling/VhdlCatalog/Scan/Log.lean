import VhdlCatalog.Error

/-!
**What a build reports while it works.**

Main definitions:

* `VhdlCatalog.Severity`, `VhdlCatalog.Event` — what is reported, and how serious it is;
* `VhdlCatalog.Event.render` — the line written for it.
-/

set_option relaxedAutoImplicit false
set_option autoImplicit false

namespace VhdlCatalog

/-- How serious an event is. -/
inductive Severity where
  | debug
  | error
  deriving DecidableEq, Repr

/-- What is reported. -/
inductive Event where
  /-- A declaration has been read to its end. -/
  | declared (filepath : String) (line : Int) (construct : Construct) (qualifiedName : String)
  /-- A package has been read to its end. -/
  | packaged (filepath : String) (line : Int) (qualifiedName : String) (members : Nat)
  /-- A file has been read to its end. -/
  | scanned (filepath : String) (units : Nat) (library : String)
  /-- The scan of a file begins. -/
  | scanning (path : String) (library : String)
  /-- A file is given up. -/
  | failed (error : Error)
  /-- All files are done. -/
  | built (files : Nat) (failures : Nat)
  deriving DecidableEq, Repr

namespace Event

/-- How serious the event is. -/
def severity : Event → Severity
  | failed _ => .error
  | _ => .debug

/-- The part of the program that reports the event. -/
def origin : Event → String
  | declared .. | packaged .. | scanned .. => "vhdldoc.scanner"
  | scanning .. | failed _ | built .. => "vhdldoc.orchestrator"

/-- The event in words. -/
def message : Event → String
  | declared filepath line construct qualifiedName =>
      filepath ++ ":" ++ toString line ++ ": " ++ construct.label ++ " " ++ qualifiedName
  | packaged filepath line qualifiedName members =>
      filepath ++ ":" ++ toString line ++ ": package " ++ qualifiedName ++ " with " ++
        toString members ++ " symbol(s)"
  | scanned filepath units library =>
      filepath ++ ": " ++ toString units ++ " top-level symbol(s) in library '" ++ library ++ "'"
  | scanning path library => "scanning " ++ path ++ " into library '" ++ library ++ "'"
  | failed error => error.message
  | built files failures =>
      "scanned " ++ toString files ++ " file(s), " ++ toString failures ++ " failed"

/-- The line written for the event. -/
def render (e : Event) : String :=
  (match e.severity with
    | .debug => "DEBUG"
    | .error => "ERROR") ++ ": " ++ e.origin ++ ": " ++ e.message

end Event

/-- The events that are shown: all of them, or the errors only. -/
def shown (verbose : Bool) (log : List Event) : List Event :=
  log.filter fun e => verbose || e.severity = .error

end VhdlCatalog
