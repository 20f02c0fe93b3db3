import VhdlCatalog.CommandLine.Doc

/-!
**The program.**

Reads the files that the command line names, runs the command line on them and writes what the run
comes to.
-/

set_option relaxedAutoImplicit false
set_option autoImplicit false

namespace VhdlCatalog

/-- The fault that the system has a number for.  The number comes with either sign. -/
def ReadFault.ofNumber (number : UInt32) (details : String) : ReadFault :=
  let n := if number < 0x80000000 then number else 0 - number
  if n = 2 then .missing
  else if n = 13 then .other "Permission denied"
  else if n = 20 then .notDirectory
  else if n = 21 then .isDirectory
  else if n = 36 then .tooLong
  else .other details

/-- Why the system cannot read a file. -/
def ReadFault.ofSystem : IO.Error → ReadFault
  | .noFileOrDirectory _ number details | .inappropriateType _ number details
  | .permissionDenied _ number details | .invalidArgument _ number details
  | .otherError number details => .ofNumber number details
  | e => .other (toString e)

/-- Reads a file. -/
def readFile (path : String) : IO (Except ReadFault Bytes) := do
  try
    return .ok (← IO.FS.readBinFile path).toList
  catch e =>
    return .error (.ofSystem e)

namespace CommandLine

/-- Carries out a command line and gives the status to leave behind. -/
def execute (words : List String) : IO UInt32 := do
  let mut contents : Table String (Except ReadFault Bytes) := .empty
  for path in filesToRead words do
    contents := contents.put path (← readFile path)
  let read : Reader := fun path => (contents.get? path).getD (.error .missing)
  let output := run read read words
  IO.print output.stdout
  IO.eprint output.stderr
  match output.ending with
  | .abandoned reason => IO.eprintln reason
  | .broken breakdown => IO.eprintln breakdown.message
  | .done _ | .stopped _ => pure ()
  return output.ending.status.toUInt32

end CommandLine

end VhdlCatalog

/-- Carries out the command line. -/
def main (words : List String) : IO UInt32 := VhdlCatalog.CommandLine.execute words
