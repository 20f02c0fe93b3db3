import VhdlCatalog.Construct

/-!
**What can go wrong.**

Main definitions:

* `VhdlCatalog.ReadFault` — why a file cannot be read;
* `VhdlCatalog.Error` — the causes for which a file is given up or a symbol is refused;
* `VhdlCatalog.Error.message` — the wording of every cause.
-/

set_option relaxedAutoImplicit false
set_option autoImplicit false

namespace VhdlCatalog

/-- Why a file cannot be read. -/
inductive ReadFault where
  /-- Nothing is there under that path. -/
  | missing
  /-- The path leads to a directory. -/
  | isDirectory
  /-- The path goes through something that is not a directory. -/
  | notDirectory
  /-- The path, or one of its components, is longer than paths may be. -/
  | tooLong
  /-- The path has a zero character, so that it cannot be a path at all. -/
  | zeroCharacter
  /-- The system gives another reason. -/
  | other (reason : String)
  deriving DecidableEq, Repr

namespace ReadFault

/-- The reason in words. -/
def reason : ReadFault → String
  | missing => "No such file or directory"
  | isDirectory => "Is a directory"
  | notDirectory => "Not a directory"
  | tooLong => "File name too long"
  | zeroCharacter => "embedded null byte"
  | other reason => reason

end ReadFault

/-- The causes of failure. -/
inductive Error where
  /-- The file cannot be read. -/
  | unreadable (filepath : String) (fault : ReadFault)
  /-- The input ended while a declaration was open. -/
  | unterminated (filepath : String) (construct : Construct) (name : String) (line : Int)
  /-- A container already has a symbol with that name and line. -/
  | duplicate (filepath : String) (name : String) (line : Int) (scope : String)
  /-- Scanning the file failed for a reason that is not about VHDL. -/
  | taskFailed (filepath : String) (fault : ReadFault)
  /-- The path cannot be a path. -/
  | badPath (fault : ReadFault)
  /-- A symbol of that kind cannot stand in a library. -/
  | notAUnit (kind : Kind)
  /-- A symbol of that kind cannot stand in a package. -/
  | notAMember (kind : Kind) (package : String)
  deriving DecidableEq, Repr

namespace Error

/-- The file an error is about. -/
def filepath? : Error → Option String
  | unreadable path _ => some path
  | unterminated path .. => some path
  | duplicate path .. => some path
  | taskFailed path _ => some path
  | badPath _ => none
  | notAUnit _ => none
  | notAMember .. => none

/-- The cause in words, without the file. -/
def detail : Error → String
  | unreadable _ fault => "cannot read file: " ++ fault.reason
  | unterminated _ construct name line =>
      construct.label ++ " '" ++ name ++ "' declared at line " ++ toString line ++
        ": end of declaration not found"
  | duplicate _ name line scope =>
      "'" ++ name ++ "' at line " ++ toString line ++ " already declared in '" ++ scope ++ "'"
  | taskFailed _ fault => "unexpected ValueError: " ++ fault.reason
  | badPath fault => fault.reason
  | notAUnit kind => "a " ++ kind.label ++ " cannot be a library unit"
  | notAMember kind package =>
      "a " ++ kind.label ++ " cannot be declared inside package '" ++ package ++ "'"

/-- The whole message: the file, if there is one, and the cause. -/
def message (e : Error) : String :=
  match e.filepath? with
  | some path => if path.isEmpty then e.detail else path ++ ": " ++ e.detail
  | none => e.detail

/-- Reading the file at `path` fails for the reason `fault`. -/
def ofFault (path : String) (fault : ReadFault) : Error :=
  match fault with
  | .zeroCharacter => badPath fault
  | _ => unreadable path fault

end Error

end VhdlCatalog
