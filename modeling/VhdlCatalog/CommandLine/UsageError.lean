import VhdlCatalog.Text.Quoted

/-!
**What can be wrong with a command line.**

Main definitions:

* `VhdlCatalog.CommandLine.UsageError` — the causes;
* `VhdlCatalog.CommandLine.UsageError.message` — the wording of every cause.
-/

set_option relaxedAutoImplicit false
set_option autoImplicit false

namespace VhdlCatalog.CommandLine

/-- Why a command line is refused. -/
inductive UsageError where
  /-- An abbreviation that several flags begin with. -/
  | ambiguous (word : String) (candidates : List String)
  /-- Fewer values than the option takes. -/
  | missingValues (option : String) (count : Nat)
  /-- A value for an option that takes none. -/
  | ignoredValue (option : String) (value : String)
  /-- A value that is not one of those allowed. -/
  | invalidChoice (option : String) (value : String) (choices : List String)
  /-- A value that is not an integer. -/
  | notAnInteger (option : String) (value : String)
  /-- An integer that is not positive. -/
  | notPositive (option : String) (value : Int)
  /-- Words that belong to nothing. -/
  | unrecognized (words : List String)
  deriving DecidableEq, Repr

namespace UsageError

/-- A text between quotes. -/
def quote (s : String) : String := String.ofList (Text.quoted s.toList)

/-- The cause in words. -/
def message : UsageError → String
  | ambiguous word candidates =>
      "ambiguous option: " ++ word ++ " could match " ++ ", ".intercalate candidates
  | missingValues option count =>
      "argument " ++ option ++ ": expected " ++
        (if count = 1 then "one argument" else toString count ++ " arguments")
  | ignoredValue option value =>
      "argument " ++ option ++ ": ignored explicit argument " ++ quote value
  | invalidChoice option value choices =>
      "argument " ++ option ++ ": invalid choice: " ++ quote value ++ " (choose from " ++
        ", ".intercalate (choices.map quote) ++ ")"
  | notAnInteger option value =>
      "argument " ++ option ++ ": invalid int value: '" ++ value ++ "'"
  | notPositive option value =>
      "argument " ++ option ++ ": must be a positive integer, got " ++ toString value
  | unrecognized words => "unrecognized arguments: " ++ " ".intercalate words

end UsageError

end VhdlCatalog.CommandLine
