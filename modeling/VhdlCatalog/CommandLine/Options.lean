import VhdlCatalog.CommandLine.Grammar
import VhdlCatalog.CommandLine.Manual
import VhdlCatalog.Render.Renderer

/-!
**What a command line asks for.**

The program has options of its own and one command, `doc`, with options of its own.  What is read
off a line is acted on in the order in which it stands there: the first word that asks for help or
cannot be accepted ends the reading.  Words that belong to nothing are reported only when everything
else is well.

Main definitions:

* `VhdlCatalog.CommandLine.ProgramOption`, `VhdlCatalog.CommandLine.DocOption` — the options;
* `VhdlCatalog.CommandLine.Setting` — what a line says about an option with a value;
* `VhdlCatalog.CommandLine.DocRequest`, `VhdlCatalog.CommandLine.Request` — what is asked for;
* `VhdlCatalog.CommandLine.Stop` — why a line is not carried out;
* `VhdlCatalog.CommandLine.parse` — the request of a command line.
-/

set_option relaxedAutoImplicit false
set_option autoImplicit false

namespace VhdlCatalog.CommandLine

/-- The options of the program. -/
inductive ProgramOption where
  | help
  | format
  | debug
  deriving DecidableEq, Repr

/-- The options of the command `doc`. -/
inductive DocOption where
  | help
  | library
  | defaultLibrary
  | workers
  | symbol
  | noBold
  deriving DecidableEq, Repr

namespace ProgramOption

/-- How many values an option takes. -/
def arity : ProgramOption → Nat
  | format => 1
  | help | debug => 0

/-- The command line of the program. -/
def grammar : Grammar ProgramOption where
  flags := [("-h", help), ("--help", help), ("--format", format), ("--debug", debug)]
  arity := arity
  slot := .command

end ProgramOption

namespace DocOption

/-- How many values an option takes. -/
def arity : DocOption → Nat
  | library => 2
  | defaultLibrary | workers | symbol => 1
  | help | noBold => 0

/-- The command line of the command `doc`. -/
def grammar : Grammar DocOption where
  flags :=
    [("-h", help), ("--help", help), ("--lib", library), ("--default-lib", defaultLibrary),
      ("--workers", workers), ("-s", symbol), ("--symbol", symbol), ("--no-bold", noBold)]
  arity := arity
  slot := .arguments

end DocOption

/-- What a command line says about an option that takes a value.  Of several mentions the last one
counts.  It is without a value only if `--` is attached to the flag, as in `--format=--`. -/
inductive Setting (α : Type) where
  /-- It is not mentioned. -/
  | unset
  /-- It is mentioned without a value.  In releases 3.11.10 and 3.12.3 of the option reader this
  does not happen: the value is `--` there, which is no format and no number of workers. -/
  | blank
  /-- It has this value. -/
  | given (value : α)
  deriving DecidableEq, Repr

namespace Setting

variable {α : Type}

/-- The value, if there is one. -/
def value? : Setting α → Option α
  | given value => some value
  | unset | blank => none

end Setting

/-- What the command `doc` is asked for. -/
structure DocRequest where
  /-- The files that go to the default library. -/
  files : List String
  /-- Libraries, each with a file of it. -/
  libraries : List (String × String)
  /-- The name of the default library. -/
  defaultLibrary : Setting String
  /-- How many files to scan at a time. -/
  workers : Setting Int
  /-- The path of the symbol to show. -/
  symbol : Setting String
  /-- Keywords are not set in bold. -/
  noBold : Bool
  deriving DecidableEq, Repr

/-- What the program is asked for. -/
structure Request where
  /-- The output format. -/
  format : Setting Format
  /-- Everything that is reported is shown. -/
  debug : Bool
  /-- The command `doc`, if it is given. -/
  doc : Option DocRequest
  deriving DecidableEq, Repr

namespace DocRequest

/-- Nothing is asked for. -/
def empty : DocRequest := ⟨[], [], .unset, .unset, .unset, false⟩

end DocRequest

namespace Request

/-- Nothing is asked for. -/
def empty : Request := ⟨.unset, false, none⟩

end Request

/-- Why a command line is not carried out. -/
inductive Stop where
  /-- Help is asked for. -/
  | help (manual : Manual)
  /-- The line is refused by the command with the given manual. -/
  | refused (manual : Manual) (error : UsageError)
  deriving DecidableEq, Repr

/-! ### The command `doc` -/

/-- The number of workers that a text gives. -/
def workers? (text : String) : Except UsageError Int :=
  let label := DocOption.grammar.label .workers
  match Text.integer? text.toList with
  | none => .error (.notAnInteger label text)
  | some n => if n < 1 then .error (.notPositive label n) else .ok n

/-- What the values of an option that takes one say, when `read` makes sense of a value. -/
def setting? {α : Type} (read : String → Except UsageError α) :
    List String → Except UsageError (Setting α)
  | [] => .ok .blank
  | text :: _ => (read text).map .given

/-- What the values of an option of the command `doc` say; values that make no sense are refused. -/
def docSetting? {α : Type} (read : String → Except UsageError α) (values : List String) :
    Except Stop (Setting α) :=
  (setting? read values).mapError (.refused docManual)

/-- The request after one more item on the line of the command `doc`. -/
def DocRequest.next (r : DocRequest) : Item DocOption → Except Stop DocRequest
  | .slot files => .ok { r with files := files }
  | .option .help _ => .error (.help docManual)
  | .option .library [library, file] =>
      .ok { r with libraries := r.libraries ++ [(library, file)] }
  | .option .library _ => .ok r
  | .option .defaultLibrary values => do
      return { r with defaultLibrary := ← docSetting? .ok values }
  | .option .workers values => do
      return { r with workers := ← docSetting? workers? values }
  | .option .symbol values => do
      return { r with symbol := ← docSetting? .ok values }
  | .option .noBold _ => .ok { r with noBold := true }

/-- The request of a line of the command `doc`, and the words that belong to nothing. -/
def parseDoc (words : List String) : Except Stop (DocRequest × List String) := do
  let reading := DocOption.grammar.read words
  let request ← reading.items.foldlM DocRequest.next .empty
  match reading.ending with
  | .ok extras => .ok (request, extras)
  | .error e => .error (.refused docManual e)

/-! ### The program -/

/-- The format with the given name. -/
def format? (name : String) : Except UsageError Format :=
  match formats.get name with
  | .ok format => .ok format
  | .error _ =>
      .error (.invalidChoice (ProgramOption.grammar.label .format) name formats.keys)

/-- The request, and the words that belong to nothing, after one more item on the line of the
program. -/
def Request.next (state : Request × List String) :
    Item ProgramOption → Except Stop (Request × List String)
  | .option .help _ => .error (.help programManual)
  | .option .debug _ => .ok ({ state.1 with debug := true }, state.2)
  | .option .format values =>
      match setting? format? values with
      | .ok format => .ok ({ state.1 with format := format }, state.2)
      | .error e => .error (.refused programManual e)
  | .slot (command :: words) =>
      if command = "doc" then do
        let (doc, extras) ← parseDoc words
        return ({ state.1 with doc := some doc }, state.2 ++ extras)
      else .error (.refused programManual (.invalidChoice "command" command ["doc"]))
  | .slot [] => .ok state

/-- The request of a command line. -/
def parse (words : List String) : Except Stop Request := do
  let reading := ProgramOption.grammar.read words
  let (request, extras) ← reading.items.foldlM Request.next (.empty, [])
  match reading.ending with
  | .error e => .error (.refused programManual e)
  | .ok before =>
      if (before ++ extras).isEmpty then .ok request
      else .error (.refused programManual (.unrecognized (before ++ extras)))

end VhdlCatalog.CommandLine
