import VhdlCatalog.CommandLine.UsageError
import VhdlCatalog.Text.Digit

/-!
**Reading a command line.**

A command line is a list of words.  Some are flags, with or without values, and the others fill the
slot of the grammar: either any number of arguments that stand together, or a command with
everything after it.  Long flags may be abbreviated, a value may be attached to its flag, short
flags may be written as one word, and `--` ends the flags.

The reader does not act on what it reads.  It lists what stands on the line, in order, and says how
the line ends, so that whoever acts on it meets the first trouble first.

The conventions are those of the option reader of release 3.11 as it was in its earlier patch
releases.  Releases 3.11.10 and 3.12.3 differ in two points, which are noted at
`Grammar.attachedValues` and `Grammar.takeAttached`: a `--` that is attached to a flag, and a short
flag with more attached to it than short flags.

Main definitions:

* `VhdlCatalog.CommandLine.Grammar` — flags, how many values each takes, and the slot;
* `VhdlCatalog.CommandLine.Word` — what a word of the line is;
* `VhdlCatalog.CommandLine.Reading` — what is read, and how it ends;
* `VhdlCatalog.CommandLine.Grammar.read` — the reading of a line.
-/

set_option relaxedAutoImplicit false
set_option autoImplicit false

namespace VhdlCatalog.CommandLine

/-- What the words that are not flags are for. -/
inductive Slot where
  /-- Any number of arguments, all of them together. -/
  | arguments
  /-- A command, and everything after it. -/
  | command
  deriving DecidableEq, Repr

/-- The flags and the slot of a command line whose options are named by `ο`. -/
structure Grammar (ο : Type) where
  /-- The flags, each with the option it stands for. -/
  flags : List (String × ο)
  /-- How many values an option takes. -/
  arity : ο → Nat
  /-- What the other words are for. -/
  slot : Slot

/-- What a word of a command line is. -/
inductive Word (ο : Type) where
  /-- A value or an argument. -/
  | argument
  /-- The word `--`, which ends the flags. -/
  | dashes
  /-- It looks like a flag and is none. -/
  | unknown
  /-- A flag of the option, with a value attached to it or not. -/
  | option (option : ο) (flag : List Char) (attached : Option (List Char))
  deriving DecidableEq, Repr

/-- What is read off a command line. -/
inductive Item (ο : Type) where
  /-- An option is given with its values.  An option that takes one value has none when `--` is
  attached to its flag. -/
  | option (option : ο) (values : List String)
  /-- The slot is filled. -/
  | slot (values : List String)
  deriving DecidableEq, Repr

/-- What is read off a command line in order, and how it ends: with an error, or with the words that
belong to nothing. -/
structure Reading (ο : Type) where
  /-- What is read before the end. -/
  items : List (Item ο)
  /-- How it ends. -/
  ending : Except UsageError (List String)

namespace Reading

variable {ο : Type}

/-- The reading with more before it. -/
def after (r : Reading ο) (items : List (Item ο)) (extras : List String) : Reading ο :=
  ⟨items ++ r.items, r.ending.map (extras ++ ·)⟩

end Reading

namespace Word

variable {ο : Type}

/-- The word is a flag, or looks like one. -/
def isFlag : Word ο → Bool
  | argument | dashes => false
  | unknown | option .. => true

/-- The word is a value or an argument. -/
def isArgument : Word ο → Bool
  | argument => true
  | _ => false

/-- The word is `--`. -/
def isDashes : Word ο → Bool
  | dashes => true
  | _ => false

end Word

/-! ### Words -/

/-- The parts of a word before and after its first equals sign. -/
def splitEquals (word : List Char) : List Char × Option (List Char) :=
  (word.takeWhile (· != '='), (word.dropWhile (· != '=')).tail?)

/-- Digits, or digits after a point with or without digits before it. -/
def isNumeral (cs : List Char) : Bool :=
  let whole := cs.takeWhile isDecimal
  match cs.dropWhile isDecimal with
  | [] => !whole.isEmpty
  | c :: fraction => c == '.' && !fraction.isEmpty && fraction.all isDecimal

/-- The word is a negative number, and so not a flag.  One line feed may follow. -/
def isNegativeNumber : List Char → Bool
  | '-' :: cs => isNumeral (if cs.getLast? = some '\n' then cs.dropLast else cs)
  | _ => false

namespace Grammar

variable {ο : Type} [DecidableEq ο]

/-- The option that a flag stands for. -/
def option? (g : Grammar ο) (flag : List Char) : Option ο :=
  (g.flags.find? fun f => decide (f.1.toList = flag)).map Prod.snd

/-- All flags of an option, as they are named in messages. -/
def label (g : Grammar ο) (o : ο) : String :=
  "/".intercalate ((g.flags.filter fun f => decide (f.2 = o)).map Prod.fst)

/-- The flags that a word may be an abbreviation of or have its value attached to. -/
def candidates (g : Grammar ο) (word : List Char) : List (ο × String × Option (List Char)) :=
  match word with
  | '-' :: '-' :: _ =>
      let (stem, value) := splitEquals word
      (g.flags.filter fun f => stem.isPrefixOf f.1.toList).map
        fun f => (f.2, f.1, value)
  | _ =>
      g.flags.filterMap fun f =>
        if f.1.toList = word.take 2 then some (f.2, f.1, some (word.drop 2))
        else if word.isPrefixOf f.1.toList then some (f.2, f.1, none)
        else none

/-- What a word is that begins with a dash and is neither a flag nor a dash alone. -/
def dashed (g : Grammar ο) (word : List Char) : Except UsageError (Word ο) :=
  match g.candidates word with
  | [(o, flag, attached)] => .ok (.option o flag.toList attached)
  | [] =>
      .ok (if isNegativeNumber word || word.contains ' ' then .argument else .unknown)
  | several => .error (.ambiguous (String.ofList word) (several.map fun c => c.2.1))

/-- What a word before `--` is. -/
def classify (g : Grammar ο) (word : List Char) : Except UsageError (Word ο) :=
  if word.head? ≠ some '-' then .ok .argument
  else match g.option? word with
    | some o => .ok (.option o word none)
    | none =>
        if word.length = 1 then .ok .argument
        else match splitEquals word with
          | (flag, some value) =>
              match g.option? flag with
              | some o => .ok (.option o flag (some value))
              | none => g.dashed word
          | (_, none) => g.dashed word

/-- What the words of a line are. -/
def classifyAll (g : Grammar ο) : List String → Except UsageError (List (String × Word ο))
  | [] => .ok []
  | word :: rest =>
      if word = "--" then .ok ((word, .dashes) :: rest.map fun w => (w, .argument))
      else do
        let w ← g.classify word.toList
        return (word, w) :: (← g.classifyAll rest)

/-! ### Options and their values -/

/-- What taking an option off a line comes to: what is read, and how many of the following words are
its values. -/
structure Taken (ο : Type) where
  /-- What is read. -/
  items : List (Item ο)
  /-- How many of the following words are used. -/
  used : Nat

/-- An option whose values are the next words. -/
def takeValues (g : Grammar ο) (o : ο) (following : List (String × Word ο)) :
    Except UsageError (Taken ο) :=
  let values := following.take (g.arity o)
  if values.length = g.arity o && values.all fun v => v.2.isArgument then
    .ok ⟨[.option o (values.map Prod.fst)], g.arity o⟩
  else .error (.missingValues (g.label o) (g.arity o))

/-- The values that a text attached to a flag stands for: itself, or none if it is `--`, which is
dropped here as it is where it ends the flags.  In releases 3.11.10 and 3.12.3 an attached `--` is a
value like any other. -/
def attachedValues (value : List Char) : List String :=
  if value = ['-', '-'] then [] else [String.ofList value]

/-- An option with a value attached to its flag.  A value attached to a short flag that takes none
is read as more short flags, and all its characters have to be such flags.  Otherwise the word is
refused as a whole; releases 3.11.10 and 3.12.3 act on the flags before the first character that is
none, so that `-hx` asks for help there. -/
def takeAttached (g : Grammar ο) (following : List (String × Word ο)) (o : ο) (long : Bool)
    (value : List Char) : Except UsageError (Taken ο) :=
  match g.arity o, value with
  | 0, [] => .error (.ignoredValue (g.label o) "")
  | 0, c :: rest =>
      match if long then none else g.option? ['-', c] with
      | none => .error (.ignoredValue (g.label o) (String.ofList (c :: rest)))
      | some next => do
          let taken ←
            if rest.isEmpty then g.takeValues next following
            else takeAttached g following next false rest
          return { taken with items := .option o [] :: taken.items }
  | 1, value => .ok ⟨[.option o (attachedValues value)], 0⟩
  | arity, _ => .error (.missingValues (g.label o) arity)
termination_by structural value

/-- An option with what is attached to its flag and the words after it. -/
def takeOption (g : Grammar ο) (o : ο) (flag : List Char) (attached : Option (List Char))
    (following : List (String × Word ο)) : Except UsageError (Taken ο) :=
  match attached with
  | none => g.takeValues o following
  | some value => g.takeAttached following o (['-', '-'].isPrefixOf flag) value

/-! ### Lines -/

/-- The end of a line, where there are no more flags.  `filled` when the slot has been filled. -/
def readEnd (g : Grammar ο) (filled : Bool) (ws : List (String × Word ο)) : Reading ο :=
  let words := ws.map Prod.fst
  if filled then ⟨[], .ok words⟩
  else match g.slot with
    | .arguments => ⟨[.slot (words.erase "--")], .ok []⟩
    | .command =>
        if (ws.dropWhile fun w => w.2.isDashes).isEmpty then ⟨[], .ok words⟩
        else ⟨[.slot words], .ok []⟩

/-- The reading of a line, or of what is left of it.  `filled` when the slot has been filled. -/
def readFrom (g : Grammar ο) (filled : Bool) (ws : List (String × Word ο)) : Reading ο :=
  if ws.all fun w => !w.2.isFlag then g.readEnd filled ws
  else match ws with
    | [] => g.readEnd filled []
    | (_, .option o flag attached) :: rest =>
        match g.takeOption o flag attached rest with
        | .error e => ⟨[], .error e⟩
        | .ok taken =>
            (g.readFrom filled (rest.drop taken.used)).after taken.items []
    | (word, .unknown) :: rest => (g.readFrom filled rest).after [] [word]
    | (word, _) :: rest =>
        let words := word :: (rest.takeWhile fun w => !w.2.isFlag).map Prod.fst
        let left := rest.dropWhile fun w => !w.2.isFlag
        if filled then (g.readFrom true left).after [] words
        else match g.slot with
          | .arguments => (g.readFrom true left).after [.slot words] []
          | .command => ⟨[.slot (word :: rest.map Prod.fst)], .ok []⟩
termination_by ws.length
decreasing_by
  · simp only [List.length_cons, List.length_drop]; omega
  · simp
  · have := (List.dropWhile_sublist (l := rest) fun w => !w.2.isFlag).length_le
    simp only [List.length_cons]; omega
  · have := (List.dropWhile_sublist (l := rest) fun w => !w.2.isFlag).length_le
    simp only [List.length_cons]; omega

/-- The reading of a line. -/
def read (g : Grammar ο) (words : List String) : Reading ο :=
  match g.classifyAll words with
  | .error e => ⟨[], .error e⟩
  | .ok ws => g.readFrom false ws

end Grammar

end VhdlCatalog.CommandLine
