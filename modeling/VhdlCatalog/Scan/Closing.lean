import VhdlCatalog.Construct
import VhdlCatalog.Source.Cursor

/-!
**Closing lines.**

Every form of declaration has its own sign that a line is its last one.  The signs look at the line
without its comment, except for a leading `end`.

Main definitions:

* `VhdlCatalog.mentions` — a name stands in a line as a whole word, outside quotes;
* `VhdlCatalog.closesOutside` — a semicolon outside all parentheses, which is looked for across
  lines;
* `VhdlCatalog.Construct.closing` — the sign of each form.
-/

set_option relaxedAutoImplicit false
set_option autoImplicit false

namespace VhdlCatalog

open Source

/-! ### Signs -/

/-- The line begins with the word `end`. -/
def startsEnd (line : List Char) : Bool := Token.hasKeyword "end" line

/-- The line begins with `end` and the word `word`. -/
def startsEndOf (word : String) (line : List Char) : Bool :=
  (Token.keyword? "end" line).any (Token.hasKeyword word)

/-- The line begins with `end` and a semicolon. -/
def startsEndMark (line : List Char) : Bool :=
  (Token.keyword? "end" line).any fun cs => (Token.mark? ';' cs).isSome

/-- `c` next to a name makes it part of something else: a longer word or a quoted operator. -/
def adheres (c : Char) : Bool := isWord c || c == '"'

/-- The text begins with `name`, and what follows does not adhere to it. -/
def mentionsHere (name cs : List Char) : Bool :=
  match Text.afterLiteral? name cs with
  | some [] => true
  | some (c :: _) => !adheres c
  | none => false

/-- `name` stands somewhere in a text whose character before adheres (`stuck`), or does not. -/
def mentionsFrom (name : List Char) (stuck : Bool) : List Char → Bool
  | [] => !stuck && mentionsHere name []
  | c :: cs => (!stuck && mentionsHere name (c :: cs)) || mentionsFrom name (adheres c) cs

/-- `name` stands in the text as a whole word outside quotes. -/
def mentions (name code : List Char) : Bool := mentionsFrom name false code

/-- The last character that is not white space is a semicolon. -/
def endsInSemicolon (code : List Char) : Bool :=
  (code.reverse.dropWhile isBlank).head? == some ';'

/-- `c` can be part of a type mark. -/
def isTypeMark (c : Char) : Bool := isWord c || c == '.'

/-- The text begins with `return`, a type mark and a semicolon. -/
def returnsHere (cs : List Char) : Bool :=
  match Text.afterLiteral? "return".toList cs with
  | none => false
  | some rest =>
      let mark := Text.skipBlanks rest
      Token.startsBlank rest && !(mark.takeWhile isTypeMark).isEmpty &&
        (Token.mark? ';' (mark.dropWhile isTypeMark)).isSome

/-- `return`, a type mark and a semicolon stand somewhere in a text that follows a word character
(`inWord`), or does not. -/
def returnsFrom (inWord : Bool) : List Char → Bool
  | [] => false
  | c :: cs => (!inWord && returnsHere (c :: cs)) || returnsFrom (isWord c) cs

/-- The text has a `return` with its type mark and semicolon. -/
def returnsType (code : List Char) : Bool := returnsFrom false code

/-- Looks for a semicolon outside all parentheses in text at the given depth.  Returns whether
there is one, and the depth where the search ends.  A closing parenthesis too many counts for
nothing. -/
def closesOutside (depth : Int) : List Char → Bool × Int
  | [] => (false, depth)
  | c :: cs =>
      if c = '(' then closesOutside (depth + 1) cs
      else if c = ')' then closesOutside (max (depth - 1) 0) cs
      else if c = ';' ∧ depth = 0 then (true, depth)
      else closesOutside depth cs

/-! ### Forms -/

/-- The line closes the package called `name`. -/
def closesPackage (name : List Char) (l : CodeLine) : Bool :=
  startsEnd l.line && (startsEndOf "package" l.line || mentions name l.code)

/-- The line closes the record type called `name`. -/
def closesRecord (name : List Char) (l : CodeLine) : Bool :=
  startsEnd l.line &&
    (startsEndOf "record" l.line || startsEndMark l.line || mentions name l.code)

/-- Whether a line closes a declaration of the given form and name, and the depth of parentheses
after the line, when `depth` is the depth before it. -/
def Construct.closing (construct : Construct) (name : List Char) (depth : Int) (l : CodeLine) :
    Bool × Int :=
  match construct with
  | .unit .entity => (startsEnd l.line, depth)
  | .unit .package => (closesPackage name l, depth)
  | .member .function => (returnsType l.code, depth)
  | .member .procedure => closesOutside depth l.code
  | .member .recordType => (closesRecord name l, depth)
  | .member .constant | .member .arrayType | .member .enumType | .member .subtype =>
      (endsInSemicolon l.code, depth)

end VhdlCatalog
