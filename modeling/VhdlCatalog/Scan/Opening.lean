import VhdlCatalog.Construct
import VhdlCatalog.Source.Token

/-!
**Opening lines.**

A declaration is recognised by its first line.  Outside packages entities and packages are looked
for, inside a package its members.  Instantiations (`is new`) declare nothing to document.

Main definitions:

* `VhdlCatalog.Opening` — the form and the names that a line declares;
* `VhdlCatalog.unitOpening?`, `VhdlCatalog.memberOpening?` — what a lower-cased line opens.
-/

set_option relaxedAutoImplicit false
set_option autoImplicit false

namespace VhdlCatalog

/-- What an opening line declares. -/
structure Opening (φ : Type) where
  /-- The form of the declaration. -/
  form : φ
  /-- The first declared name. -/
  name : List Char
  /-- The names after it. -/
  others : List (List Char)
  deriving DecidableEq, Repr

namespace Opening

variable {φ : Type}

/-- All declared names. -/
def names (o : Opening φ) : List (List Char) := o.name :: o.others

/-- The opening of a declaration with one designator.  Names are divided by commas. -/
def ofDesignator (form : φ) (designator : List Char) : Opening φ :=
  match (Text.pieces (· == ',') designator).map Text.strip with
  | [] => ⟨form, [], []⟩
  | name :: others => ⟨form, name, others⟩

end Opening

/-! ### Parts of lines -/

/-- `word name is …`: takes off all three. -/
def headed? (word : String) (line : List Char) : Option (List Char × List Char) := do
  let cs ← Token.keyword? word line
  let (name, cs) ← Token.identifier? cs
  let cs ← Token.keyword? "is" cs
  return (name, cs)

/-- After a designator: the declaration is an instantiation. -/
def isInstantiation (cs : List Char) : Bool :=
  Token.startsBlank cs && ((Token.keyword? "is" cs).any (Token.hasKeyword "new"))

/-- An operator in double quotes, which has at least one character: takes it off with both
quotes. -/
def operator? (cs : List Char) : Option (List Char × List Char) :=
  match Text.skipBlanks cs with
  | '"' :: rest =>
      match rest.takeWhile (· != '"'), rest.dropWhile (· != '"') with
      | c :: name, '"' :: after => some ('"' :: c :: name ++ ['"'], after)
      | _, _ => none
  | _ => none

/-- The designator of a function: a name or an operator. -/
def designator? (cs : List Char) : Option (List Char × List Char) :=
  if Token.startsBlank cs then (Token.identifier? cs).or (operator? cs) else none

/-! ### Units -/

/-- `entity name is` -/
def entityOpening? (line : List Char) : Option (Opening UnitForm) := do
  let (name, _) ← headed? "entity" line
  return .ofDesignator .entity name

/-- `package name is`, not followed by `new` -/
def packageOpening? (line : List Char) : Option (Opening UnitForm) := do
  let (name, cs) ← headed? "package" line
  if Token.hasKeyword "new" cs then none else return .ofDesignator .package name

/-- The ways in which a unit can open. -/
def unitOpenings : List (List Char → Option (Opening UnitForm)) :=
  [entityOpening?, packageOpening?]

/-- The unit that a lower-cased line opens. -/
def unitOpening? (line : List Char) : Option (Opening UnitForm) :=
  unitOpenings.findSome? fun opening => opening line

/-! ### Members -/

/-- `constant name, name …` -/
def constantOpening? (line : List Char) : Option (Opening MemberForm) := do
  let cs ← Token.keyword? "constant" line
  let (name, cs) ← Token.identifier? cs
  return ⟨.constant, name, Token.moreIdentifiers cs⟩

/-- `type name is array` -/
def arrayOpening? (line : List Char) : Option (Opening MemberForm) := do
  let (name, cs) ← headed? "type" line
  if Token.hasKeyword "array" cs then return .ofDesignator .arrayType name else none

/-- `type name is (` -/
def enumOpening? (line : List Char) : Option (Opening MemberForm) := do
  let (name, cs) ← headed? "type" line
  if (Token.mark? '(' cs).isSome then return .ofDesignator .enumType name else none

/-- `type name is record` -/
def recordOpening? (line : List Char) : Option (Opening MemberForm) := do
  let (name, cs) ← headed? "type" line
  if Token.hasKeyword "record" cs then return .ofDesignator .recordType name else none

/-- A line without a leading `pure` or `impure`. -/
def skipPurity (line : List Char) : List Char :=
  ((Token.keyword? "pure" line).or (Token.keyword? "impure" line)).getD line

/-- `function designator`, not an instantiation -/
def functionOpening? (line : List Char) : Option (Opening MemberForm) := do
  let cs ← Token.keyword? "function" (skipPurity line)
  let (designator, cs) ← designator? cs
  if isInstantiation cs then none else return .ofDesignator .function designator

/-- `procedure name`, not an instantiation -/
def procedureOpening? (line : List Char) : Option (Opening MemberForm) := do
  let cs ← Token.keyword? "procedure" line
  let (name, cs) ← Token.identifier? cs
  if isInstantiation cs then none else return .ofDesignator .procedure name

/-- `subtype name is` -/
def subtypeOpening? (line : List Char) : Option (Opening MemberForm) := do
  let (name, _) ← headed? "subtype" line
  return .ofDesignator .subtype name

/-- The ways in which a member can open. -/
def memberOpenings : List (List Char → Option (Opening MemberForm)) :=
  [constantOpening?, arrayOpening?, enumOpening?, recordOpening?, functionOpening?,
    procedureOpening?, subtypeOpening?]

/-- The member that a lower-cased line opens. -/
def memberOpening? (line : List Char) : Option (Opening MemberForm) :=
  memberOpenings.findSome? fun opening => opening line

end VhdlCatalog
