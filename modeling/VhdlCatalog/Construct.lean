/-!
**What can be declared.**

Main definitions:

* `VhdlCatalog.Kind` — the kinds of symbols in a catalog;
* `VhdlCatalog.UnitForm`, `VhdlCatalog.MemberForm` — the forms of declarations that are told apart
  by how they open and close, outside and inside a package;
* `VhdlCatalog.Construct` — any of these forms.
-/

set_option relaxedAutoImplicit false
set_option autoImplicit false

namespace VhdlCatalog

/-! ### Kinds -/

/-- The kinds of symbols. -/
inductive Kind where
  | entity
  | package
  | constant
  | function
  | procedure
  | type
  | subtype
  deriving DecidableEq, Repr

namespace Kind

/-- The word for a kind. -/
def label : Kind → String
  | entity => "entity"
  | package => "package"
  | constant => "constant"
  | function => "function"
  | procedure => "procedure"
  | type => "type"
  | subtype => "subtype"

end Kind

/-- The categories of symbols inside a package. -/
inductive Category where
  | constant
  | function
  | procedure
  | type
  | subtype
  deriving DecidableEq, Repr

namespace Category

/-- The kind of the symbols of a category. -/
def kind : Category → Kind
  | constant => .constant
  | function => .function
  | procedure => .procedure
  | type => .type
  | subtype => .subtype

/-- The categories, in the order in which they are listed. -/
def all : List Category := [constant, function, procedure, type, subtype]

/-- Several members of the category may have one name, and are then listed as one. -/
def isOverloadable : Category → Bool
  | function | procedure => true
  | _ => false

end Category

/-! ### Forms -/

/-- The forms of library units. -/
inductive UnitForm where
  | entity
  | package
  deriving DecidableEq, Repr

/-- The forms of declarations in a package header. -/
inductive MemberForm where
  | constant
  | arrayType
  | enumType
  | recordType
  | function
  | procedure
  | subtype
  deriving DecidableEq, Repr

namespace MemberForm

/-- The category of a declared member. -/
def category : MemberForm → Category
  | constant => .constant
  | arrayType | enumType | recordType => .type
  | function => .function
  | procedure => .procedure
  | subtype => .subtype

/-- The word for the form of a type; empty for other members. -/
def typeForm : MemberForm → String
  | arrayType => "array"
  | enumType => "enum"
  | recordType => "record"
  | _ => ""

/-- The form declares a subprogram, which is summarised with its whole parameter list. -/
def isSubprogram : MemberForm → Bool
  | function | procedure => true
  | _ => false

end MemberForm

/-- The forms of declarations. -/
inductive Construct where
  /-- A library unit. -/
  | unit (form : UnitForm)
  /-- A member of a package. -/
  | member (form : MemberForm)
  deriving DecidableEq, Repr

namespace Construct

/-- The words for a construct in messages. -/
def label : Construct → String
  | unit .entity => "entity"
  | unit .package => "package"
  | member .constant => "constant"
  | member .arrayType => "array type"
  | member .enumType => "enum type"
  | member .recordType => "record type"
  | member .function => "function"
  | member .procedure => "procedure"
  | member .subtype => "subtype"

end Construct

end VhdlCatalog
