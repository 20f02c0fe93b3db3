import VhdlCatalog.Declaration
import VhdlCatalog.Error
import VhdlCatalog.Table

/-!
**Packages and their members.**

A package holds the symbols declared in its header, in five categories.  Within a category name and
line tell members apart: overloaded subprograms stand side by side, and a second member with the
same name and line is refused.

Main definitions:

* `VhdlCatalog.Member` — a symbol of one of the five categories;
* `VhdlCatalog.Package` — a package declaration with its members;
* `VhdlCatalog.Package.addMember` — one more member;
* `VhdlCatalog.Package.named` — the members with a given name;
* `VhdlCatalog.Package.codeSummary` — the header, one line per member.
-/

set_option relaxedAutoImplicit false
set_option autoImplicit false

namespace VhdlCatalog

/-! ### Members -/

/-- A symbol declared in a package. -/
structure Member where
  /-- The category. -/
  category : Category
  /-- The declaration. -/
  declaration : Declaration
  /-- The form of a type, such as `record`; empty for other members. -/
  form : String
  deriving DecidableEq, Repr

namespace Member

/-- One line for the member. -/
def headline (m : Member) : String := m.declaration.headline m.category.kind

end Member

/-! ### Packages -/

/-- A package declaration and the members declared in its header. -/
structure Package where
  /-- The declaration of the package itself. -/
  declaration : Declaration
  /-- Its constants. -/
  constants : Table SymbolId Member
  /-- Its functions. -/
  functions : Table SymbolId Member
  /-- Its procedures. -/
  procedures : Table SymbolId Member
  /-- Its types. -/
  types : Table SymbolId Member
  /-- Its subtypes. -/
  subtypes : Table SymbolId Member

namespace Package

/-- A package without members. -/
def ofDeclaration (d : Declaration) : Package :=
  ⟨d, .empty, .empty, .empty, .empty, .empty⟩

/-- The members of a category. -/
def table (p : Package) : Category → Table SymbolId Member
  | .constant => p.constants
  | .function => p.functions
  | .procedure => p.procedures
  | .type => p.types
  | .subtype => p.subtypes

/-- The package with other members in a category. -/
def setTable (p : Package) (c : Category) (t : Table SymbolId Member) : Package :=
  match c with
  | .constant => { p with constants := t }
  | .function => { p with functions := t }
  | .procedure => { p with procedures := t }
  | .type => { p with types := t }
  | .subtype => { p with subtypes := t }

@[simp] theorem table_setTable_self (p : Package) (c : Category) (t : Table SymbolId Member) :
    (p.setTable c t).table c = t := by
  cases c <;> rfl

theorem table_setTable_of_ne (p : Package) {c d : Category} (h : c ≠ d)
    (t : Table SymbolId Member) : (p.setTable c t).table d = p.table d := by
  cases c <;> cases d <;> simp_all [setTable, table]

@[simp] theorem declaration_setTable (p : Package) (c : Category) (t : Table SymbolId Member) :
    (p.setTable c t).declaration = p.declaration := by
  cases c <;> rfl

/-- The package with one more member.  Refused when its category already has one with that name and
line. -/
def addMember (p : Package) (m : Member) : Except Error Package :=
  let members := p.table m.category
  if members.contains m.declaration.id then
    .error (.duplicate m.declaration.filepath m.declaration.name m.declaration.line
      p.declaration.qualifiedName)
  else .ok (p.setTable m.category (members.push m.declaration.id m))

/-! ### Looking up -/

/-- The entries of all categories, one category after another. -/
def entries (p : Package) : List (SymbolId × Member) :=
  Category.all.flatMap fun c => (p.table c).entries

/-- The number of members. -/
def size (p : Package) : Nat := p.entries.length

/-- The members among `entries` that have the name, by line. -/
def pick (entries : List (SymbolId × Member)) (name : String) : List Member :=
  ((entries.filter fun e => e.1.name = name).map Prod.snd).mergeSort
    fun a b => a.declaration.lineLe b.declaration

/-- The members with a given name, of whatever category, by line. -/
def named (p : Package) (name : String) : List Member := pick p.entries name

/-- The members of a category with a given name, by line. -/
def namedIn (p : Package) (c : Category) (name : String) : List Member :=
  pick (p.table c).entries name

/-- The names listed for a category, in ascending order: one per declaration, or one per group of
overloads. -/
def names (p : Package) (c : Category) : List String :=
  let all := (p.table c).keys.map SymbolId.name
  sortNames (if c.isOverloadable then all.eraseDups else all)

/-- The names of all members, in ascending order. -/
def innerNames (p : Package) : List String := sortNames (p.entries.map fun e => e.1.name)

/-! ### Summary -/

/-- The members of a category in the order of the summary: by name, then line. -/
def listed (p : Package) (c : Category) : List Member :=
  if c.isOverloadable then (p.names c).flatMap (p.namedIn c)
  else ((p.table c).entries.mergeSort fun a b => a.1.le b.1).map Prod.snd

/-- The header of the package, one line per member, with an empty line between categories. -/
def codeSummary (p : Package) : String :=
  let blocks := (Category.all.map fun c => (p.listed c).map Member.headline).filter
    fun block => !block.isEmpty
  "\n".intercalate (blocks.map fun block => String.join (block.map (· ++ "\n")))

end Package

end VhdlCatalog
