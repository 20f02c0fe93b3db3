import VhdlCatalog.Scan.Opening

/-!
**What opens a declaration.**

Opening lines are looked for one form after another.  Here it is said once, for every form, what a
line must have in order to open it and what it declares then.  Whatever holds of opening lines is
shown by cases on this, without going through the search.

Main definitions:

* `VhdlCatalog.OpensUnit`, `VhdlCatalog.OpensMember` — **the rules**: what a line declares;
* `VhdlCatalog.UnitForm.opening?`, `VhdlCatalog.MemberForm.opening?` — the search for one form.

Main results:

* `VhdlCatalog.UnitForm.opening?_eq_some_iff`, `VhdlCatalog.MemberForm.opening?_eq_some_iff` — the
  search for a form follows the rules;
* `VhdlCatalog.opensUnit_of_unitOpening?`, `VhdlCatalog.opensMember_of_memberOpening?` — so do all
  of them together.
-/

set_option relaxedAutoImplicit false
set_option autoImplicit false

namespace VhdlCatalog

@[simp] theorem Opening.form_ofDesignator {φ : Type} (form : φ) (designator : List Char) :
    (Opening.ofDesignator form designator).form = form := by
  rw [ofDesignator]
  split <;> rfl

/-! ### Parts of lines -/

/-- The head of a declaration is a word, a name and `is`. -/
theorem exists_of_headed? {word : String} {line name cs : List Char}
    (h : headed? word line = some (name, cs)) :
    ∃ before after, Token.keyword? word line = some before ∧
      Token.identifier? before = some (name, after) ∧ Token.keyword? "is" after = some cs := by
  simp only [headed?, Option.bind_eq_bind, Option.bind_eq_some_iff, Option.pure_def] at h
  obtain ⟨before, hkeyword, ⟨name', after⟩, hname, cs', his, hpair⟩ := h
  obtain ⟨rfl, rfl⟩ := Prod.mk.inj (Option.some.inj hpair)
  exact ⟨before, after, hkeyword, hname, his⟩

/-- Before `function` there may be `pure` or `impure`. -/
theorem skipPurity_cases (line : List Char) :
    skipPurity line = line ∨ Token.keyword? "pure" line = some (skipPurity line) ∨
      Token.keyword? "impure" line = some (skipPurity line) := by
  rw [skipPurity]
  cases Token.keyword? "pure" line with
  | some cs => exact Or.inr (Or.inl rfl)
  | none =>
      cases Token.keyword? "impure" line with
      | some cs => exact Or.inr (Or.inr rfl)
      | none => exact Or.inl rfl

/-! ### Units -/

/-- What a line declares that opens a unit. -/
inductive OpensUnit (line : List Char) : Opening UnitForm → Prop
  /-- `entity name is` -/
  | entity {name cs : List Char} (hhead : headed? "entity" line = some (name, cs)) :
      OpensUnit line (.ofDesignator .entity name)
  /-- `package name is`, not followed by `new` -/
  | package {name cs : List Char} (hhead : headed? "package" line = some (name, cs))
      (hnew : Token.hasKeyword "new" cs = false) : OpensUnit line (.ofDesignator .package name)

namespace UnitForm

/-- The forms, in the order in which they are looked for. -/
def all : List UnitForm := [entity, package]

/-- What a line declares if it opens a unit of the form. -/
def opening? : UnitForm → List Char → Option (Opening UnitForm)
  | entity => entityOpening?
  | package => packageOpening?

theorem unitOpenings_eq : unitOpenings = all.map opening? := rfl

variable {form : UnitForm} {line : List Char} {o : Opening UnitForm}

/-- **The search for a form of units** follows the rules. -/
theorem opening?_eq_some_iff : form.opening? line = some o ↔ OpensUnit line o ∧ o.form = form := by
  constructor
  · intro h
    cases form with
    | entity =>
        simp only [opening?, entityOpening?, Option.bind_eq_bind, Option.bind_eq_some_iff] at h
        obtain ⟨⟨name, cs⟩, hhead, h⟩ := h
        rw [← Option.some.inj h]
        exact ⟨.entity hhead, Opening.form_ofDesignator _ _⟩
    | package =>
        simp only [opening?, packageOpening?, Option.bind_eq_bind, Option.bind_eq_some_iff] at h
        obtain ⟨⟨name, cs⟩, hhead, h⟩ := h
        split at h
        · cases h
        · next hnew =>
            rw [← Option.some.inj h]
            exact ⟨.package hhead (Bool.eq_false_iff.2 hnew), Opening.form_ofDesignator _ _⟩
  · rintro ⟨h, rfl⟩
    cases h with
    | entity hhead => simp [opening?, entityOpening?, hhead]
    | package hhead hnew => simp [opening?, packageOpening?, hhead, hnew]

end UnitForm

theorem opensUnit_of_unitOpening? {line : List Char} {o : Opening UnitForm}
    (h : unitOpening? line = some o) : OpensUnit line o := by
  obtain ⟨opening, hmem, ho⟩ := List.exists_of_findSome?_eq_some h
  rw [UnitForm.unitOpenings_eq] at hmem
  obtain ⟨form, -, rfl⟩ := List.mem_map.1 hmem
  exact (UnitForm.opening?_eq_some_iff.1 ho).1

/-! ### Members -/

/-- What a line declares that opens a member. -/
inductive OpensMember (line : List Char) : Opening MemberForm → Prop
  /-- `constant name, name …` -/
  | constant {cs name rest : List Char} (hkeyword : Token.keyword? "constant" line = some cs)
      (hname : Token.identifier? cs = some (name, rest)) :
      OpensMember line ⟨.constant, name, Token.moreIdentifiers rest⟩
  /-- `type name is array` -/
  | arrayType {name cs : List Char} (hhead : headed? "type" line = some (name, cs))
      (hsign : Token.hasKeyword "array" cs = true) :
      OpensMember line (.ofDesignator .arrayType name)
  /-- `type name is (` -/
  | enumType {name cs : List Char} (hhead : headed? "type" line = some (name, cs))
      (hsign : (Token.mark? '(' cs).isSome = true) : OpensMember line (.ofDesignator .enumType name)
  /-- `type name is record` -/
  | recordType {name cs : List Char} (hhead : headed? "type" line = some (name, cs))
      (hsign : Token.hasKeyword "record" cs = true) :
      OpensMember line (.ofDesignator .recordType name)
  /-- `function designator`, not an instantiation -/
  | function {cs designator rest : List Char}
      (hkeyword : Token.keyword? "function" (skipPurity line) = some cs)
      (hdesignator : designator? cs = some (designator, rest))
      (hnew : isInstantiation rest = false) : OpensMember line (.ofDesignator .function designator)
  /-- `procedure name`, not an instantiation -/
  | procedure {cs name rest : List Char} (hkeyword : Token.keyword? "procedure" line = some cs)
      (hname : Token.identifier? cs = some (name, rest)) (hnew : isInstantiation rest = false) :
      OpensMember line (.ofDesignator .procedure name)
  /-- `subtype name is` -/
  | subtype {name cs : List Char} (hhead : headed? "subtype" line = some (name, cs)) :
      OpensMember line (.ofDesignator .subtype name)

namespace MemberForm

/-- The forms, in the order in which they are looked for. -/
def all : List MemberForm :=
  [constant, arrayType, enumType, recordType, function, procedure, subtype]

/-- What a line declares if it opens a member of the form. -/
def opening? : MemberForm → List Char → Option (Opening MemberForm)
  | constant => constantOpening?
  | arrayType => arrayOpening?
  | enumType => enumOpening?
  | recordType => recordOpening?
  | function => functionOpening?
  | procedure => procedureOpening?
  | subtype => subtypeOpening?

theorem memberOpenings_eq : memberOpenings = all.map opening? := rfl

variable {form : MemberForm} {line : List Char} {o : Opening MemberForm}

theorem opensMember_of_opening? (h : form.opening? line = some o) :
    OpensMember line o ∧ o.form = form := by
  cases form with
  | constant =>
      simp only [opening?, constantOpening?, Option.bind_eq_bind, Option.bind_eq_some_iff] at h
      obtain ⟨cs, hkeyword, ⟨name, rest⟩, hname, h⟩ := h
      rw [← Option.some.inj h]
      exact ⟨.constant hkeyword hname, rfl⟩
  | arrayType =>
      simp only [opening?, arrayOpening?, Option.bind_eq_bind, Option.bind_eq_some_iff] at h
      obtain ⟨⟨name, cs⟩, hhead, h⟩ := h
      split at h
      · next hsign =>
          rw [← Option.some.inj h]
          exact ⟨.arrayType hhead hsign, Opening.form_ofDesignator _ _⟩
      · cases h
  | enumType =>
      simp only [opening?, enumOpening?, Option.bind_eq_bind, Option.bind_eq_some_iff] at h
      obtain ⟨⟨name, cs⟩, hhead, h⟩ := h
      split at h
      · next hsign =>
          rw [← Option.some.inj h]
          exact ⟨.enumType hhead hsign, Opening.form_ofDesignator _ _⟩
      · cases h
  | recordType =>
      simp only [opening?, recordOpening?, Option.bind_eq_bind, Option.bind_eq_some_iff] at h
      obtain ⟨⟨name, cs⟩, hhead, h⟩ := h
      split at h
      · next hsign =>
          rw [← Option.some.inj h]
          exact ⟨.recordType hhead hsign, Opening.form_ofDesignator _ _⟩
      · cases h
  | function =>
      simp only [opening?, functionOpening?, Option.bind_eq_bind, Option.bind_eq_some_iff] at h
      obtain ⟨cs, hkeyword, ⟨designator, rest⟩, hdesignator, h⟩ := h
      split at h
      · cases h
      · next hnew =>
          rw [← Option.some.inj h]
          exact ⟨.function hkeyword hdesignator (Bool.eq_false_iff.2 hnew),
            Opening.form_ofDesignator _ _⟩
  | procedure =>
      simp only [opening?, procedureOpening?, Option.bind_eq_bind, Option.bind_eq_some_iff] at h
      obtain ⟨cs, hkeyword, ⟨name, rest⟩, hname, h⟩ := h
      split at h
      · cases h
      · next hnew =>
          rw [← Option.some.inj h]
          exact ⟨.procedure hkeyword hname (Bool.eq_false_iff.2 hnew),
            Opening.form_ofDesignator _ _⟩
  | subtype =>
      simp only [opening?, subtypeOpening?, Option.bind_eq_bind, Option.bind_eq_some_iff] at h
      obtain ⟨⟨name, cs⟩, hhead, h⟩ := h
      rw [← Option.some.inj h]
      exact ⟨.subtype hhead, Opening.form_ofDesignator _ _⟩

/-- **The search for a form of members** follows the rules. -/
theorem opening?_eq_some_iff :
    form.opening? line = some o ↔ OpensMember line o ∧ o.form = form := by
  refine ⟨opensMember_of_opening?, ?_⟩
  rintro ⟨h, rfl⟩
  cases h with
  | constant hkeyword hname => simp [opening?, constantOpening?, hkeyword, hname]
  | arrayType hhead hsign => simp [opening?, arrayOpening?, hhead, hsign]
  | enumType hhead hsign => simp [opening?, enumOpening?, hhead, hsign]
  | recordType hhead hsign => simp [opening?, recordOpening?, hhead, hsign]
  | function hkeyword hdesignator hnew =>
      simp [opening?, functionOpening?, hkeyword, hdesignator, hnew]
  | procedure hkeyword hname hnew => simp [opening?, procedureOpening?, hkeyword, hname, hnew]
  | subtype hhead => simp [opening?, subtypeOpening?, hhead]

end MemberForm

theorem opensMember_of_memberOpening? {line : List Char} {o : Opening MemberForm}
    (h : memberOpening? line = some o) : OpensMember line o := by
  obtain ⟨opening, hmem, ho⟩ := List.exists_of_findSome?_eq_some h
  rw [MemberForm.memberOpenings_eq] at hmem
  obtain ⟨form, -, rfl⟩ := List.mem_map.1 hmem
  exact (MemberForm.opensMember_of_opening? ho).1

end VhdlCatalog
