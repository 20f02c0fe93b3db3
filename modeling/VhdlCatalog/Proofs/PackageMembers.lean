import VhdlCatalog.Symbol

/-!
**A package is its list of members.**

Members are added to a package one by one, each to the table of its category, and an addition can
be refused.  When none is refused, the package is known from the list of the members that were
added: every table holds the members of its category in the order in which they came.

Main definitions:

* `VhdlCatalog.Package.ofMembers` — the package with given members;
* `VhdlCatalog.Package.members` — the members of a package, one category after another;
* `VhdlCatalog.Member.key` — what a package tells its members apart by.

Main results:

* `VhdlCatalog.Package.eq_ofMembers_of_foldlM` — additions that are not refused lead to
  `VhdlCatalog.Package.ofMembers`;
* `VhdlCatalog.Package.foldlM_addMember_eq_ok`, `VhdlCatalog.Package.foldlM_addMember_eq_error` —
  additions are refused from the first key on that is already there;
* `VhdlCatalog.Package.mem_members_ofMembers` — it holds the members it was given and no others.
-/

set_option relaxedAutoImplicit false
set_option autoImplicit false

namespace VhdlCatalog

/-- What a package tells its members apart by: the category, and name and line within it. -/
def Member.key (m : Member) : Category × SymbolId := (m.category, m.declaration.id)

namespace Package

/-- The members of a package, one category after another. -/
def members (p : Package) : List Member := p.entries.map Prod.snd

/-- The table of the members of category `c`, in the order of the list. -/
def tableOf (c : Category) (members : List Member) : Table SymbolId Member :=
  ⟨(members.filter (·.category = c)).map fun m => (m.declaration.id, m)⟩

/-- The package with the given declaration and members. -/
def ofMembers (d : Declaration) (members : List Member) : Package where
  declaration := d
  constants := tableOf .constant members
  functions := tableOf .function members
  procedures := tableOf .procedure members
  types := tableOf .type members
  subtypes := tableOf .subtype members

@[simp] theorem declaration_ofMembers (d : Declaration) (ms : List Member) :
    (ofMembers d ms).declaration = d := rfl

@[simp] theorem table_ofMembers (d : Declaration) (ms : List Member) (c : Category) :
    (ofMembers d ms).table c = tableOf c ms := by
  cases c <;> rfl

@[simp] theorem values_tableOf (c : Category) (ms : List Member) :
    (tableOf c ms).values = ms.filter (·.category = c) := by
  simp [tableOf, Table.values, List.map_map, Function.comp_def]

theorem setTable_push_ofMembers (d : Declaration) (ms : List Member) (m : Member) :
    (ofMembers d ms).setTable m.category
      (((ofMembers d ms).table m.category).push m.declaration.id m) =
      ofMembers d (ms ++ [m]) := by
  obtain ⟨c, dm, form⟩ := m
  cases c <;> simp [ofMembers, setTable, table, tableOf, Table.push, List.filter_append]

theorem eq_ofMembers_of_addMember {d : Declaration} {ms : List Member} {m : Member} {p : Package}
    (h : (ofMembers d ms).addMember m = .ok p) : p = ofMembers d (ms ++ [m]) := by
  simp only [addMember, setTable_push_ofMembers] at h
  split at h
  · cases h
  · exact (Except.ok.inj h).symm

/-- **Additions that are not refused** append to the list of members. -/
theorem eq_ofMembers_of_foldlM {d : Declaration} {ms added : List Member} {p : Package}
    (h : added.foldlM addMember (ofMembers d ms) = .ok p) : p = ofMembers d (ms ++ added) := by
  induction added generalizing ms with
  | nil =>
      rw [List.append_nil]
      exact (Except.ok.inj h).symm
  | cons m added ih =>
      rw [List.foldlM_cons] at h
      cases hm : (ofMembers d ms).addMember m with
      | error e =>
          rw [hm] at h
          cases h
      | ok q =>
          rw [hm, eq_ofMembers_of_addMember hm] at h
          rw [ih h, List.append_assoc, List.singleton_append]

theorem contains_tableOf (c : Category) (ms : List Member) (id : SymbolId) :
    (tableOf c ms).contains id = true ↔ (c, id) ∈ ms.map Member.key := by
  simp only [Table.contains, Table.keys, tableOf, List.map_map, decide_eq_true_eq, List.mem_map,
    List.mem_filter, Function.comp_apply, Member.key, Prod.mk.injEq, and_assoc]

/-- An addition is refused when there is a member with that key. -/
theorem addMember_ofMembers (d : Declaration) (ms : List Member) (m : Member) :
    (ofMembers d ms).addMember m =
      if m.key ∈ ms.map Member.key then
        .error (.duplicate m.declaration.filepath m.declaration.name m.declaration.line
          d.qualifiedName)
      else .ok (ofMembers d (ms ++ [m])) := by
  have hcontains : ((ofMembers d ms).table m.category).contains m.declaration.id = true ↔
      m.key ∈ ms.map Member.key := by
    rw [table_ofMembers]
    exact contains_tableOf m.category ms m.declaration.id
  simp only [addMember, setTable_push_ofMembers, declaration_ofMembers]
  by_cases h : m.key ∈ ms.map Member.key
  · rw [if_pos h, if_pos (hcontains.2 h)]
  · rw [if_neg h, if_neg fun hc => h (hcontains.1 hc)]

/-- **Additions with new keys are not refused.** -/
theorem foldlM_addMember_eq_ok {d : Declaration} {ms added : List Member}
    (h : ((ms ++ added).map Member.key).Nodup) :
    added.foldlM addMember (ofMembers d ms) = .ok (ofMembers d (ms ++ added)) := by
  induction added generalizing ms with
  | nil =>
      rw [List.append_nil]
      rfl
  | cons m added ih =>
      have hnew : m.key ∉ ms.map Member.key := by
        rw [List.map_append, List.map_cons] at h
        have hdisjoint := (List.nodup_append.1 h).2.2
        exact fun hmem => hdisjoint _ hmem _ (List.mem_cons_self ..) rfl
      rw [List.append_cons] at h ⊢
      rw [List.foldlM_cons, addMember_ofMembers, if_neg hnew]
      exact ih h

/-- **The first addition with a key that is there** is refused, whatever comes after it. -/
theorem foldlM_addMember_eq_error {d : Declaration} {ms added rest : List Member} {m : Member}
    (h : ((ms ++ added).map Member.key).Nodup) (hm : m.key ∈ (ms ++ added).map Member.key) :
    (added ++ m :: rest).foldlM addMember (ofMembers d ms) =
      .error (.duplicate m.declaration.filepath m.declaration.name m.declaration.line
        d.qualifiedName) := by
  rw [List.foldlM_append, foldlM_addMember_eq_ok h]
  simp only [bind, Except.bind, List.foldlM_cons, addMember_ofMembers, if_pos hm]

/-- The package holds the members it was given and no others. -/
@[simp] theorem mem_members_ofMembers {d : Declaration} {ms : List Member} {m : Member} :
    m ∈ (ofMembers d ms).members ↔ m ∈ ms := by
  obtain ⟨c, dm, form⟩ := m
  cases c <;> simp [members, entries, Category.all, tableOf]

theorem all_members_ofMembers (d : Declaration) (ms : List Member) (test : Member → Bool) :
    (ofMembers d ms).members.all test = ms.all test := by
  rw [Bool.eq_iff_iff, List.all_eq_true, List.all_eq_true]
  simp only [mem_members_ofMembers]

end Package

end VhdlCatalog
