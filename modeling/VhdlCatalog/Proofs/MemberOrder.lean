import VhdlCatalog.Proofs.HeaderSummary

/-!
**The order in which members come does not show.**

Whether a package takes up some symbols depends on the symbols alone, and so does every answer it
gives afterwards.  A lookup by name goes through five tables one after another, and then sorts what
it has found by line and file.  Within a table the name and the line are a key, so no two members
can tie there.  Members of different categories can, and then stand in the order of the categories.
What never decides is the order in which they came.

Main definitions:

* `VhdlCatalog.Symbol.membersOf` — the members among some symbols;
* `VhdlCatalog.Package.Fits` — symbols that an empty package takes up;
* `VhdlCatalog.Package.byCategory` — members, one category after another;
* `VhdlCatalog.Package.SameAnswers` — what consumers can see of the members of a package.

Main results:

* `VhdlCatalog.Package.foldlM_add_eq_ok_iff` — **which symbols are taken up**, and what they make of
  an empty package;
* `VhdlCatalog.Package.named_ofMembers`, `VhdlCatalog.Package.namedIn_ofMembers` — lookups as sorts
  of the list of members;
* `VhdlCatalog.Package.sameAnswers_ofMembers` — members in another order, same answers;
* `VhdlCatalog.member_order_invisible` — **packages depend only on the set of their members**.
-/

set_option relaxedAutoImplicit false
set_option autoImplicit false

namespace VhdlCatalog

/-! ### Symbols that a package takes up -/

namespace Symbol

/-- The symbol as a member of a package. -/
def member? : Symbol → Option Member
  | member m => some m
  | _ => none

/-- The members among some symbols. -/
def membersOf (symbols : List Symbol) : List Member := symbols.filterMap member?

@[simp] theorem membersOf_map_member (ms : List Member) : membersOf (ms.map member) = ms := by
  rw [membersOf, List.filterMap_map]
  exact List.filterMap_some

/-- Symbols that are no units are members. -/
theorem map_membersOf {symbols : List Symbol} (h : ∀ s ∈ symbols, s.isUnit = false) :
    (membersOf symbols).map member = symbols := by
  induction symbols with
  | nil => rfl
  | cons s symbols ih =>
      obtain ⟨hs, hsymbols⟩ := List.forall_mem_cons.1 h
      cases s with
      | entity d => cases hs
      | package p => cases hs
      | member m =>
          exact congrArg (member m :: ·) (ih hsymbols)

end Symbol

namespace Package

/-- The symbols are members with keys of their own. -/
structure Fits (symbols : List Symbol) : Prop where
  members : ∀ s ∈ symbols, s.isUnit = false
  distinct : ((Symbol.membersOf symbols).map Member.key).Nodup

/-- **The order of the symbols** does not matter for whether they fit. -/
theorem Fits.perm {symbols symbols' : List Symbol} (h : Fits symbols)
    (hp : symbols.Perm symbols') : Fits symbols' where
  members s hs := h.members s (hp.mem_iff.2 hs)
  distinct := (((hp.filterMap _).map _).nodup_iff).1 h.distinct

variable {d : Declaration} {ms ms' : List Member} {symbols : List Symbol} {p : Package}

/-- Symbols that a package takes up, one after another, are members with keys of their own. -/
theorem exists_members_of_foldlM_add (hms : (ms.map Member.key).Nodup)
    (h : symbols.foldlM add (ofMembers d ms) = .ok p) :
    ∃ added : List Member, symbols = added.map Symbol.member ∧
      ((ms ++ added).map Member.key).Nodup ∧ p = ofMembers d (ms ++ added) := by
  induction symbols generalizing ms with
  | nil =>
      refine ⟨[], rfl, by simpa using hms, ?_⟩
      rw [List.append_nil]
      exact (Except.ok.inj h).symm
  | cons s symbols ih =>
      rw [List.foldlM_cons] at h
      cases s with
      | entity e => cases h
      | package q => cases h
      | member m =>
          simp only [add, addMember_ofMembers] at h
          split at h
          · cases h
          · next hnew =>
              have hkeys : ((ms ++ [m]).map Member.key).Nodup := by
                rw [List.map_append, List.map_singleton, ← List.concat_eq_append]
                exact hms.concat hnew
              obtain ⟨added, rfl, hadded, rfl⟩ := ih hkeys h
              refine ⟨m :: added, rfl, ?_, ?_⟩
              · rwa [List.append_cons ms m added]
              · rw [List.append_cons ms m added]

/-- **Which symbols are taken up** by an empty package, and what they make of it. -/
theorem foldlM_add_eq_ok_iff :
    symbols.foldlM add (.ofDeclaration d) = .ok p ↔
      Fits symbols ∧ p = ofMembers d (Symbol.membersOf symbols) := by
  have hempty : ofDeclaration d = ofMembers d [] := rfl
  rw [hempty]
  constructor
  · intro h
    have hnil : (([] : List Member).map Member.key).Nodup := List.nodup_nil
    obtain ⟨added, rfl, hkeys, rfl⟩ := exists_members_of_foldlM_add hnil h
    rw [List.nil_append] at hkeys ⊢
    refine ⟨⟨?_, by simpa using hkeys⟩, by rw [Symbol.membersOf_map_member]⟩
    intro s hs
    obtain ⟨m, -, rfl⟩ := List.mem_map.1 hs
    rfl
  · rintro ⟨hfits, rfl⟩
    have hadd : (Symbol.membersOf symbols).foldlM addMember (ofMembers d []) =
        .ok (ofMembers d ([] ++ Symbol.membersOf symbols)) :=
      foldlM_addMember_eq_ok hfits.distinct
    rw [← Symbol.map_membersOf hfits.members, List.foldlM_map, Symbol.membersOf_map_member]
    exact hadd

/-! ### Lookups as sorts -/

/-- Members, one category after another. -/
def byCategory (ms : List Member) : List Member :=
  Category.all.flatMap fun c => ms.filter (·.category = c)

theorem byCategory_perm (ms : List Member) : (byCategory ms).Perm ms :=
  perm_flatMap_filter Member.category (by decide) fun m _ => by cases m.category <;> decide

theorem entries_ofMembers (d : Declaration) (ms : List Member) :
    (ofMembers d ms).entries = (byCategory ms).map fun m => (m.declaration.id, m) := by
  rw [entries, byCategory, List.map_flatMap]
  exact List.flatMap_congr fun c _ => by rw [table_ofMembers, tableOf]

theorem members_ofMembers_perm (d : Declaration) (ms : List Member) :
    (ofMembers d ms).members.Perm ms := by
  rw [members, entries_ofMembers, List.map_map]
  exact (List.map_id _).symm ▸ byCategory_perm ms

/-- A lookup by name sorts the members that have the name. -/
theorem pick_map (ms : List Member) (name : String) :
    pick (ms.map fun m => (m.declaration.id, m)) name =
      (ms.filter fun m => m.declaration.name = name).mergeSort
        fun a b => a.declaration.lineLe b.declaration := by
  rw [pick, List.filter_map, List.map_map]
  exact congrArg (List.mergeSort · _) (List.map_id _)

theorem named_ofMembers (d : Declaration) (ms : List Member) (name : String) :
    (ofMembers d ms).named name =
      ((byCategory ms).filter fun m => m.declaration.name = name).mergeSort
        fun a b => a.declaration.lineLe b.declaration := by
  rw [named, entries_ofMembers, pick_map]

theorem namedIn_ofMembers (d : Declaration) (ms : List Member) (c : Category) (name : String) :
    (ofMembers d ms).namedIn c name =
      ((ms.filter (·.category = c)).filter fun m => m.declaration.name = name).mergeSort
        fun a b => a.declaration.lineLe b.declaration := by
  rw [namedIn, table_ofMembers, tableOf, pick_map]

/-- Two members of one category with one name and one line are the same. -/
theorem eq_of_id_eq (hkeys : (ms.map Member.key).Nodup) {c : Category} {a b : Member}
    (ha : a ∈ ms.filter (·.category = c)) (hb : b ∈ ms.filter (·.category = c))
    (hid : a.declaration.id = b.declaration.id) : a = b := by
  simp only [List.mem_filter, decide_eq_true_eq] at ha hb
  refine List.inj_on_of_nodup_map hkeys ha.1 hb.1 ?_
  rw [Member.key, Member.key, ha.2, hb.2, hid]

/-- So a lookup in one category has no ties. -/
theorem eq_of_ties_line (hkeys : (ms.map Member.key).Nodup) {c : Category} {name : String}
    {a b : Member} (ha : a ∈ (ms.filter (·.category = c)).filter fun m => m.declaration.name = name)
    (hb : b ∈ (ms.filter (·.category = c)).filter fun m => m.declaration.name = name)
    (htie : ties (fun a b : Member => a.declaration.lineLe b.declaration) a b = true) : a = b := by
  obtain ⟨hac, han⟩ := List.mem_filter.1 ha
  obtain ⟨hbc, hbn⟩ := List.mem_filter.1 hb
  obtain ⟨hab, hba⟩ := ties_iff.1 htie
  refine eq_of_id_eq hkeys hac hbc ?_
  rw [Declaration.id, Declaration.id, of_decide_eq_true han, of_decide_eq_true hbn,
    Declaration.line_eq_of_lineLe hab hba]

/-! ### Members in another order -/

/-- Consumers cannot tell the members of the two packages apart. -/
structure SameAnswers (p q : Package) : Prop where
  named : ∀ name, p.named name = q.named name
  namedIn : ∀ c name, p.namedIn c name = q.namedIn c name
  names : ∀ c, p.names c = q.names c
  innerNames : p.innerNames = q.innerNames
  size : p.size = q.size
  codeSummary : p.codeSummary = q.codeSummary

section Permutation

variable (hkeys : (ms.map Member.key).Nodup) (hp : ms.Perm ms')
include hkeys hp

/-- **The members of a category with a given name** come by line. -/
theorem namedIn_perm (c : Category) (name : String) :
    (ofMembers d ms).namedIn c name = (ofMembers d ms').namedIn c name := by
  rw [namedIn_ofMembers, namedIn_ofMembers]
  exact mergeSort_eq_of_perm sortOrder_line (fun a ha b hb => eq_of_ties_line hkeys ha hb)
    ((hp.filter _).filter _)

/-- **All members with a given name** come by line and file.  Where members of several categories
have the same line and file, they stand in the order of the categories. -/
theorem named_eq_of_perm (name : String) :
    (ofMembers d ms).named name = (ofMembers d ms').named name := by
  rw [named_ofMembers, named_ofMembers, byCategory, byCategory, List.filter_flatMap,
    List.filter_flatMap]
  exact mergeSort_flatMap_eq_of_perm sortOrder_line (fun c _ => (hp.filter _).filter _)
    fun c _ a ha b hb => eq_of_ties_line hkeys ha hb

theorem ordered_perm (c : Category) : (ofMembers d ms).ordered c = (ofMembers d ms').ordered c := by
  rw [ordered, ordered, table_ofMembers, table_ofMembers, values_tableOf, values_tableOf]
  refine mergeSort_eq_of_perm sortOrder_id (fun a ha b hb htie => ?_) (hp.filter _)
  obtain ⟨hab, hba⟩ := ties_iff.1 htie
  refine eq_of_id_eq hkeys ha hb (SymbolId.key_injective ?_)
  exact le_antisymm ((SymbolId.le_iff _ _).1 hab) ((SymbolId.le_iff _ _).1 hba)

theorem codeSummary_perm : (ofMembers d ms).codeSummary = (ofMembers d ms').codeSummary := by
  have hordered : (ofMembers d ms).ordered = (ofMembers d ms').ordered :=
    funext (ordered_perm hkeys hp)
  rw [codeSummary_eq (sound_ofMembers hkeys),
    codeSummary_eq (sound_ofMembers ((hp.map _).nodup_iff.1 hkeys)), headerBlocks, headerBlocks,
    hordered]

omit hkeys in
theorem names_perm (c : Category) : (ofMembers d ms).names c = (ofMembers d ms').names c := by
  have hnames : (((ofMembers d ms).table c).keys.map SymbolId.name).Perm
      (((ofMembers d ms').table c).keys.map SymbolId.name) := by
    rw [table_ofMembers, table_ofMembers]
    exact (((hp.filter _).map _).map _).map _
  unfold names
  dsimp only
  split
  · exact sortNames_eq_of_perm (eraseDups_perm hnames)
  · exact sortNames_eq_of_perm hnames

omit hkeys in
theorem entries_perm : (ofMembers d ms).entries.Perm (ofMembers d ms').entries := by
  rw [entries_ofMembers, entries_ofMembers]
  exact ((byCategory_perm ms).trans (hp.trans (byCategory_perm ms').symm)).map _

/-- **Members in another order** give the same answers. -/
theorem sameAnswers_ofMembers : (ofMembers d ms).SameAnswers (ofMembers d ms') where
  named := named_eq_of_perm hkeys hp
  namedIn := namedIn_perm hkeys hp
  names := names_perm hp
  innerNames := sortNames_eq_of_perm ((entries_perm hp).map _)
  size := (entries_perm hp).length_eq
  codeSummary := codeSummary_perm hkeys hp

end Permutation

/-! ### What a lookup finds -/

/-- Exactly the members that have the name are found. -/
theorem named_ofMembers_perm (d : Declaration) (ms : List Member) (name : String) :
    ((ofMembers d ms).named name).Perm (ms.filter fun m => m.declaration.name = name) := by
  rw [named_ofMembers]
  exact (List.mergeSort_perm ..).trans ((byCategory_perm ms).filter _)

/-- What is found comes in the order of the lines. -/
theorem pairwise_named (p : Package) (name : String) :
    (p.named name).Pairwise fun a b => a.declaration.line ≤ b.declaration.line := by
  refine (List.pairwise_mergeSort sortOrder_line.trans sortOrder_line.total _).imp ?_
  intro a b hab
  simp only [Declaration.lineLe, Bool.or_eq_true, Bool.and_eq_true, decide_eq_true_eq] at hab
  rcases hab with hlt | ⟨heq, -⟩
  · exact le_of_lt hlt
  · exact le_of_eq heq

/-- Something is found for the names that are listed, and for no others. -/
theorem named_ne_nil_iff (p : Package) (name : String) :
    p.named name ≠ [] ↔ name ∈ p.innerNames := by
  rw [innerNames, sortNames, List.mem_mergeSort, List.mem_map]
  constructor
  · intro hne
    obtain ⟨m, hm⟩ := List.exists_mem_of_ne_nil _ hne
    obtain ⟨i, hi, hname⟩ := mem_pick.1 hm
    exact ⟨(i, m), hi, hname⟩
  · rintro ⟨⟨i, m⟩, hi, hname⟩
    exact List.ne_nil_of_mem (mem_pick.2 ⟨i, hi, hname⟩)

end Package

/-- **Packages depend only on the set of their members.**  Let an empty package take up some
symbols, one after another, without refusing any.  Then it takes them up in every other order as
well, and both packages give the same answers: to lookups by name in all categories or in one, in
the same order, to all lists of names, and for their size and their summary.  A lookup finds exactly
the symbols that have the name, each of them once, with ascending lines; and it finds any if and
only if the name is listed. -/
theorem member_order_invisible (d : Declaration) (symbols symbols' : List Symbol) (p : Package)
    (hp : symbols.foldlM Package.add (.ofDeclaration d) = .ok p) (hperm : symbols.Perm symbols') :
    (∃ q, symbols'.foldlM Package.add (.ofDeclaration d) = .ok q ∧ p.SameAnswers q) ∧
    ∀ name,
      ((p.named name).map Symbol.member).Perm (symbols.filter fun s => s.declaration.name = name) ∧
      (p.named name).Nodup ∧
      ((p.named name).Pairwise fun a b => a.declaration.line ≤ b.declaration.line) ∧
      (p.named name ≠ [] ↔ name ∈ p.innerNames) := by
  obtain ⟨hfits, rfl⟩ := Package.foldlM_add_eq_ok_iff.1 hp
  refine ⟨⟨_, Package.foldlM_add_eq_ok_iff.2 ⟨hfits.perm hperm, rfl⟩, ?_⟩, fun name => ?_⟩
  · exact Package.sameAnswers_ofMembers hfits.distinct (hperm.filterMap _)
  · have hfound := Package.named_ofMembers_perm d (Symbol.membersOf symbols) name
    refine ⟨?_, ?_, Package.pairwise_named _ name, Package.named_ne_nil_iff _ name⟩
    · have hsymbols : (symbols.filter fun s => decide (s.declaration.name = name)) =
          ((Symbol.membersOf symbols).filter fun m => m.declaration.name = name).map
            Symbol.member := by
        rw [← Symbol.map_membersOf hfits.members, List.filter_map, Symbol.membersOf_map_member]
        rfl
      rw [hsymbols]
      exact hfound.map _
    · have hnodup : (Symbol.membersOf symbols).Nodup := hfits.distinct.of_map _
      exact hfound.nodup_iff.2 (hnodup.filter _)

/-- A type, a function and a constant that share name, line and file, with another constant of that
name above them; and all of these the other way round. -/
theorem member_order_invisible_sample :
    let declared (name : String) (line : Int) : Declaration :=
      ⟨"p.vhd", name, line, "work.p", 0, 0, 0, 9, "", ""⟩
    let symbols : List Symbol := [.member ⟨.type, declared "x" 5, "record"⟩,
      .member ⟨.function, declared "x" 5, ""⟩, .member ⟨.constant, declared "x" 2, ""⟩,
      .member ⟨.constant, declared "x" 5, ""⟩]
    ∃ p q, symbols.foldlM Package.add (.ofDeclaration (declared "p" 1)) = .ok p ∧
      symbols.reverse.foldlM Package.add (.ofDeclaration (declared "p" 1)) = .ok q ∧
      (p.table .constant).keys = (q.table .constant).keys.reverse ∧ p.SameAnswers q ∧
      (q.named "x").map (fun m => (m.category, m.declaration.line)) =
        [(.constant, 2), (.constant, 5), (.function, 5), (.type, 5)] := by
  intro declared symbols
  obtain ⟨p, hp⟩ : ∃ p, symbols.foldlM Package.add (.ofDeclaration (declared "p" 1)) = .ok p :=
    ⟨_, rfl⟩
  obtain ⟨⟨q, hq, hsame⟩, -⟩ := member_order_invisible _ symbols _ p hp symbols.reverse_perm.symm
  refine ⟨p, q, hp, hq, ?_, hsame, ?_⟩
  · obtain rfl := Except.ok.inj hp
    obtain rfl := Except.ok.inj hq
    rfl
  · rw [← hsame.named]
    obtain rfl := Except.ok.inj hp
    exact congrArg _ (List.mergeSort_of_pairwise (by decide))

end VhdlCatalog
