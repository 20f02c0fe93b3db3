import VhdlCatalog.Proofs.DisplayOrder

/-!
**A library is its list of units.**

Units are added to a library one by one, each to the table of its kind, and an addition can be
refused.  When none is refused, the library is known from the list of the units that were added.
Whether an addition is refused depends on the keys in that list and not on their order, and so do
all answers a library gives: they are sorted, and no two units of a library are equal as far as the
sort can see, except an entity and a package, which always come in this order.

Main definitions:

* `VhdlCatalog.Symbol.key` — what a library tells its units apart by;
* `VhdlCatalog.Library.ofUnits` — the library with given units;
* `VhdlCatalog.Library.refusal?` — why a library refuses a symbol;
* `VhdlCatalog.Library.Fits` — symbols that a library takes up, one after another.

Main results:

* `VhdlCatalog.Library.addAll_ofUnits` — **several additions**: either all fit, or the first one
  that does not is refused;
* `VhdlCatalog.Library.fits_append` — one list of symbols after another;
* `VhdlCatalog.Library.units_perm`, `VhdlCatalog.Library.named_perm`,
  `VhdlCatalog.Library.entityNames_perm`, `VhdlCatalog.Library.packageNames_perm` — **the order of
  insertion** does not show in the answers of a library.
-/

set_option relaxedAutoImplicit false
set_option autoImplicit false

namespace VhdlCatalog

/-! ### Units -/

namespace Symbol

/-- What a library tells its units apart by: the kind, and name and line within it. -/
def key (s : Symbol) : Kind × SymbolId := (s.kind, s.declaration.id)

/-- The symbol can stand in a library. -/
def isUnit : Symbol → Bool
  | entity _ | package _ => true
  | member _ => false

/-- The entry of an entity in a library. -/
def entityOf? : Symbol → Option (SymbolId × Declaration)
  | entity d => some (d.id, d)
  | _ => none

/-- The entry of a package in a library. -/
def packageOf? : Symbol → Option (SymbolId × Package)
  | package p => some (p.declaration.id, p)
  | _ => none

/-- The symbol is of the kind. -/
def isOf (kind : Kind) (s : Symbol) : Bool := decide (s.kind = kind)

/-- `part?` gives the entries of the units of one kind, which are those that `wrap` makes. -/
structure Enters {β : Type} (kind : Kind) (wrap : β → Symbol)
    (part? : Symbol → Option (SymbolId × β)) : Prop where
  some : ∀ b, part? (wrap b) = some ((wrap b).declaration.id, b)
  none : ∀ s : Symbol, s.kind ≠ kind → part? s = none
  wraps : ∀ s : Symbol, s.kind = kind → ∃ b, s = wrap b

theorem kind_member_ne (m : Member) :
    (member m).kind ≠ .entity ∧ (member m).kind ≠ .package := by
  obtain ⟨category, d, form⟩ := m
  cases category <;> exact ⟨by simp [kind, Category.kind], by simp [kind, Category.kind]⟩

theorem enters_entity : Enters .entity entity entityOf? where
  some _ := rfl
  none s hs := by
    cases s with
    | entity d => exact absurd rfl hs
    | package p => rfl
    | member m => rfl
  wraps s hs := by
    cases s with
    | entity d => exact ⟨d, rfl⟩
    | package p => cases hs
    | member m => exact absurd hs (kind_member_ne m).1

theorem enters_package : Enters .package package packageOf? where
  some _ := rfl
  none s hs := by
    cases s with
    | entity d => rfl
    | package p => exact absurd rfl hs
    | member m => rfl
  wraps s hs := by
    cases s with
    | entity d => cases hs
    | package p => exact ⟨p, rfl⟩
    | member m => exact absurd hs (kind_member_ne m).2

namespace Enters

variable {β : Type} {kind : Kind} {wrap : β → Symbol} {part? : Symbol → Option (SymbolId × β)}

/-- The entries of one kind are the symbols of that kind, in the same order. -/
theorem map_entries (h : Enters kind wrap part?) (us : List Symbol) :
    (us.filterMap part?).map (fun e => (e.1, wrap e.2)) =
      (us.filter (·.isOf kind)).map fun s => (s.declaration.id, s) := by
  induction us with
  | nil => rfl
  | cons s us ih =>
      by_cases hs : s.kind = kind
      · obtain ⟨b, rfl⟩ := h.wraps s hs
        rw [List.filterMap_cons_some (h.some b), List.filter_cons_of_pos (by simpa [isOf] using hs),
          List.map_cons, List.map_cons, ih]
      · rw [List.filterMap_cons_none (h.none s hs),
          List.filter_cons_of_neg (by simpa [isOf] using hs), ih]

theorem keys_entries (h : Enters kind wrap part?) (us : List Symbol) :
    (us.filterMap part?).map Prod.fst =
      (us.filter (·.isOf kind)).map fun s => s.declaration.id := by
  have hmap := congrArg (List.map Prod.fst) (h.map_entries us)
  rwa [List.map_map, List.map_map] at hmap

theorem mem_keys_iff (h : Enters kind wrap part?) (us : List Symbol) (id : SymbolId) :
    id ∈ (us.filterMap part?).map Prod.fst ↔ (kind, id) ∈ us.map key := by
  rw [h.keys_entries, List.mem_map, List.mem_map]
  constructor
  · rintro ⟨s, hs, rfl⟩
    obtain ⟨hs, hk⟩ := List.mem_filter.1 hs
    exact ⟨s, hs, by rw [key, of_decide_eq_true hk]⟩
  · rintro ⟨s, hs, hkey⟩
    obtain ⟨hk, hid⟩ := Prod.mk.inj hkey
    exact ⟨s, List.mem_filter.2 ⟨hs, decide_eq_true hk⟩, hid⟩

end Enters

end Symbol

namespace Library

/-- The library with the given units. -/
def ofUnits (name : String) (us : List Symbol) : Library where
  name := name
  entities := ⟨us.filterMap Symbol.entityOf?⟩
  packages := ⟨us.filterMap Symbol.packageOf?⟩

@[simp] theorem name_ofUnits (name : String) (us : List Symbol) : (ofUnits name us).name = name :=
  rfl

@[simp] theorem ofUnits_nil (name : String) : ofUnits name [] = ofName name := rfl

/-! ### Additions -/

/-- Why the library called `name` with the units `us` refuses a symbol. -/
def refusal? (name : String) (us : List Symbol) (s : Symbol) : Option Error :=
  if !s.isUnit then some (.notAUnit s.kind)
  else if s.key ∈ us.map Symbol.key then
    some (.duplicate s.declaration.filepath s.declaration.name s.declaration.line name)
  else none

theorem refusal?_eq_none_iff {name : String} {us : List Symbol} {s : Symbol} :
    refusal? name us s = none ↔ s.isUnit = true ∧ s.key ∉ us.map Symbol.key := by
  cases hu : s.isUnit with
  | false => simp [refusal?, hu]
  | true =>
      by_cases hk : s.key ∈ us.map Symbol.key
      · simp [refusal?, hu, hk]
      · simp [refusal?, hu, hk]

theorem contains_entities {name : String} {us : List Symbol} {d : Declaration} :
    (ofUnits name us).entities.contains d.id = true ↔
      (Symbol.entity d).key ∈ us.map Symbol.key :=
  decide_eq_true_iff.trans (Symbol.enters_entity.mem_keys_iff us d.id)

theorem contains_packages {name : String} {us : List Symbol} {p : Package} :
    (ofUnits name us).packages.contains p.declaration.id = true ↔
      (Symbol.package p).key ∈ us.map Symbol.key :=
  decide_eq_true_iff.trans (Symbol.enters_package.mem_keys_iff us p.declaration.id)

/-- **One addition** is refused, or appends to the list of units. -/
theorem add_ofUnits (name : String) (us : List Symbol) (s : Symbol) :
    (ofUnits name us).add s =
      match refusal? name us s with
      | some e => .error e
      | none => .ok (ofUnits name (us ++ [s])) := by
  cases s with
  | entity d =>
      by_cases hk : (Symbol.entity d).key ∈ us.map Symbol.key
      · simp [add, contains_entities, refusal?, Symbol.isUnit, hk, taken, Symbol.declaration]
      · simp only [add, contains_entities, refusal?, Symbol.isUnit, hk]
        simp [ofUnits, Table.push, Symbol.entityOf?, Symbol.packageOf?]
  | package p =>
      by_cases hk : (Symbol.package p).key ∈ us.map Symbol.key
      · simp [add, contains_packages, refusal?, Symbol.isUnit, hk, taken, Symbol.declaration]
      · simp only [add, contains_packages, refusal?, Symbol.isUnit, hk]
        simp [ofUnits, Table.push, Symbol.entityOf?, Symbol.packageOf?]
  | member m => rfl

/-- The symbols are units with keys of their own, none of which is there already. -/
structure Fits (us added : List Symbol) : Prop where
  units : ∀ s ∈ added, s.isUnit = true
  distinct : (added.map Symbol.key).Nodup
  fresh : ∀ s ∈ added, s.key ∉ us.map Symbol.key

theorem fits_nil (us : List Symbol) : Fits us [] :=
  ⟨by simp, List.nodup_nil, by simp⟩

/-- One list of symbols after another. -/
theorem fits_append {us as bs : List Symbol} :
    Fits us (as ++ bs) ↔ Fits us as ∧ Fits (us ++ as) bs := by
  constructor
  · rintro ⟨hunits, hdistinct, hfresh⟩
    rw [List.map_append] at hdistinct
    obtain ⟨has, hbs, hapart⟩ := List.nodup_append.1 hdistinct
    refine ⟨⟨fun s hs => hunits s (by simp [hs]), has, fun s hs => hfresh s (by simp [hs])⟩,
      ⟨fun s hs => hunits s (by simp [hs]), hbs, fun s hs hmem => ?_⟩⟩
    rw [List.map_append, List.mem_append] at hmem
    rcases hmem with hmem | hmem
    · exact hfresh s (by simp [hs]) hmem
    · exact hapart _ hmem _ (List.mem_map_of_mem hs) rfl
  · rintro ⟨has, hbs⟩
    refine ⟨fun s hs => ?_, ?_, fun s hs => ?_⟩
    · rcases List.mem_append.1 hs with hs | hs
      · exact has.units s hs
      · exact hbs.units s hs
    · rw [List.map_append]
      refine List.nodup_append.2 ⟨has.distinct, hbs.distinct, fun k hk k' hk' heq => ?_⟩
      obtain ⟨s, hs, rfl⟩ := List.mem_map.1 hk'
      refine hbs.fresh s hs ?_
      rw [List.map_append, ← heq]
      exact List.mem_append_right _ hk
    · rcases List.mem_append.1 hs with hs | hs
      · exact has.fresh s hs
      · exact fun hmem => hbs.fresh s hs (by
          rw [List.map_append]
          exact List.mem_append_left _ hmem)

theorem fits_singleton {name : String} {us : List Symbol} {s : Symbol} :
    Fits us [s] ↔ refusal? name us s = none := by
  rw [refusal?_eq_none_iff]
  exact ⟨fun h => ⟨h.units s (by simp), h.fresh s (by simp)⟩,
    fun h => ⟨by simpa using h.1, by simp, by simpa using h.2⟩⟩

/-- **Several additions**: all symbols fit and are appended to the list of units, or the first one
that does not fit is refused. -/
theorem addAll_ofUnits (name : String) (us added : List Symbol) :
    (Fits us added ∧ (ofUnits name us).addAll added = .ok (ofUnits name (us ++ added))) ∨
    ∃ as s bs e, added = as ++ s :: bs ∧ Fits us as ∧ refusal? name (us ++ as) s = some e ∧
      (ofUnits name us).addAll added = .error e := by
  induction added generalizing us with
  | nil => exact Or.inl ⟨fits_nil us, by rw [List.append_nil]; rfl⟩
  | cons s added ih =>
      have hcons : (ofUnits name us).addAll (s :: added) =
          ((ofUnits name us).add s).bind fun lib => lib.addAll added := rfl
      rw [add_ofUnits] at hcons
      cases hs : refusal? name us s with
      | some e =>
          rw [hs] at hcons
          exact Or.inr ⟨[], s, added, e, rfl, fits_nil us, by rwa [List.append_nil], hcons⟩
      | none =>
          rw [hs] at hcons
          have hfits : Fits us [s] := fits_singleton.2 hs
          rcases ih (us ++ [s]) with ⟨hrest, hadd⟩ | ⟨as, s', bs, e, rfl, has, hs', hadd⟩
          · refine Or.inl ⟨fits_append.2 ⟨hfits, hrest⟩, ?_⟩
            rw [hcons, Except.bind, hadd, List.append_assoc, List.singleton_append]
          · refine Or.inr ⟨s :: as, s', bs, e, rfl, fits_append.2 ⟨hfits, has⟩, ?_, ?_⟩
            · rwa [List.append_assoc, List.singleton_append] at hs'
            · rw [hcons, Except.bind, hadd]

/-- A symbol that is refused does not fit, wherever it stands. -/
theorem not_fits_of_refusal {name : String} {us added as bs : List Symbol} {s : Symbol} {e : Error}
    (hadded : added = as ++ s :: bs) (hs : refusal? name (us ++ as) s = some e) :
    ¬Fits us added := by
  intro h
  rw [hadded] at h
  have hfits : Fits (us ++ as) [s] := (fits_append.1 (fits_append.1 h).2).1
  rw [fits_singleton.1 hfits] at hs
  cases hs

theorem addAll_of_fits {name : String} {us added : List Symbol} (h : Fits us added) :
    (ofUnits name us).addAll added = .ok (ofUnits name (us ++ added)) := by
  rcases addAll_ofUnits name us added with ⟨-, hadd⟩ | ⟨as, s, bs, e, hadded, -, hs, -⟩
  · exact hadd
  · exact absurd h (not_fits_of_refusal hadded hs)

/-! ### Answers -/

/-- The units, entities first. -/
def byKind (us : List Symbol) : List Symbol :=
  us.filter (·.isOf .entity) ++ us.filter (·.isOf .package)

theorem byKind_perm_self {us : List Symbol} (h : ∀ s ∈ us, s.isUnit = true) :
    (byKind us).Perm us := by
  have hrest : us.filter (·.isOf .package) = us.filter fun s => !s.isOf .entity := by
    refine List.filter_congr fun s hs => ?_
    cases s with
    | entity d => rfl
    | package p => rfl
    | member m => cases h _ hs
  rw [byKind, hrest]
  exact List.filter_append_perm _ us

theorem contents_ofUnits (name : String) (us : List Symbol) :
    (ofUnits name us).contents = (byKind us).map fun s => (s.declaration.id, s) := by
  rw [byKind, List.map_append, ← Symbol.enters_entity.map_entries, ←
    Symbol.enters_package.map_entries]
  rfl

theorem units_ofUnits (name : String) (us : List Symbol) :
    (ofUnits name us).units = (byKind us).mergeSort unitLe := by
  rw [units, contents_ofUnits, List.map_map]
  exact congrArg (List.mergeSort · unitLe) (List.map_id _)

/-- All units are shown, each as often as it is there. -/
theorem units_ofUnits_perm (name : String) {us : List Symbol} (h : ∀ s ∈ us, s.isUnit = true) :
    (ofUnits name us).units.Perm us := by
  rw [units_ofUnits]
  exact (List.mergeSort_perm ..).trans (byKind_perm_self h)

theorem named_ofUnits (name unit : String) (us : List Symbol) :
    (ofUnits name us).named unit =
      ((byKind us).filter fun s => s.declaration.name = unit).mergeSort
        fun a b => a.declaration.lineLe b.declaration := by
  rw [named, contents_ofUnits, List.filter_map, List.map_map]
  exact congrArg (List.mergeSort · _) (List.map_id _)

section Permutation

variable {name : String} {us us' : List Symbol}

theorem mem_of_mem_byKind {s : Symbol} (h : s ∈ byKind us) : s ∈ us := by
  rcases List.mem_append.1 h with h | h <;> exact List.mem_of_mem_filter h

theorem byKind_perm (h : us.Perm us') : (byKind us).Perm (byKind us') :=
  (h.filter _).append (h.filter _)

/-- No two units of a library are equal in the order in which they are shown. -/
theorem eq_of_ties_unitLe (hkeys : (us.map Symbol.key).Nodup) {a b : Symbol} (ha : a ∈ us)
    (hb : b ∈ us) (htie : ties unitLe a b = true) : a = b := by
  obtain ⟨hab, hba⟩ := ties_iff.1 htie
  have hkey := le_antisymm ((unitLe_iff a b).1 hab) ((unitLe_iff b a).1 hba)
  simp only [Symbol.unitKey, EmbeddingLike.apply_eq_iff_eq, Prod.mk.injEq] at hkey
  obtain ⟨hname, hline, hlabel, -⟩ := hkey
  refine List.inj_on_of_nodup_map hkeys ha hb ?_
  rw [Symbol.key, Symbol.key, Kind.label_inj hlabel, Declaration.id, Declaration.id, hname, hline]

/-- **The units as they are shown** do not depend on the order of insertion. -/
theorem units_perm (hkeys : (us.map Symbol.key).Nodup) (h : us.Perm us') :
    (ofUnits name us).units = (ofUnits name us').units := by
  rw [units_ofUnits, units_ofUnits]
  refine mergeSort_eq_of_perm sortOrder_unitLe (fun a ha b hb htie => ?_) (byKind_perm h)
  exact eq_of_ties_unitLe hkeys (mem_of_mem_byKind ha) (mem_of_mem_byKind hb) htie

/-- **The units with a given name** do not depend on the order of insertion.  Where an entity and a
package share name, line and file, the entity comes first. -/
theorem named_perm (hkeys : (us.map Symbol.key).Nodup) (h : us.Perm us') (unit : String) :
    (ofUnits name us).named unit = (ofUnits name us').named unit := by
  have hparts : ∀ us : List Symbol, ((byKind us).filter fun s => s.declaration.name = unit) =
      [Kind.entity, Kind.package].flatMap fun kind =>
        (us.filter (·.isOf kind)).filter fun s => s.declaration.name = unit := by
    intro us
    simp [byKind]
  rw [named_ofUnits, named_ofUnits, hparts, hparts]
  refine mergeSort_flatMap_eq_of_perm sortOrder_lineLe (fun kind _ => (h.filter _).filter _) ?_
  intro kind _ x hx y hy htie
  -- of one kind there is at most one unit with the name of `unit` and a given line
  simp only [List.mem_filter, Symbol.isOf, decide_eq_true_eq] at hx hy
  obtain ⟨⟨hxu, hxk⟩, hxn⟩ := hx
  obtain ⟨⟨hyu, hyk⟩, hyn⟩ := hy
  obtain ⟨hxy, hyx⟩ := ties_iff.1 htie
  have hline := Declaration.line_eq_of_lineLe hxy hyx
  refine List.inj_on_of_nodup_map hkeys hxu hyu ?_
  rw [Symbol.key, Symbol.key, hxk, hyk, Declaration.id, Declaration.id, hxn, hyn, hline]

theorem entityNames_perm (h : us.Perm us') :
    (ofUnits name us).entityNames = (ofUnits name us').entityNames :=
  sortNames_eq_of_perm (((h.filterMap _).map _).map _)

theorem packageNames_perm (h : us.Perm us') :
    (ofUnits name us).packageNames = (ofUnits name us').packageNames :=
  sortNames_eq_of_perm (((h.filterMap _).map _).map _)

end Permutation

end Library

end VhdlCatalog
