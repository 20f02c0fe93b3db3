import VhdlCatalog.Proofs.InsertionOrder
import VhdlCatalog.Proofs.PackageMembers

/-!
**What holds of packages and catalogs after any calls.**

Packages are filled symbol by symbol, and then come to a catalog, in calls that may be refused.
Whatever the calls were and whichever of them were refused, every entry stands under its own key, no
key stands twice, and every table holds what its name says.  And nothing that has come in is ever
lost, replaced or moved: every later state has the entries of the earlier one in front of its own.

A package is not changed any more once it has been handed over, so a catalog holds finished
packages.

Main definitions:

* `VhdlCatalog.runCalls` — calls one after another, with what each of them comes to;
* `VhdlCatalog.Package.offerAll` — a package to which symbols are offered;
* `VhdlCatalog.Catalog.Call`, `VhdlCatalog.Catalog.runAll` — the calls that fill a catalog;
* `VhdlCatalog.Table.Keyed`, `VhdlCatalog.Package.Sound`, `VhdlCatalog.Library.Sound`,
  `VhdlCatalog.Catalog.Sound` — every entry under its own key;
* `VhdlCatalog.Package.Extends`, `VhdlCatalog.Library.Extends`, `VhdlCatalog.Catalog.Extends` — a
  later state.

Main results:

* `VhdlCatalog.Package.offer_ofMembers`, `VhdlCatalog.Package.exists_offerAll_eq` — one symbol that
  is offered to a package, and several;
* `VhdlCatalog.Catalog.Call.run_ofBatches`, `VhdlCatalog.Catalog.exists_runCalls_eq` — one call, and
  several: **what has been refused leaves at most an empty library**;
* `VhdlCatalog.runs_sound_and_monotone` — **all runs** are sound, and nothing is lost on the way.
-/

set_option relaxedAutoImplicit false
set_option autoImplicit false

namespace VhdlCatalog

/-! ### Calls one after another -/

section Runs

variable {σ α ε : Type} {call : σ → α → σ × Option ε}

/-- Makes calls one after another, also after a refusal: the state after them, and what each of them
comes to. -/
def runCalls (call : σ → α → σ × Option ε) (s : σ) (xs : List α) : σ × List (Option ε) :=
  xs.foldl (fun r x => ((call r.1 x).1, r.2 ++ [(call r.1 x).2])) (s, [])

@[simp] theorem runCalls_nil (s : σ) : runCalls call s [] = (s, []) := rfl

theorem runCalls_concat (s : σ) (xs : List α) (x : α) :
    runCalls call s (xs ++ [x]) =
      ((call (runCalls call s xs).1 x).1,
        (runCalls call s xs).2 ++ [(call (runCalls call s xs).1 x).2]) := by
  simp [runCalls]

/-- The state after two stretches of calls. -/
theorem fst_runCalls_append (s : σ) (xs ys : List α) :
    (runCalls call s (xs ++ ys)).1 = (runCalls call (runCalls call s xs).1 ys).1 := by
  induction ys using List.reverseRecOn with
  | nil => simp
  | append_singleton ys y ih =>
      rw [← List.append_assoc, runCalls_concat, runCalls_concat, ih]

/-- **What every call respects, a run respects.** -/
theorem rel_runCalls {R : σ → σ → Prop} (hrefl : ∀ s, R s s)
    (htrans : ∀ s t u, R s t → R t u → R s u) (hstep : ∀ s x, R s (call s x).1) (s : σ)
    (xs : List α) : R s (runCalls call s xs).1 := by
  induction xs using List.reverseRecOn with
  | nil => exact hrefl s
  | append_singleton xs x ih =>
      rw [runCalls_concat]
      exact htrans _ _ _ ih (hstep _ x)

end Runs

/-! ### Keys -/

/-- Every value stands under its own key, and no key stands twice. -/
structure Table.Keyed {κ α : Type} (key : α → κ) (t : Table κ α) : Prop where
  own : ∀ e ∈ t.entries, e.1 = key e.2
  nodup : t.keys.Nodup

section Lookup

variable {κ α : Type} [DecidableEq κ] {t : Table κ α} {k : κ}

theorem Table.get?_eq_none (h : t.contains k = false) : t.get? k = none := by
  rw [Table.get?, Option.map_eq_none_iff, List.find?_eq_none]
  intro e he hk
  exact of_decide_eq_false h (List.mem_map.2 ⟨e, he, of_decide_eq_true hk⟩)

/-- Looking up a key in a table with one more entry. -/
theorem Table.get?_push (h : t.contains k = false) (a : α) (j : κ) :
    (t.push k a).get? j = if j = k then some a else t.get? j := by
  simp only [Table.get?, Table.push, List.find?_append]
  by_cases hj : j = k
  · have hnone := Table.get?_eq_none h
    rw [Table.get?, Option.map_eq_none_iff] at hnone
    rw [if_pos hj, hj, hnone]
    simp
  · have hk : ¬k = j := fun heq => hj heq.symm
    simp [hj, hk]

/-- Looking up a key in a table in which a key has got a value. -/
theorem Table.get?_put (t : Table κ α) (k : κ) (a : α) (j : κ) :
    (t.put k a).get? j = if j = k then some a else t.get? j := by
  unfold Table.put
  cases hk : t.contains k with
  | false => exact Table.get?_push hk a j
  | true =>
      -- every entry is found where it was, and that of `k` has got the value
      have hkey : ∀ e : κ × α, (if e.1 = k then (k, a) else e).1 = e.1 := by
        intro e
        split
        · next he => exact he.symm
        · rfl
      rw [if_pos rfl, Table.get?, Table.get?, List.find?_map]
      simp only [Function.comp_def, hkey]
      cases hfind : t.entries.find? fun e => decide (e.1 = j) with
      | none =>
          obtain ⟨e, he, rfl⟩ := List.mem_map.1 (of_decide_eq_true hk)
          have hne : e.1 ≠ j := by simpa using List.find?_eq_none.1 hfind e he
          rw [if_neg hne.symm]
          rfl
      | some e =>
          have he : e.1 = j := by simpa using List.find?_some hfind
          by_cases hj : j = k
          · simp [he, hj]
          · simp [he, hj]

/-- Looking up the key of an entry, where no key stands twice. -/
theorem Table.get?_of_mem {e : κ × α} (hkeys : t.keys.Nodup) (he : e ∈ t.entries) :
    t.get? e.1 = some e.2 := by
  cases hfind : t.entries.find? fun e' => decide (e'.1 = e.1) with
  | none => simpa using List.find?_eq_none.1 hfind e he
  | some e' =>
      have hkey : e'.1 = e.1 := by simpa using List.find?_some hfind
      rw [Table.get?, hfind,
        List.inj_on_of_nodup_map hkeys (List.mem_of_find?_eq_some hfind) he hkey]
      rfl

/-- To put back the value that a key has changes nothing. -/
theorem Table.put_getD (hkeys : t.keys.Nodup) (h : t.contains k = true) (b : α) :
    t.put k ((t.get? k).getD b) = t := by
  obtain ⟨e, he, rfl⟩ := List.mem_map.1 (of_decide_eq_true h)
  have hsame : t.entries.map (fun e' => if e'.1 = e.1 then (e.1, e.2) else e') = t.entries := by
    refine (List.map_congr_left fun e' he' => ?_).trans (List.map_id _)
    by_cases hkey : e'.1 = e.1
    · rw [if_pos hkey, List.inj_on_of_nodup_map hkeys he' he hkey]
      rfl
    · rw [if_neg hkey]
      rfl
  rw [Table.get?_of_mem hkeys he, Option.getD_some, Table.put, if_pos h, hsame]

/-- A new key gets its value at once, or another one before. -/
theorem Table.put_push (h : t.contains k = false) (a b : α) :
    (t.push k b).put k a = t.push k a := by
  have hcontains : (t.push k b).contains k = true := decide_eq_true (by simp)
  have hold : t.entries.map (fun e => if e.1 = k then (k, a) else e) = t.entries := by
    refine (List.map_congr_left fun e he => ?_).trans (List.map_id _)
    rw [if_neg fun heq => of_decide_eq_false h (List.mem_map.2 ⟨e, he, heq⟩)]
    rfl
  rw [Table.put, if_pos hcontains, Table.push, List.map_append, hold]
  simp [Table.push]

end Lookup

/-- Where pairs of parts are distinct, the second parts of those with one first part are. -/
theorem nodup_map_filter {α κ ι : Type} [DecidableEq κ] {f : α → κ} {g : α → ι} {xs : List α}
    (h : (xs.map fun x => (f x, g x)).Nodup) (k : κ) :
    ((xs.filter fun x => decide (f x = k)).map g).Nodup := by
  have hsub : ((xs.filter fun x => decide (f x = k)).map fun x => (f x, g x)).Nodup :=
    h.sublist (List.filter_sublist.map _)
  refine List.pairwise_map.2 ((List.pairwise_map.1 hsub).imp_of_mem fun {x y} hx hy hne heq => ?_)
  have hfx : f x = k := by simpa using List.of_mem_filter hx
  have hfy : f y = k := by simpa using List.of_mem_filter hy
  exact hne (by rw [hfx, hfy, heq])

/-- A table whose keys are computed from the values. -/
theorem Table.keyed_map {κ α : Type} {key : α → κ} {xs : List α} (h : (xs.map key).Nodup) :
    (Table.mk (xs.map fun x => (key x, x))).Keyed key where
  own := by
    intro e he
    obtain ⟨x, -, rfl⟩ := List.mem_map.1 he
    rfl
  nodup := by rwa [Table.keys, List.map_map]

/-! ### Packages -/

namespace Package

/-- The package with a symbol that is offered to it.  A symbol that is refused leaves it alone. -/
def offer (p : Package) (s : Symbol) : Package × Option Error :=
  match p.add s with
  | .ok p' => (p', none)
  | .error e => (p, some e)

/-- The package with the given declaration to which symbols have been offered one after another, and
what each offer came to. -/
def offerAll (d : Declaration) (symbols : List Symbol) : Package × List (Option Error) :=
  runCalls offer (.ofDeclaration d) symbols

/-- Every member stands under its own key, once, and in the table of its category. -/
structure Sound (p : Package) : Prop where
  keyed : ∀ c, (p.table c).Keyed fun m => m.declaration.id
  category : ∀ c, ∀ m ∈ (p.table c).values, m.category = c

/-- The package `q` has the members of `p` in front of its own. -/
structure Extends (p q : Package) : Prop where
  declaration : q.declaration = p.declaration
  tables : ∀ c, (p.table c).entries <+: (q.table c).entries

theorem Extends.refl (p : Package) : p.Extends p :=
  ⟨rfl, fun _ => List.prefix_refl _⟩

theorem Extends.trans {p q r : Package} (h : p.Extends q) (h' : q.Extends r) : p.Extends r :=
  ⟨h'.declaration.trans h.declaration, fun c => (h.tables c).trans (h'.tables c)⟩

/-- A member that is added goes to the end of its table. -/
theorem extends_of_addMember {p q : Package} {m : Member} (h : p.addMember m = .ok q) :
    p.Extends q := by
  simp only [addMember] at h
  split at h
  · cases h
  · obtain rfl := Except.ok.inj h
    refine ⟨declaration_setTable .., fun c => ?_⟩
    by_cases hc : m.category = c
    · subst hc
      rw [table_setTable_self]
      exact List.prefix_append _ _
    · exact ⟨[], by rw [table_setTable_of_ne _ hc, List.append_nil]⟩

theorem extends_offer (p : Package) (s : Symbol) : p.Extends (p.offer s).1 := by
  cases s with
  | member m =>
      simp only [offer, add]
      cases hm : p.addMember m with
      | ok q => exact extends_of_addMember hm
      | error e => exact .refl p
  | entity d => exact .refl p
  | package q => exact .refl p

/-- **Nothing is lost** when more symbols are offered. -/
theorem extends_offerAll (d : Declaration) (symbols more : List Symbol) :
    (offerAll d symbols).1.Extends (offerAll d (symbols ++ more)).1 := by
  rw [offerAll, offerAll, fst_runCalls_append]
  exact rel_runCalls Extends.refl (fun _ _ _ => Extends.trans) extends_offer _ more

/-- **A symbol that is refused** leaves the package as it was. -/
theorem offer_of_refused {p : Package} {s : Symbol} {e : Error} (h : (p.offer s).2 = some e) :
    (p.offer s).1 = p := by
  unfold offer at h ⊢
  split at h
  · cases h
  · rfl

/-- **A symbol that is accepted** is a member, and stands in the table of its category. -/
theorem mem_table_of_accepted {p : Package} {s : Symbol} (h : (p.offer s).2 = none) :
    ∃ m, s = .member m ∧ (m.declaration.id, m) ∈ ((p.offer s).1.table m.category).entries := by
  cases s with
  | entity d => cases h
  | package q => cases h
  | member m =>
      refine ⟨m, rfl, ?_⟩
      simp only [offer, add, addMember] at h ⊢
      split at h
      · next hadd =>
          split at hadd
          · cases hadd
          · obtain rfl := Except.ok.inj hadd
            simp [*, Table.push]
      · cases h

/-- **One offer**: a member with a new key is appended to the list of members, and all else is
refused. -/
theorem offer_ofMembers (d : Declaration) (ms : List Member) (s : Symbol) :
    (∃ m, s = .member m ∧ m.key ∉ ms.map Member.key ∧
      (ofMembers d ms).offer s = (ofMembers d (ms ++ [m]), none)) ∨
    ∃ e, (ofMembers d ms).offer s = (ofMembers d ms, some e) := by
  cases s with
  | entity d' => exact Or.inr ⟨_, rfl⟩
  | package q => exact Or.inr ⟨_, rfl⟩
  | member m =>
      simp only [offer, add, addMember_ofMembers]
      by_cases hm : m.key ∈ ms.map Member.key
      · exact Or.inr ⟨_, by rw [if_pos hm]⟩
      · exact Or.inl ⟨m, rfl, hm, by rw [if_neg hm]⟩

/-- **Several offers**: the package has the members that were not refused, which have keys of their
own. -/
theorem exists_offerAll_eq (d : Declaration) (symbols : List Symbol) :
    ∃ ms : List Member, (offerAll d symbols).1 = ofMembers d ms ∧ (ms.map Member.key).Nodup ∧
      ms.length = (offerAll d symbols).2.count none := by
  induction symbols using List.reverseRecOn with
  | nil => exact ⟨[], rfl, List.nodup_nil, rfl⟩
  | append_singleton symbols s ih =>
      obtain ⟨ms, hpackage, hkeys, hlength⟩ := ih
      rw [offerAll] at hpackage hlength
      rw [offerAll, runCalls_concat, hpackage]
      rcases offer_ofMembers d ms s with ⟨m, -, hm, hoffer⟩ | ⟨e, hoffer⟩
      · refine ⟨ms ++ [m], by rw [hoffer], ?_, ?_⟩
        · rw [List.map_append, List.map_singleton, List.nodup_append]
          refine ⟨hkeys, List.nodup_singleton _, ?_⟩
          intro k hk k' hk' heq
          rw [List.mem_singleton.1 hk'] at heq
          exact hm (heq ▸ hk)
        · rw [hoffer, List.length_append, List.count_append, hlength]
          rfl
      · refine ⟨ms, by rw [hoffer], hkeys, ?_⟩
        rw [hoffer, List.count_append, hlength]
        rfl

theorem sound_ofMembers {d : Declaration} {ms : List Member} (h : (ms.map Member.key).Nodup) :
    (ofMembers d ms).Sound where
  keyed c := by
    rw [table_ofMembers]
    exact Table.keyed_map (nodup_map_filter h c)
  category c := by
    intro m hm
    rw [table_ofMembers, values_tableOf] at hm
    simpa using List.of_mem_filter hm

theorem sound_offerAll (d : Declaration) (symbols : List Symbol) :
    (offerAll d symbols).1.Sound := by
  obtain ⟨ms, hpackage, hkeys, -⟩ := exists_offerAll_eq d symbols
  rw [hpackage]
  exact sound_ofMembers hkeys

/-- The five tables have one entry for each member. -/
theorem size_ofMembers (d : Declaration) (ms : List Member) :
    (ofMembers d ms).size = ms.length := by
  induction ms with
  | nil => rfl
  | cons m ms ih =>
      obtain ⟨c, dm, form⟩ := m
      simp only [size, entries, Category.all, table_ofMembers, tableOf, List.flatMap_cons,
        List.flatMap_nil, List.length_append, List.length_map, List.length_nil] at ih ⊢
      cases c <;> simp only [List.filter_cons, decide_true, decide_false, reduceCtorEq, if_true,
        Bool.false_eq_true, if_false, List.length_cons] <;> omega

end Package

/-! ### Libraries -/

namespace Library

/-- Every unit stands under its own key, once, and the packages are sound. -/
structure Sound (lib : Library) : Prop where
  entities : lib.entities.Keyed Declaration.id
  packages : lib.packages.Keyed fun p => p.declaration.id
  members : ∀ p ∈ lib.packages.values, p.Sound

/-- The library `lib'` has the units of `lib` in front of its own. -/
structure Extends (lib lib' : Library) : Prop where
  name : lib'.name = lib.name
  entities : lib.entities.entries <+: lib'.entities.entries
  packages : lib.packages.entries <+: lib'.packages.entries

theorem extends_ofUnits (name : String) (us more : List Symbol) :
    (ofUnits name us).Extends (ofUnits name (us ++ more)) where
  name := rfl
  entities := (List.prefix_append us more).filterMap _
  packages := (List.prefix_append us more).filterMap _

/-- The units of one kind stand under their keys. -/
theorem keyed_filterMap {β : Type} {kind : Kind} {wrap : β → Symbol}
    {part? : Symbol → Option (SymbolId × β)} (h : Symbol.Enters kind wrap part?) {us : List Symbol}
    (hkeys : (us.map Symbol.key).Nodup) :
    (Table.mk (us.filterMap part?)).Keyed fun b => (wrap b).declaration.id where
  own := by
    intro e he
    have hmem : (e.1, wrap e.2) ∈ (us.filterMap part?).map fun e => (e.1, wrap e.2) :=
      List.mem_map_of_mem he
    rw [h.map_entries, List.mem_map] at hmem
    obtain ⟨s, -, hs⟩ := hmem
    obtain ⟨hid, rfl⟩ := Prod.mk.inj hs
    exact hid.symm
  nodup := by
    rw [Table.keys, h.keys_entries]
    exact nodup_map_filter hkeys kind

theorem mem_contents_ofUnits {name : String} {us : List Symbol} {s : Symbol} (hs : s ∈ us)
    (hunit : s.isUnit = true) : (s.declaration.id, s) ∈ (ofUnits name us).contents := by
  rw [contents_ofUnits]
  refine List.mem_map_of_mem (List.mem_append.2 ?_)
  cases s with
  | entity d => exact Or.inl (List.mem_filter.2 ⟨hs, rfl⟩)
  | package p => exact Or.inr (List.mem_filter.2 ⟨hs, rfl⟩)
  | member m => cases hunit

theorem sound_ofUnits {name : String} {us : List Symbol} (hkeys : (us.map Symbol.key).Nodup)
    (hpackages : ∀ p, Symbol.package p ∈ us → p.Sound) : (ofUnits name us).Sound where
  entities := keyed_filterMap Symbol.enters_entity hkeys
  packages := keyed_filterMap Symbol.enters_package hkeys
  members := by
    intro p hp
    obtain ⟨e, he, rfl⟩ := List.mem_map.1 hp
    obtain ⟨s, hs, hpart⟩ := List.mem_filterMap.1 he
    cases s with
    | entity d => cases hpart
    | package q =>
        obtain rfl := Option.some.inj hpart
        exact hpackages q hs
    | member m => cases hpart

end Library

/-! ### Catalogs -/

/-- **A refused insertion** leaves its library behind, which is new and empty or as it was. -/
theorem Insertion.fst_run_of_refused {c : Catalog} {call : Insertion} {e : Error}
    (h : (call.run c).2 = some e) : (call.run c).1 = c.ensure call.batch.library := by
  simp only [run_eq, Catalog.addSymbols, Catalog.update] at h ⊢
  split at h
  · cases h
  · rfl

namespace Catalog

/-- Every library stands under its own name, once, and is sound. -/
structure Sound (c : Catalog) : Prop where
  keyed : c.libraries.Keyed Library.name
  libraries : ∀ lib ∈ c.libraries.values, lib.Sound

/-- The catalog `c'` has the libraries of `c` in front of its own, with all their units. -/
structure Extends (c c' : Catalog) : Prop where
  names : c.libraries.keys <+: c'.libraries.keys
  libraries : ∀ name lib, c.get? name = some lib →
    ∃ lib', c'.get? name = some lib' ∧ lib.Extends lib'

/-- A call that changes a catalog. -/
inductive Call where
  /-- A library is asked for, and made if there is none. -/
  | library (name : String)
  /-- Symbols are brought to a library. -/
  | insertion (call : Insertion)

namespace Call

/-- What the call brings, which may be nothing. -/
def batch : Call → Batch
  | library name => ⟨name, []⟩
  | insertion call => call.batch

/-- Makes the call. -/
def run (c : Catalog) : Call → Catalog × Option Error
  | library name => (c.ensure name, none)
  | insertion call => call.run c

/-- The packages that the call brings have been filled symbol by symbol. -/
def Built (call : Call) : Prop :=
  ∀ p, Symbol.package p ∈ call.batch.symbols → ∃ d symbols, p = (Package.offerAll d symbols).1

end Call

/-- Makes calls one after another on an empty catalog: the catalog after them, and what each call
came to. -/
def runAll (calls : List Call) : Catalog × List (Option Error) := runCalls Call.run .empty calls

/-- A library that is asked for comes from a batch without symbols. -/
theorem ensure_ofBatches (bs : List Batch) (name : String) :
    (ofBatches bs).ensure name = ofBatches (bs ++ [⟨name, []⟩]) := by
  by_cases hname : name ∈ Batch.libraries bs
  · have hlibs : Batch.libraries (bs ++ [⟨name, []⟩]) = Batch.libraries bs := by
      have hmem : name ∈ bs.map Batch.library := by simpa [Batch.libraries] using hname
      rw [Batch.libraries, List.map_append, List.map_singleton, eraseDups_concat, if_pos hmem]
      rfl
    have hunits : ∀ n, Batch.unitsOf n (bs ++ [⟨name, []⟩]) = Batch.unitsOf n bs := by
      intro n
      simp [Batch.unitsOf_concat]
    rw [ensure_of_mem hname]
    simp only [ofBatches, hlibs, hunits]
  · have hcontains : (ofBatches bs).libraries.contains name = false := by
      rw [Table.contains, keys_ofBatches, decide_eq_false hname]
    have hput := put_ofBatches bs ⟨name, []⟩
    rw [Table.put, hcontains, Batch.unitsOf_eq_nil hname] at hput
    rw [ensure, hcontains]
    exact congrArg Catalog.mk hput

/-- **One call**: what it brings is taken up, or it is refused and leaves at most an empty
library. -/
theorem Call.run_ofBatches (bs : List Batch) (call : Call) :
    (Library.Fits (Batch.unitsOf call.batch.library bs) call.batch.symbols ∧
      call.run (ofBatches bs) = (ofBatches (bs ++ [call.batch]), none)) ∨
    ∃ e, call.run (ofBatches bs) = (ofBatches (bs ++ [⟨call.batch.library, []⟩]), some e) := by
  cases call with
  | library name =>
      refine Or.inl ⟨Library.fits_nil _, ?_⟩
      rw [Call.run, ensure_ofBatches]
      rfl
  | insertion call =>
      simp only [Call.run, Call.batch, Insertion.run_eq]
      rcases addSymbols_ofBatches bs call.batch with ⟨hfits, hadd⟩ | ⟨as, s, cs, e, -, -, -, hadd⟩
      · exact Or.inl ⟨hfits, hadd⟩
      · exact Or.inr ⟨e, by rw [hadd, ensure_ofBatches]⟩

/-- **Several calls** leave the catalog of compatible batches, each of which is what a call brings,
or nothing for the library of a call. -/
theorem exists_runCalls_eq {bs : List Batch} (h : Batch.Compatible bs) (calls : List Call) :
    ∃ cs, (runCalls Call.run (ofBatches bs) calls).1 = ofBatches (bs ++ cs) ∧
      Batch.Compatible (bs ++ cs) ∧
      ∀ b ∈ cs, ∃ call ∈ calls, b = call.batch ∨ b = ⟨call.batch.library, []⟩ := by
  induction calls using List.reverseRecOn with
  | nil => exact ⟨[], by simp, by simpa using h, by simp⟩
  | append_singleton calls call ih =>
      obtain ⟨cs, hrun, hcompatible, hcs⟩ := ih
      have hold : ∀ b ∈ cs, ∃ call' ∈ calls ++ [call],
          b = call'.batch ∨ b = ⟨call'.batch.library, []⟩ := by
        intro b hb
        obtain ⟨call', hcall', hb⟩ := hcs b hb
        exact ⟨call', List.mem_append_left _ hcall', hb⟩
      rw [runCalls_concat, hrun]
      rcases call.run_ofBatches (bs ++ cs) with ⟨hfits, hcall⟩ | ⟨e, hcall⟩
      · refine ⟨cs ++ [call.batch], ?_, ?_, ?_⟩
        · rw [hcall, List.append_assoc]
        · rw [← List.append_assoc]
          exact Batch.compatible_concat.2 ⟨hcompatible, hfits⟩
        · exact List.forall_mem_append.2 ⟨hold, List.forall_mem_singleton.2
            ⟨call, by simp, Or.inl rfl⟩⟩
      · refine ⟨cs ++ [⟨call.batch.library, []⟩], ?_, ?_, ?_⟩
        · rw [hcall, List.append_assoc]
        · rw [← List.append_assoc]
          exact Batch.compatible_concat.2 ⟨hcompatible, Library.fits_nil _⟩
        · exact List.forall_mem_append.2 ⟨hold, List.forall_mem_singleton.2
            ⟨call, by simp, Or.inr rfl⟩⟩

theorem exists_runAll_eq (calls : List Call) :
    ∃ bs, (runAll calls).1 = ofBatches bs ∧ Batch.Compatible bs ∧
      ∀ b ∈ bs, ∃ call ∈ calls, b = call.batch ∨ b = ⟨call.batch.library, []⟩ :=
  exists_runCalls_eq Batch.compatible_nil calls

theorem sound_ofBatches {bs : List Batch} (h : Batch.Compatible bs)
    (hpackages : ∀ b ∈ bs, ∀ p, Symbol.package p ∈ b.symbols → p.Sound) : (ofBatches bs).Sound where
  keyed := by
    refine ⟨fun e he => ?_, ?_⟩
    · obtain ⟨name, -, rfl⟩ := List.mem_map.1 he
      rfl
    · rw [keys_ofBatches]
      exact nodup_eraseDups _
  libraries := by
    intro lib hlib
    obtain ⟨e, he, rfl⟩ := List.mem_map.1 hlib
    obtain ⟨name, -, rfl⟩ := List.mem_map.1 he
    refine Library.sound_ofUnits (h name).distinct fun p hp => ?_
    obtain ⟨b, hb, hp⟩ := List.mem_flatMap.1 hp
    exact hpackages b (List.mem_of_mem_filter hb) p hp

theorem extends_ofBatches (bs cs : List Batch) : (ofBatches bs).Extends (ofBatches (bs ++ cs)) where
  names := by
    rw [keys_ofBatches, keys_ofBatches, Batch.libraries, Batch.libraries, List.map_append,
      List.eraseDups_append]
    exact List.prefix_append _ _
  libraries := by
    intro name lib hlib
    rw [get?_ofBatches] at hlib
    split at hlib
    · next hname =>
        obtain rfl := Option.some.inj hlib
        have hname' : name ∈ Batch.libraries (bs ++ cs) := by
          obtain ⟨b, hb, hlibrary⟩ := Batch.mem_libraries.1 hname
          exact Batch.mem_libraries.2 ⟨b, List.mem_append_left _ hb, hlibrary⟩
        refine ⟨_, by rw [get?_ofBatches, if_pos hname'], ?_⟩
        rw [Batch.unitsOf, Batch.unitsOf, List.filter_append, List.flatMap_append]
        exact Library.extends_ofUnits ..
    · cases hlib

/-- A library that is asked for leaves every library as it was; a new one has no units. -/
theorem libraryOrNew_ensure (c : Catalog) (name other : String) :
    (c.ensure name).libraryOrNew other = c.libraryOrNew other := by
  rw [ensure]
  split
  · rfl
  · next hcontains =>
      have hcontains := Bool.eq_false_iff.2 hcontains
      rw [libraryOrNew, libraryOrNew, Table.get?_push hcontains]
      by_cases hother : other = name
      · rw [if_pos hother, hother, Table.get?_eq_none hcontains, Option.getD_none,
          Option.getD_some]
      · rw [if_neg hother]

/-- **A call that is refused** leaves every library as it was. -/
theorem libraryOrNew_of_refused {c : Catalog} {call : Call} {e : Error}
    (h : (call.run c).2 = some e) (name : String) :
    (call.run c).1.libraryOrNew name = c.libraryOrNew name := by
  cases call with
  | library name => cases h
  | insertion call =>
      rw [Call.run, call.fst_run_of_refused h]
      exact c.libraryOrNew_ensure call.batch.library name

/-- **A call that is accepted** has brought its symbols to their library. -/
theorem mem_contents_of_accepted {bs : List Batch} {call : Call}
    (h : (call.run (ofBatches bs)).2 = none) :
    ∃ lib, (call.run (ofBatches bs)).1.get? call.batch.library = some lib ∧
      ∀ s ∈ call.batch.symbols, (s.declaration.id, s) ∈ lib.contents := by
  rcases call.run_ofBatches bs with ⟨hfits, hrun⟩ | ⟨e, hrun⟩
  · rw [hrun]
    have hname : call.batch.library ∈ Batch.libraries (bs ++ [call.batch]) :=
      Batch.mem_libraries.2 ⟨call.batch, by simp, rfl⟩
    refine ⟨_, by rw [get?_ofBatches, if_pos hname], fun s hs => ?_⟩
    rw [Batch.unitsOf_concat, if_pos rfl]
    exact Library.mem_contents_ofUnits (List.mem_append_right _ hs) (hfits.units s hs)
  · rw [hrun] at h
    cases h

end Catalog

/-! ### All runs -/

/-- **All runs are sound, and nothing is lost on the way.**

Let symbols be offered to a package, some of which may be refused.  Every member stands once, under
its own key and in the table of its category, and there are as many members as accepted offers.
A refused offer changes nothing; all later states have the present members in front.

Let then calls be made on an empty catalog, some of which may be refused, with packages that were
filled in this way.  Every library stands under its own name and has each unit once, under its own
key, with sound packages.  A refused call leaves the units of all libraries alone, an accepted one
has brought all of its symbols; all later states have the present libraries and units in front. -/
theorem runs_sound_and_monotone :
    (∀ (d : Declaration) (symbols : List Symbol),
      let p := (Package.offerAll d symbols).1
      p.Sound ∧
      p.size = (Package.offerAll d symbols).2.count none ∧
      (∀ s e, (p.offer s).2 = some e → (p.offer s).1 = p) ∧
      (∀ s, (p.offer s).2 = none →
        ∃ m, s = .member m ∧ (m.declaration.id, m) ∈ ((p.offer s).1.table m.category).entries) ∧
      ∀ more, p.Extends (Package.offerAll d (symbols ++ more)).1) ∧
    ∀ calls : List Catalog.Call, (∀ call ∈ calls, call.Built) →
      let c := (Catalog.runAll calls).1
      c.Sound ∧
      (∀ call e, (Catalog.Call.run c call).2 = some e →
        ∀ name, (Catalog.Call.run c call).1.libraryOrNew name = c.libraryOrNew name) ∧
      (∀ call, (Catalog.Call.run c call).2 = none →
        ∃ lib, (Catalog.Call.run c call).1.get? call.batch.library = some lib ∧
          ∀ s ∈ call.batch.symbols, (s.declaration.id, s) ∈ lib.contents) ∧
      ∀ more, c.Extends (Catalog.runAll (calls ++ more)).1 := by
  refine ⟨fun d symbols => ?_, fun calls hbuilt => ?_⟩
  · refine ⟨Package.sound_offerAll d symbols, ?_, fun s e => Package.offer_of_refused,
      fun s => Package.mem_table_of_accepted, Package.extends_offerAll d symbols⟩
    obtain ⟨ms, hpackage, -, hlength⟩ := Package.exists_offerAll_eq d symbols
    rw [hpackage, Package.size_ofMembers, hlength]
  · obtain ⟨bs, hrun, hcompatible, hbs⟩ := Catalog.exists_runAll_eq calls
    refine ⟨?_, fun call e => Catalog.libraryOrNew_of_refused, fun call => ?_, fun more => ?_⟩
    · rw [hrun]
      refine Catalog.sound_ofBatches hcompatible fun b hb p hp => ?_
      obtain ⟨call, hcall, rfl | rfl⟩ := hbs b hb
      · obtain ⟨d, symbols, rfl⟩ := hbuilt call hcall p hp
        exact Package.sound_offerAll d symbols
      · cases hp
    · rw [hrun]
      exact Catalog.mem_contents_of_accepted
    · obtain ⟨cs, hmore, -⟩ := Catalog.exists_runCalls_eq hcompatible more
      rw [Catalog.runAll] at hrun
      rw [Catalog.runAll, Catalog.runAll, fst_runCalls_append, hrun, hmore]
      exact Catalog.extends_ofBatches bs cs

/-- A package is offered the same constant twice, a type, and an entity; then it comes to a library
twice, the second time after another entity in one file. -/
theorem runs_sound_and_monotone_sample :
    let declared (name : String) (line : Int) : Declaration :=
      ⟨"p.vhd", name, line, "work", 0, 0, 0, 9, "", ""⟩
    let symbols : List Symbol := [.member ⟨.constant, declared "c" 2, ""⟩,
      .member ⟨.constant, declared "c" 2, ""⟩, .member ⟨.type, declared "t" 3, "record"⟩,
      .entity (declared "e" 4)]
    let filled := Package.offerAll (declared "p" 1) symbols
    let calls : List Catalog.Call := [.library "ieee",
      .insertion (.symbol "work" (.package filled.1)),
      .insertion (.file ⟨"p.vhd", "work", [.entity (declared "e" 9), .package filled.1]⟩),
      .insertion (.symbol "late" (.member ⟨.type, declared "t" 3, ""⟩))]
    filled.2.map Option.isSome = [false, true, false, true] ∧ filled.1.size = 2 ∧
    filled.1.Sound ∧
    (Catalog.runAll calls).2.map Option.isSome = [false, false, true, true] ∧
    (Catalog.runAll calls).1.Sound ∧
    (Catalog.runAll (calls.take 2)).1.Extends (Catalog.runAll calls).1 := by
  intro declared symbols filled calls
  have hbuilt : ∀ call ∈ calls, call.Built := by
    have hfilled : ∃ d symbols', filled.1 = (Package.offerAll d symbols').1 := ⟨_, _, rfl⟩
    simpa [calls, Catalog.Call.Built, Catalog.Call.batch, Insertion.batch] using hfilled
  have hbefore : ∀ call ∈ calls.take 2, call.Built := fun call hcall =>
    hbuilt call (List.mem_of_mem_take hcall)
  refine ⟨by decide +kernel, by decide +kernel,
    (runs_sound_and_monotone.1 (declared "p" 1) symbols).1, by decide +kernel,
    (runs_sound_and_monotone.2 calls hbuilt).1, ?_⟩
  exact (runs_sound_and_monotone.2 (calls.take 2) hbefore).2.2.2 (calls.drop 2)

end VhdlCatalog
