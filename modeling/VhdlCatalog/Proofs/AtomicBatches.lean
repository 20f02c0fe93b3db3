import VhdlCatalog.Proofs.CatalogRuns

/-!
**Several units at once, or none of them.**

A library takes up several units as if they came one by one, except that it is left alone as soon as
one of them would be refused.  Which one that is can be said of the symbols beforehand: it is the
first that is no unit, or has its key from the library or from a symbol before it.

What makes this work is a copy.  The units go to a copy of the library, and the library takes them
over from there when all have been taken up.  A refusal comes before that, so there is nothing to
take back.

Main definitions:

* `VhdlCatalog.attempt` — an addition that leaves alone what refuses it;
* `VhdlCatalog.wholeRun` — several of them, if they are to be made all or none;
* `VhdlCatalog.Library.keys` — what the units of a library are told apart by;
* `VhdlCatalog.Library.Refuses` — why a symbol that comes after others is refused;
* `VhdlCatalog.Library.Staging`, `VhdlCatalog.Library.addOnCopy` — additions to a copy, which takes
  the place of the library at the end;
* `VhdlCatalog.Catalog.addInPlace` — the same for a library of a catalog.

Main results:

* `VhdlCatalog.foldlM_eq_wholeRun` — **additions that stop at the first refusal** against additions
  that go on;
* `VhdlCatalog.foldlM_eq_error_iff` — the first refusal;
* `VhdlCatalog.Library.addAll_eq_error_iff`, `VhdlCatalog.Library.exists_addAll_eq_error_iff` —
  which symbols are refused;
* `VhdlCatalog.Library.addOnCopy_of_refused` — **a refusal takes nothing from the library and brings
  nothing to it**;
* `VhdlCatalog.Library.addOnCopy_eq`, `VhdlCatalog.Catalog.addInPlace_eq` — additions to a copy come
  to the same as those to the library itself;
* `VhdlCatalog.Catalog.addSymbols_of_ok`, `VhdlCatalog.Catalog.addSymbols_of_error` — the catalog
  afterwards;
* `VhdlCatalog.batches_all_or_nothing` — **all or nothing**.
-/

set_option relaxedAutoImplicit false
set_option autoImplicit false

namespace VhdlCatalog

/-! ### Additions that can be refused -/

section Additions

variable {σ α ε : Type} {add : σ → α → Except ε σ} {s s' : σ} {xs : List α} {e : ε}

/-- The addition as a call: a refusal leaves the state alone. -/
def attempt (add : σ → α → Except ε σ) (s : σ) (x : α) : σ × Option ε :=
  match add s x with
  | .ok s' => (s', none)
  | .error e => (s, some e)

/-- What a run comes to if a refusal counts against all of it: its first refusal, or the state after
it. -/
def wholeRun (run : σ × List (Option ε)) : Except ε σ :=
  match run.2.findSome? id with
  | none => .ok run.1
  | some e => .error e

/-- **Additions that stop at the first refusal** end like those that go on, if none of them is
refused, and otherwise with the first refusal. -/
theorem foldlM_eq_wholeRun (s : σ) (xs : List α) :
    xs.foldlM add s = wholeRun (runCalls (attempt add) s xs) := by
  induction xs using List.reverseRecOn with
  | nil => rfl
  | append_singleton xs x ih =>
      rw [List.foldlM_append, ih, runCalls_concat, wholeRun, wholeRun, List.findSome?_append]
      cases (runCalls (attempt add) s xs).2.findSome? id with
      | some e => rfl
      | none =>
          -- without a refusal before it, `x` comes to the same state both ways
          have hlast : [x].foldlM add (runCalls (attempt add) s xs).1 =
              add (runCalls (attempt add) s xs).1 x := by
            rw [List.foldlM_cons]
            exact bind_pure _
          refine hlast.trans ?_
          rw [Option.none_or, List.findSome?_singleton, attempt]
          cases add (runCalls (attempt add) s xs).1 x with
          | ok s' => rfl
          | error e => rfl

/-- Additions of which none is refused have taken every one of them. -/
theorem foldlM_append_eq_ok {as bs : List α} (h : (as ++ bs).foldlM add s = .ok s') :
    ∃ t, as.foldlM add s = .ok t ∧ bs.foldlM add t = .ok s' := by
  rw [List.foldlM_append] at h
  cases hadd : as.foldlM add s with
  | ok t =>
      rw [hadd] at h
      exact ⟨t, rfl, h⟩
  | error e =>
      rw [hadd] at h
      cases h

/-- **The first refusal** is that of an addition after others that are not refused. -/
theorem foldlM_eq_error_iff :
    xs.foldlM add s = .error e ↔
      ∃ as x bs t, xs = as ++ x :: bs ∧ as.foldlM add s = .ok t ∧ add t x = .error e := by
  constructor
  · intro h
    induction xs generalizing s with
    | nil => cases h
    | cons x xs ih =>
        rw [List.foldlM_cons] at h
        cases hadd : add s x with
        | error e' =>
            rw [hadd] at h
            obtain rfl := Except.error.inj h
            exact ⟨[], x, xs, s, rfl, rfl, hadd⟩
        | ok t =>
            rw [hadd] at h
            obtain ⟨as, y, bs, u, rfl, has, hy⟩ := ih h
            refine ⟨x :: as, y, bs, u, rfl, ?_, hy⟩
            rw [List.foldlM_cons, hadd]
            exact has
  · rintro ⟨as, x, bs, t, rfl, has, hx⟩
    rw [List.foldlM_append, has]
    show ((x :: bs).foldlM add t) = _
    rw [List.foldlM_cons, hx]
    rfl

end Additions

/-! ### Libraries -/

namespace Library

variable {lib lib' : Library} {s : Symbol} {as symbols : List Symbol} {e : Error}

/-- What the units of the library are told apart by. -/
def keys (lib : Library) : List (Kind × SymbolId) :=
  lib.entities.keys.map (Prod.mk .entity) ++ lib.packages.keys.map (Prod.mk .package)

/-- Where every unit stands under its own key, the keys are those of the units. -/
theorem keys_eq (h : ∀ e ∈ lib.contents, e.1 = e.2.declaration.id) :
    lib.keys = lib.contents.map fun e => e.2.key := by
  have hkeys : lib.keys = lib.contents.map fun e => (e.2.kind, e.1) := by
    simp only [keys, contents, Table.keys, List.map_append, List.map_map]
    rfl
  rw [hkeys]
  refine List.map_congr_left fun e he => ?_
  rw [h e he]
  rfl

/-- Why the library refuses a symbol that comes after some others. -/
inductive Refuses (lib : Library) (before : List Symbol) (s : Symbol) : Error → Prop
  | notAUnit (h : s.isUnit = false) : Refuses lib before s (.notAUnit s.kind)
  | taken (hunit : s.isUnit = true) (hkey : s.key ∈ lib.keys ++ before.map Symbol.key) :
      Refuses lib before s (.duplicate s.declaration.filepath s.declaration.name
        s.declaration.line lib.name)

theorem exists_refuses_iff :
    (∃ e, lib.Refuses as s e) ↔ s.isUnit = false ∨ s.key ∈ lib.keys ++ as.map Symbol.key := by
  constructor
  · rintro ⟨-, hunit | ⟨-, hkey⟩⟩
    · exact Or.inl hunit
    · exact Or.inr hkey
  · intro h
    cases hunit : s.isUnit with
    | false => exact ⟨_, .notAUnit hunit⟩
    | true =>
        rw [hunit] at h
        exact ⟨_, .taken hunit (h.resolve_left (by simp))⟩

theorem Refuses.unique {e' : Error} (h : lib.Refuses as s e) (h' : lib.Refuses as s e') :
    e = e' := by
  cases h with
  | notAUnit hunit =>
      cases h' with
      | notAUnit => rfl
      | taken hunit' => simp [hunit] at hunit'
  | taken hunit =>
      cases h' with
      | notAUnit hunit' => simp [hunit] at hunit'
      | taken => rfl

theorem contains_entities_iff {d : Declaration} :
    lib.entities.contains d.id = true ↔ (Symbol.entity d).key ∈ lib.keys := by
  simp [Table.contains, keys, Symbol.key, Symbol.kind, Symbol.declaration]

theorem contains_packages_iff {p : Package} :
    lib.packages.contains p.declaration.id = true ↔ (Symbol.package p).key ∈ lib.keys := by
  simp [Table.contains, keys, Symbol.key, Symbol.kind, Symbol.declaration]

/-- **One addition**: the symbol is refused, or its key is a new one and comes to those that are
there. -/
theorem add_cases (lib : Library) (s : Symbol) :
    (∃ e, lib.add s = .error e ∧ lib.Refuses [] s e) ∨
    ∃ lib', lib.add s = .ok lib' ∧ (∀ e, ¬lib.Refuses [] s e) ∧ lib'.name = lib.name ∧
      lib'.keys.Perm (lib.keys ++ [s.key]) := by
  have hnew : s.isUnit = true → s.key ∉ lib.keys → ∀ e, ¬lib.Refuses [] s e := by
    intro hunit hkey e he
    rcases exists_refuses_iff.1 ⟨e, he⟩ with hs | hs
    · rw [hunit] at hs
      cases hs
    · exact hkey (by simpa using hs)
  cases s with
  | member m => exact Or.inl ⟨_, rfl, .notAUnit rfl⟩
  | entity d =>
      by_cases hkey : (Symbol.entity d).key ∈ lib.keys
      · exact Or.inl ⟨_, if_pos (contains_entities_iff.2 hkey), .taken rfl (by simpa using hkey)⟩
      · refine Or.inr ⟨_, if_neg fun h => hkey (contains_entities_iff.1 h), hnew rfl hkey, rfl, ?_⟩
        -- the new key comes before those of the packages
        rw [keys, keys, Table.keys_push, List.map_append, List.append_assoc, List.append_assoc]
        exact List.perm_append_comm.append_left _
  | package p =>
      by_cases hkey : (Symbol.package p).key ∈ lib.keys
      · exact Or.inl ⟨_, if_pos (contains_packages_iff.2 hkey), .taken rfl (by simpa using hkey)⟩
      · refine Or.inr ⟨_, if_neg fun h => hkey (contains_packages_iff.1 h), hnew rfl hkey, rfl, ?_⟩
        rw [keys, keys, Table.keys_push, List.map_append, ← List.append_assoc]
        rfl

theorem add_eq_error_iff : lib.add s = .error e ↔ lib.Refuses [] s e := by
  constructor
  · intro h
    rcases lib.add_cases s with ⟨e', hadd, he'⟩ | ⟨lib', hadd, -⟩
    · obtain rfl := Except.error.inj (h.symm.trans hadd)
      exact he'
    · cases h.symm.trans hadd
  · intro h
    rcases lib.add_cases s with ⟨e', hadd, he'⟩ | ⟨lib', hadd, hnew, -⟩
    · rw [hadd, h.unique he']
    · exact absurd h (hnew e)

/-- **Several additions** that are not refused bring the keys of their symbols. -/
theorem keys_of_addAll (h : lib.addAll symbols = .ok lib') :
    lib'.name = lib.name ∧ lib'.keys.Perm (lib.keys ++ symbols.map Symbol.key) := by
  induction symbols generalizing lib with
  | nil =>
      obtain rfl := Except.ok.inj h
      exact ⟨rfl, by simp⟩
  | cons s symbols ih =>
      rw [addAll, List.foldlM_cons] at h
      rcases lib.add_cases s with ⟨e, hadd, -⟩ | ⟨next, hadd, -, hname, hkeys⟩
      · rw [hadd] at h
        cases h
      · rw [hadd] at h
        obtain ⟨hname', hkeys'⟩ := ih h
        refine ⟨hname'.trans hname, hkeys'.trans ?_⟩
        rw [List.map_cons, List.append_cons lib.keys s.key]
        exact hkeys.append_right _

/-- What is refused after some additions is what comes after their symbols. -/
theorem refuses_of_addAll (h : lib.addAll as = .ok lib') :
    lib'.Refuses [] s e ↔ lib.Refuses as s e := by
  obtain ⟨hname, hkeys⟩ := keys_of_addAll h
  have hmem : s.key ∈ lib'.keys ++ [].map Symbol.key ↔ s.key ∈ lib.keys ++ as.map Symbol.key := by
    rw [List.map_nil, List.append_nil, hkeys.mem_iff]
  constructor
  · intro he
    cases he with
    | notAUnit hunit => exact .notAUnit hunit
    | taken hunit hkey =>
        rw [hname]
        exact .taken hunit (hmem.1 hkey)
  · intro he
    cases he with
    | notAUnit hunit => exact .notAUnit hunit
    | taken hunit hkey =>
        rw [← hname]
        exact .taken hunit (hmem.2 hkey)

/-- **The error of a batch** is that of its first symbol that is refused. -/
theorem addAll_eq_error_iff :
    lib.addAll symbols = .error e ↔
      ∃ as s bs, symbols = as ++ s :: bs ∧ (∃ lib', lib.addAll as = .ok lib') ∧
        lib.Refuses as s e := by
  rw [addAll, foldlM_eq_error_iff]
  constructor
  · rintro ⟨as, s, bs, lib', hsplit, has, hs⟩
    exact ⟨as, s, bs, hsplit, ⟨lib', has⟩, (refuses_of_addAll has).1 (add_eq_error_iff.1 hs)⟩
  · rintro ⟨as, s, bs, hsplit, ⟨lib', has⟩, hs⟩
    exact ⟨as, s, bs, lib', hsplit, has, add_eq_error_iff.2 ((refuses_of_addAll has).2 hs)⟩

/-- **A batch is refused** if and only if one of its symbols is no unit, or has its key from the
library or from a symbol before it. -/
theorem exists_addAll_eq_error_iff :
    (∃ e, lib.addAll symbols = .error e) ↔
      ∃ as s bs, symbols = as ++ s :: bs ∧
        (s.isUnit = false ∨ s.key ∈ lib.keys ++ as.map Symbol.key) := by
  constructor
  · rintro ⟨e, he⟩
    obtain ⟨as, s, bs, hsplit, -, hs⟩ := addAll_eq_error_iff.1 he
    exact ⟨as, s, bs, hsplit, exists_refuses_iff.1 ⟨e, hs⟩⟩
  · rintro ⟨as, s, bs, rfl, hs⟩
    obtain ⟨e, he⟩ := exists_refuses_iff.2 hs
    cases hall : lib.addAll (as ++ s :: bs) with
    | error e' => exact ⟨e', rfl⟩
    | ok lib' =>
        -- the symbols before `s` are taken, and then `s` itself is not
        obtain ⟨t, has, -⟩ := foldlM_append_eq_ok hall
        have herror := addAll_eq_error_iff.2 ⟨as, s, bs, rfl, ⟨t, has⟩, he⟩
        cases herror.symm.trans hall

/-! ### Additions to a copy -/

/-- A library, and a copy of it that takes up units in its stead. -/
structure Staging where
  /-- The library. -/
  library : Library
  /-- The copy. -/
  copy : Library

/-- The library with a copy that has its name and its units. -/
def stage (lib : Library) : Staging := ⟨lib, ⟨lib.name, lib.entities, lib.packages⟩⟩

namespace Staging

/-- The copy takes up one symbol after another until one is refused. -/
def addAll (st : Staging) : List Symbol → Staging × Option Error
  | [] => (st, none)
  | s :: symbols =>
      match st.copy.add s with
      | .ok copy => addAll { st with copy := copy } symbols
      | .error e => (st, some e)

/-- The library takes over the units of the copy. -/
def swap (st : Staging) : Library :=
  { st.library with entities := st.copy.entities, packages := st.copy.packages }

/-- **The library is left alone** while its copy takes up symbols. -/
theorem library_addAll (st : Staging) (symbols : List Symbol) :
    (st.addAll symbols).1.library = st.library := by
  induction symbols generalizing st with
  | nil => rfl
  | cons s symbols ih =>
      rw [addAll]
      cases st.copy.add s with
      | ok copy => exact ih _
      | error e => rfl

/-- The copy comes to what the library would come to, or to the same refusal. -/
theorem addAll_cases (st : Staging) (symbols : List Symbol) :
    (∃ lib, st.copy.addAll symbols = .ok lib ∧
      st.addAll symbols = (⟨st.library, lib⟩, none)) ∨
    ∃ e, st.copy.addAll symbols = .error e ∧ (st.addAll symbols).2 = some e := by
  induction symbols generalizing st with
  | nil => exact Or.inl ⟨st.copy, rfl, rfl⟩
  | cons s symbols ih =>
      rw [addAll, Library.addAll, List.foldlM_cons]
      cases st.copy.add s with
      | ok copy => exact ih ⟨st.library, copy⟩
      | error e => exact Or.inr ⟨e, rfl, rfl⟩

end Staging

/-- Brings symbols to a copy, of which the library takes over the units when all of them have been
taken up: the library afterwards, and the refusal that has come before. -/
def addOnCopy (lib : Library) (symbols : List Symbol) : Library × Option Error :=
  match lib.stage.addAll symbols with
  | (st, none) => (st.swap, none)
  | (st, some e) => (st.library, some e)

theorem snd_addOnCopy (lib : Library) (symbols : List Symbol) :
    (lib.addOnCopy symbols).2 = (lib.stage.addAll symbols).2 := by
  rw [addOnCopy]
  split
  · next hrun => rw [hrun]
  · next hrun => rw [hrun]

/-- **A refusal leaves the library as it was**, whatever the copy has taken up before it. -/
theorem addOnCopy_of_refused (h : (lib.addOnCopy symbols).2 = some e) :
    (lib.addOnCopy symbols).1 = lib := by
  have hlibrary := lib.stage.library_addAll symbols
  rw [addOnCopy] at h ⊢
  split at h
  · cases h
  · next hrun =>
      rw [hrun] at hlibrary
      exact hlibrary

/-- **Additions to a copy** come to the same as additions that are kept when none of them is
refused. -/
theorem addOnCopy_eq (lib : Library) (symbols : List Symbol) :
    lib.addOnCopy symbols = attempt addAll lib symbols := by
  rcases lib.stage.addAll_cases symbols with ⟨lib', hadd, hrun⟩ | ⟨e, hadd, hrun⟩
  · have hadd : lib.addAll symbols = .ok lib' := hadd
    -- the name is the only thing that is not taken over from the copy
    have hname : lib'.name = lib.name := (keys_of_addAll hadd).1
    have hswap : (Staging.mk lib lib').swap = lib' := by rw [Staging.swap, ← hname]
    rw [addOnCopy, hrun, attempt, hadd]
    exact congrArg (·, none) hswap
  · have hadd : lib.addAll symbols = .error e := hadd
    have hrefused := (lib.snd_addOnCopy symbols).trans hrun
    rw [attempt, hadd]
    exact Prod.ext (addOnCopy_of_refused hrefused) hrefused

end Library

/-! ### Catalogs -/

namespace Catalog

variable {c : Catalog} {name : String} {symbols : List Symbol}

theorem libraryOrNew_put (c : Catalog) (name : String) (lib : Library) (other : String) :
    (Catalog.mk (c.libraries.put name lib)).libraryOrNew other =
      if other = name then lib else c.libraryOrNew other := by
  rw [libraryOrNew, Table.get?_put]
  split
  · rfl
  · rfl

/-- **A batch that is taken up** changes its library, and no other. -/
theorem addSymbols_of_ok {lib : Library} (h : (c.libraryOrNew name).addAll symbols = .ok lib) :
    (c.addSymbols name symbols).2 = none ∧
    ∀ other, (c.addSymbols name symbols).1.libraryOrNew other =
      if other = name then lib else c.libraryOrNew other := by
  rw [addSymbols, update, h]
  exact ⟨rfl, c.libraryOrNew_put name lib⟩

/-- **A batch that is refused** leaves all libraries as they were. -/
theorem addSymbols_of_error {e : Error} (h : (c.libraryOrNew name).addAll symbols = .error e) :
    (c.addSymbols name symbols).2 = some e ∧
    ∀ other, (c.addSymbols name symbols).1.libraryOrNew other = c.libraryOrNew other := by
  have hrefused : (c.addSymbols name symbols).2 = some e := by
    rw [addSymbols, update, h]
  have hcall : (Call.run c (.insertion (.file ⟨"", name, symbols⟩))).2 = some e := hrefused
  exact ⟨hrefused, libraryOrNew_of_refused hcall⟩

/-- Brings symbols to a library where it stands in the catalog.  It is made first if there is
none. -/
def addInPlace (c : Catalog) (name : String) (symbols : List Symbol) : Catalog × Option Error :=
  let c' := c.ensure name
  let added := (c'.libraryOrNew name).addOnCopy symbols
  (⟨c'.libraries.put name added.1⟩, added.2)

theorem put_ensure (c : Catalog) (name : String) (lib : Library) :
    (c.ensure name).libraries.put name lib = c.libraries.put name lib := by
  rw [ensure]
  split
  · rfl
  · next hcontains =>
      have hnew := Bool.eq_false_iff.2 hcontains
      rw [Table.put_push hnew, Table.put, hnew]
      rfl

theorem put_libraryOrNew (h : c.libraries.keys.Nodup) (name : String) :
    c.libraries.put name (c.libraryOrNew name) = (c.ensure name).libraries := by
  cases hcontains : c.libraries.contains name with
  | false =>
      rw [Table.put, ensure, libraryOrNew, Table.get?_eq_none hcontains, hcontains]
      rfl
  | true =>
      rw [ensure, if_pos hcontains]
      exact Table.put_getD h hcontains _

/-- **A batch in place**, where every library stands once, comes to the same as a batch whose
library is put back only if it has taken up all of it. -/
theorem addInPlace_eq (h : c.libraries.keys.Nodup) (name : String) (symbols : List Symbol) :
    c.addInPlace name symbols = c.addSymbols name symbols := by
  rw [addInPlace, libraryOrNew_ensure, Library.addOnCopy_eq, put_ensure, addSymbols, update,
    attempt]
  cases (c.libraryOrNew name).addAll symbols with
  | ok lib => rfl
  | error e => simp only [put_libraryOrNew h]

end Catalog

/-- **All or nothing.**  To bring several symbols to a library comes to the same as to bring them
one after another, if none of them is refused; otherwise it comes to the first error on that way.

A batch is refused if and only if one of its symbols is no unit, or has the kind, name and line of a
unit of the library or of a symbol before it.  The error is that of the first such symbol, and says
its kind, or else its file, name and line and the library.

In a catalog a batch that is taken up changes its library alone.  One that is refused leaves all
libraries as they were, and its error is returned. -/
theorem batches_all_or_nothing (lib : Library) (symbols : List Symbol) :
    lib.addAll symbols = wholeRun (runCalls (attempt Library.add) lib symbols) ∧
    ((∃ e, lib.addAll symbols = .error e) ↔
      ∃ as s bs, symbols = as ++ s :: bs ∧
        (s.isUnit = false ∨ s.key ∈ lib.keys ++ as.map Symbol.key)) ∧
    (∀ e, lib.addAll symbols = .error e ↔
      ∃ as s bs, symbols = as ++ s :: bs ∧ (∃ lib', lib.addAll as = .ok lib') ∧
        lib.Refuses as s e) ∧
    ((∀ e ∈ lib.contents, e.1 = e.2.declaration.id) →
      lib.keys = lib.contents.map fun e => e.2.key) ∧
    ∀ c : Catalog, ∀ name, c.libraryOrNew name = lib →
      let after := c.addSymbols name symbols
      (∀ lib', lib.addAll symbols = .ok lib' → after.2 = none ∧
        ∀ other, after.1.libraryOrNew other = if other = name then lib' else c.libraryOrNew other) ∧
      ∀ e, lib.addAll symbols = .error e → after.2 = some e ∧
        ∀ other, after.1.libraryOrNew other = c.libraryOrNew other := by
  refine ⟨foldlM_eq_wholeRun lib symbols, Library.exists_addAll_eq_error_iff,
    fun e => Library.addAll_eq_error_iff, Library.keys_eq, ?_⟩
  rintro c name rfl
  exact ⟨fun lib' => Catalog.addSymbols_of_ok, fun e => Catalog.addSymbols_of_error⟩

/-- A library with an entity gets a package and two entities of one name and line, of which the
second is refused; without that one the batch is taken up. -/
theorem batches_all_or_nothing_sample :
    let declared (name : String) (line : Int) : Declaration :=
      ⟨"f.vhd", name, line, "work", 0, 0, 0, 0, "", ""⟩
    let x : Symbol := .entity (declared "x" 1)
    let p : Symbol := .package (.ofDeclaration (declared "x" 1))
    let y : Symbol := .entity (declared "y" 4)
    let c : Catalog := (Catalog.empty.addSymbol "work" x).1
    let before := c.libraryOrNew "work"
    before.keys = before.contents.map (fun e => e.2.key) ∧ before.keys = [x.key] ∧
    before.addAll [p, y, y] = .error (.duplicate "f.vhd" "y" 4 "work") ∧
    (c.addSymbols "work" [p, y, y]).2 = some (.duplicate "f.vhd" "y" 4 "work") ∧
    (c.addSymbols "work" [p, y, y]).1.libraryOrNew "work" = before ∧
    (c.addSymbols "work" [p, y]).2 = none ∧
    ((c.addSymbols "work" [p, y]).1.libraryOrNew "work").keys = [x.key, y.key, p.key] := by
  intro declared x p y c before
  have hown : ∀ e ∈ before.contents, e.1 = e.2.declaration.id := by
    intro e he
    obtain rfl := List.mem_singleton.1 he
    rfl
  obtain ⟨-, -, herror, hkeys, hrefused⟩ := batches_all_or_nothing before [p, y, y]
  have hadd : before.addAll [p, y, y] = .error (.duplicate "f.vhd" "y" 4 "work") :=
    (herror _).2 ⟨[p, y], y, [], rfl, ⟨_, rfl⟩, .taken rfl (by decide)⟩
  obtain ⟨-, -, -, -, htaken⟩ := batches_all_or_nothing before [p, y]
  obtain ⟨hnone, hlibraries⟩ := (htaken c "work" rfl).1 _ rfl
  obtain ⟨hsome, hsame⟩ := (hrefused c "work" rfl).2 _ hadd
  refine ⟨hkeys hown, rfl, hadd, hsome, hsame "work", hnone, ?_⟩
  rw [hlibraries "work"]
  rfl

end VhdlCatalog
