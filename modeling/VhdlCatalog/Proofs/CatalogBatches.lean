import VhdlCatalog.Proofs.LibraryUnits

/-!
**A catalog is its list of batches.**

Symbols come to a catalog in batches, each for one library: those of a file at once, or a single
one.  A batch is taken up as a whole or refused as a whole.  A catalog in which no batch has been
refused is known from the list of its batches: it has the libraries that they mention, in the order
of first mention, and every library has the units of its batches, in the order in which they came.

Main definitions:

* `VhdlCatalog.Batch` — symbols for one library;
* `VhdlCatalog.Batch.unitsOf` — what some batches bring to a library;
* `VhdlCatalog.Catalog.ofBatches` — the catalog that is left by given batches;
* `VhdlCatalog.Batch.Compatible` — no batch is refused.

Main results:

* `VhdlCatalog.Catalog.addSymbols_ofBatches` — **one more batch** is taken up as a whole, or
  refused because of its first symbol that does not fit;
* `VhdlCatalog.Batch.compatible_concat` — compatible batches one after another;
* `VhdlCatalog.Batch.Compatible.perm` — the order of the batches does not matter for this.
-/

set_option relaxedAutoImplicit false
set_option autoImplicit false

namespace VhdlCatalog

/-! ### Tables -/

/-- Looking up a key in a table whose values are found from the keys. -/
theorem Table.get?_map {κ α : Type} [DecidableEq κ] (keys : List κ) (f : κ → α) (k : κ) :
    (Table.mk (keys.map fun k => (k, f k))).get? k = if k ∈ keys then some (f k) else none := by
  induction keys with
  | nil => rfl
  | cons j keys ih =>
      by_cases hj : j = k
      · simp [Table.get?, hj]
      · have hk : ¬k = j := fun h => hj h.symm
        simpa [Table.get?, hj, hk] using ih

@[simp] theorem Table.keys_map {κ α : Type} (keys : List κ) (f : κ → α) :
    (Table.mk (keys.map fun k => (k, f k))).keys = keys := by
  simp [Table.keys, Function.comp_def]

/-- The first mentions of the elements of a list are distinct. -/
theorem nodup_eraseDups {α : Type} [DecidableEq α] (xs : List α) : xs.eraseDups.Nodup := by
  induction hn : xs.length using Nat.strong_induction_on generalizing xs with
  | _ n ih =>
      cases xs with
      | nil => exact List.nodup_nil
      | cons x xs =>
          have hlt : (xs.filter fun y => !y == x).length < n := by
            have hle := List.length_filter_le (fun y => !y == x) xs
            rw [List.length_cons] at hn
            omega
          rw [List.eraseDups_cons]
          refine List.nodup_cons.2 ⟨fun hmem => ?_, ih _ hlt _ rfl⟩
          rw [List.mem_eraseDups] at hmem
          simpa using List.of_mem_filter hmem

theorem eraseDups_perm {α : Type} [DecidableEq α] {xs ys : List α} (h : xs.Perm ys) :
    xs.eraseDups.Perm ys.eraseDups := by
  refine (List.perm_ext_iff_of_nodup (nodup_eraseDups _) (nodup_eraseDups _)).2 fun x => ?_
  rw [List.mem_eraseDups, List.mem_eraseDups, h.mem_iff]

theorem eraseDups_perm_self {α : Type} [DecidableEq α] {xs : List α} (h : xs.Nodup) :
    xs.eraseDups.Perm xs :=
  (List.perm_ext_iff_of_nodup (nodup_eraseDups _) h).2 fun _ => List.mem_eraseDups

theorem count_eraseDups {α : Type} [DecidableEq α] (xs : List α) (x : α) :
    xs.eraseDups.count x = min 1 (xs.count x) := by
  by_cases hx : x ∈ xs
  · have hone := List.count_eq_one_of_mem (nodup_eraseDups xs) (List.mem_eraseDups.2 hx)
    have hpos := List.count_pos_iff.2 hx
    omega
  · have hzero := List.count_eq_zero.2 hx
    have hzero' := List.count_eq_zero.2 fun h => hx (List.mem_eraseDups.1 h)
    omega

theorem eraseDups_concat {α : Type} [DecidableEq α] (xs : List α) (x : α) :
    (xs ++ [x]).eraseDups = if x ∈ xs then xs.eraseDups else xs.eraseDups ++ [x] := by
  rw [List.eraseDups_append]
  by_cases hx : x ∈ xs
  · simp [List.removeAll, hx]
  · simp [List.removeAll, hx, List.eraseDups_cons]

/-! ### Batches -/

/-- Symbols that come to one library together. -/
structure Batch where
  /-- The library. -/
  library : String
  /-- The symbols. -/
  symbols : List Symbol

namespace Batch

/-- The libraries that the batches mention, in the order of first mention. -/
def libraries (bs : List Batch) : List String := (bs.map Batch.library).eraseDups

/-- What the batches bring to the library called `name`. -/
def unitsOf (name : String) (bs : List Batch) : List Symbol :=
  (bs.filter (·.library = name)).flatMap Batch.symbols

/-- No library is brought a symbol that it has to refuse. -/
def Compatible (bs : List Batch) : Prop := ∀ name, Library.Fits [] (unitsOf name bs)

@[simp] theorem mem_libraries {name : String} {bs : List Batch} :
    name ∈ libraries bs ↔ ∃ b ∈ bs, b.library = name := by
  simp [libraries]

theorem unitsOf_concat (name : String) (bs : List Batch) (b : Batch) :
    unitsOf name (bs ++ [b]) =
      unitsOf name bs ++ if b.library = name then b.symbols else [] := by
  by_cases hb : b.library = name
  · simp [unitsOf, hb]
  · simp [unitsOf, hb]

theorem unitsOf_eq_nil {name : String} {bs : List Batch} (h : name ∉ libraries bs) :
    unitsOf name bs = [] := by
  have hfilter : bs.filter (·.library = name) = [] := by
    rw [List.filter_eq_nil_iff]
    intro b hb hname
    exact h (mem_libraries.2 ⟨b, hb, by simpa using hname⟩)
  rw [unitsOf, hfilter, List.flatMap_nil]

theorem unitsOf_perm {bs bs' : List Batch} (h : bs.Perm bs') (name : String) :
    (unitsOf name bs).Perm (unitsOf name bs') :=
  (h.filter _).flatMap_right _

theorem libraries_perm {bs bs' : List Batch} (h : bs.Perm bs') :
    (libraries bs).Perm (libraries bs') :=
  eraseDups_perm (h.map _)

theorem compatible_nil : Compatible [] := fun _ => Library.fits_nil []

/-- **Compatible batches, one after another.** -/
theorem compatible_concat {bs : List Batch} {b : Batch} :
    Compatible (bs ++ [b]) ↔
      Compatible bs ∧ Library.Fits (unitsOf b.library bs) b.symbols := by
  constructor
  · intro h
    refine ⟨fun name => ?_, ?_⟩
    · have hname := h name
      rw [unitsOf_concat] at hname
      exact (Library.fits_append.1 hname).1
    · have hname := h b.library
      rw [unitsOf_concat, if_pos rfl] at hname
      exact (Library.fits_append.1 hname).2
  · rintro ⟨h, hb⟩ name
    rw [unitsOf_concat]
    refine Library.fits_append.2 ⟨h name, ?_⟩
    split
    · next hname => exact hname ▸ hb
    · exact Library.fits_nil _

/-- **The order of the batches** does not matter. -/
theorem Compatible.perm {bs bs' : List Batch} (h : Compatible bs) (hp : bs.Perm bs') :
    Compatible bs' := by
  intro name
  have hunits := unitsOf_perm hp name
  refine ⟨fun s hs => (h name).units s (hunits.mem_iff.2 hs), ?_, fun s _ => by simp⟩
  exact (hunits.map _).nodup_iff.1 (h name).distinct

end Batch

/-! ### Catalogs -/

namespace Catalog

open Batch

/-- The catalog that is left by the given batches. -/
def ofBatches (bs : List Batch) : Catalog :=
  ⟨⟨(Batch.libraries bs).map fun name => (name, Library.ofUnits name (unitsOf name bs))⟩⟩

@[simp] theorem keys_ofBatches (bs : List Batch) :
    (ofBatches bs).libraries.keys = Batch.libraries bs :=
  Table.keys_map _ _

theorem get?_ofBatches (bs : List Batch) (name : String) :
    (ofBatches bs).get? name =
      if name ∈ Batch.libraries bs then some (Library.ofUnits name (unitsOf name bs)) else none :=
  Table.get?_map _ _ name

/-- The libraries by name, with what the batches bring to them. -/
theorem sorted_ofBatches (bs : List Batch) :
    (ofBatches bs).sorted =
      (ofBatches bs).libraryNames.map fun name => Library.ofUnits name (unitsOf name bs) := by
  rw [sorted, ← List.filterMap_eq_map]
  refine List.filterMap_congr fun name hname => ?_
  rw [libraryNames, sortNames, List.mem_mergeSort, keys_ofBatches] at hname
  rw [get?_ofBatches, if_pos hname]
  rfl

theorem libraryOrNew_ofBatches (bs : List Batch) (name : String) :
    (ofBatches bs).libraryOrNew name = Library.ofUnits name (unitsOf name bs) := by
  have hget := get?_ofBatches bs name
  rw [get?] at hget
  rw [libraryOrNew, hget]
  by_cases hname : name ∈ Batch.libraries bs
  · rw [if_pos hname, Option.getD_some]
  · rw [if_neg hname, unitsOf_eq_nil hname, Option.getD_none, Library.ofUnits_nil]

/-- A library with more units, in its old place or in a new one. -/
theorem put_ofBatches (bs : List Batch) (b : Batch) :
    (ofBatches bs).libraries.put b.library
        (Library.ofUnits b.library (unitsOf b.library bs ++ b.symbols)) =
      (ofBatches (bs ++ [b])).libraries := by
  have hlibs : Batch.libraries (bs ++ [b]) =
      if b.library ∈ Batch.libraries bs then Batch.libraries bs
      else Batch.libraries bs ++ [b.library] := by
    simp only [Batch.libraries, List.map_append, List.map_cons, List.map_nil, eraseDups_concat,
      List.mem_eraseDups]
  -- the other libraries are left as they are
  have hother : ∀ name, name ≠ b.library →
      Library.ofUnits name (unitsOf name (bs ++ [b])) = Library.ofUnits name (unitsOf name bs) := by
    intro name hname
    rw [unitsOf_concat, if_neg fun h => hname h.symm, List.append_nil]
  have hself : unitsOf b.library (bs ++ [b]) = unitsOf b.library bs ++ b.symbols := by
    rw [unitsOf_concat, if_pos rfl]
  simp only [Table.put, Table.contains, keys_ofBatches, decide_eq_true_eq]
  by_cases hname : b.library ∈ Batch.libraries bs
  · rw [if_pos hname] at hlibs ⊢
    simp only [ofBatches, hlibs, List.map_map, Table.mk.injEq]
    refine List.map_congr_left fun name _ => ?_
    by_cases heq : name = b.library
    · simp [heq, hself]
    · simp [heq, hother name heq]
  · rw [if_neg hname] at hlibs ⊢
    simp only [ofBatches, hlibs, List.map_append, Table.push, Table.mk.injEq, List.map_cons,
      List.map_nil, hself]
    congr 1
    refine List.map_congr_left fun name hmem => ?_
    rw [hother name fun heq => hname (heq ▸ hmem)]

/-- **One more batch**: all of its symbols fit and are taken up, or the first one that does not fit
is refused. -/
theorem addSymbols_ofBatches (bs : List Batch) (b : Batch) :
    (Library.Fits (unitsOf b.library bs) b.symbols ∧
      (ofBatches bs).addSymbols b.library b.symbols = (ofBatches (bs ++ [b]), none)) ∨
    ∃ as s cs e, b.symbols = as ++ s :: cs ∧ Library.Fits (unitsOf b.library bs) as ∧
      Library.refusal? b.library (unitsOf b.library bs ++ as) s = some e ∧
      (ofBatches bs).addSymbols b.library b.symbols =
        ((ofBatches bs).ensure b.library, some e) := by
  rw [addSymbols, update, libraryOrNew_ofBatches]
  rcases Library.addAll_ofUnits b.library (unitsOf b.library bs) b.symbols with
    ⟨hfits, hadd⟩ | ⟨as, s, cs, e, hsplit, has, hs, hadd⟩
  · refine Or.inl ⟨hfits, ?_⟩
    rw [hadd]
    simp only [put_ofBatches]
  · exact Or.inr ⟨as, s, cs, e, hsplit, has, hs, by rw [hadd]⟩

theorem addSymbols_of_fits {bs : List Batch} {b : Batch}
    (h : Library.Fits (unitsOf b.library bs) b.symbols) :
    (ofBatches bs).addSymbols b.library b.symbols = (ofBatches (bs ++ [b]), none) := by
  rw [addSymbols, update, libraryOrNew_ofBatches, Library.addAll_of_fits h]
  simp only [put_ofBatches]

/-- A batch of one symbol. -/
theorem addSymbol_eq_addSymbols (c : Catalog) (library : String) (s : Symbol) :
    c.addSymbol library s = c.addSymbols library [s] := by
  rw [addSymbol, addSymbols, update, update]
  simp only [Library.addAll, List.foldlM_cons, List.foldlM_nil, bind_pure]

/-- A library that is there is left as it is. -/
theorem ensure_of_mem {bs : List Batch} {name : String} (h : name ∈ Batch.libraries bs) :
    (ofBatches bs).ensure name = ofBatches bs := by
  rw [ensure, Table.contains, keys_ofBatches, if_pos (decide_eq_true h)]

end Catalog

end VhdlCatalog
