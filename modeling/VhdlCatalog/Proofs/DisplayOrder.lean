import Mathlib.Data.List.Nodup
import Mathlib.Data.Prod.Lex
import Mathlib.Data.String.Basic
import VhdlCatalog.Catalog

/-!
**The orders in which symbols are shown.**

Answers about a catalog are sorted.  The keys have several parts that are compared one after
another, and what the keys cannot tell apart stays in the order in which it came.  So an answer
forgets the order of insertion only if ties are impossible, or if those who tie always come in one
order.  This module says so for any sort, and shows that the orders of the catalog are orders.

Main definitions:

* `VhdlCatalog.SortOrder` — a test that a sort can go by;
* `VhdlCatalog.ties` — two elements that the test cannot tell apart;
* `VhdlCatalog.Declaration.lineKey`, `VhdlCatalog.Symbol.unitKey` — what declarations and units are
  sorted by.

Main results:

* `VhdlCatalog.mergeSort_eq_of_perm` — without ties a sort forgets the order of its input;
* `VhdlCatalog.SortOrder.filter_mergeSort` — **elements that tie keep their order**;
* `VhdlCatalog.mergeSort_eq_of_ties` — a sort depends on its input only through the order of
  those that tie;
* `VhdlCatalog.mergeSort_flatMap_eq_of_perm` — several parts without ties within a part;
* `VhdlCatalog.sortOrder_lineLe`, `VhdlCatalog.sortOrder_unitLe` — the orders of the catalog.
-/

set_option relaxedAutoImplicit false
set_option autoImplicit false

namespace VhdlCatalog

/-! ### Sorting -/

section Sorting

variable {α : Type} {le : α → α → Bool} {a b : α} {xs ys : List α}

/-- The test is transitive, and of any two elements one may come first. -/
structure SortOrder (le : α → α → Bool) : Prop where
  trans : ∀ a b c, le a b = true → le b c = true → le a c = true
  total : ∀ a b, (le a b || le b a) = true

/-- A test that compares the places of elements in a linear order. -/
theorem SortOrder.of_key {β : Type} [LinearOrder β] (key : α → β)
    (h : ∀ a b, le a b = true ↔ key a ≤ key b) : SortOrder le where
  trans a b c hab hbc := (h a c).2 (le_trans ((h a b).1 hab) ((h b c).1 hbc))
  total a b := by
    rw [Bool.or_eq_true, h, h]
    exact le_total (key a) (key b)

theorem SortOrder.refl (h : SortOrder le) (a : α) : le a a = true := by
  simpa using h.total a a

/-- The test lets either of the two come first. -/
def ties (le : α → α → Bool) (a b : α) : Bool := le a b && le b a

theorem ties_iff : ties le a b = true ↔ le a b = true ∧ le b a = true := by
  simp [ties]

/-- **Without ties** a sort forgets the order of its input. -/
theorem mergeSort_eq_of_perm (h : SortOrder le)
    (hties : ∀ a ∈ xs, ∀ b ∈ xs, ties le a b = true → a = b) (hp : xs.Perm ys) :
    xs.mergeSort le = ys.mergeSort le := by
  have hxs := List.mergeSort_perm xs le
  have hys := List.mergeSort_perm ys le
  refine List.Perm.eq_of_pairwise ?_ (List.pairwise_mergeSort h.trans h.total xs)
    (List.pairwise_mergeSort h.trans h.total ys) (hxs.trans (hp.trans hys.symm))
  intro a b ha hb hab hba
  exact hties a (hxs.mem_iff.1 ha) b (hp.mem_iff.2 (hys.mem_iff.1 hb)) (ties_iff.2 ⟨hab, hba⟩)

/-- **Elements that tie keep their order.** -/
theorem SortOrder.filter_mergeSort (h : SortOrder le) (a : α) (xs : List α) :
    (xs.mergeSort le).filter (ties le a) = xs.filter (ties le a) := by
  have hclass : (xs.filter (ties le a)).Pairwise fun b c => le b c = true := by
    refine List.pairwise_of_forall_mem_list fun b hb c hc => ?_
    have hba := (ties_iff.1 (List.of_mem_filter hb)).2
    have hac := (ties_iff.1 (List.of_mem_filter hc)).1
    exact h.trans b a c hba hac
  have hsub :=
    (List.sublist_mergeSort h.trans h.total hclass List.filter_sublist).filter (ties le a)
  simp only [List.filter_filter, Bool.and_self] at hsub
  exact (hsub.eq_of_length ((List.mergeSort_perm xs le).filter _).length_eq.symm).symm

/-- Two sorted lists in which those that tie come in one order are the same. -/
theorem eq_of_filter_ties (h : SortOrder le) (hxs : xs.Pairwise fun a b => le a b = true)
    (hys : ys.Pairwise fun a b => le a b = true)
    (hties : ∀ a, xs.filter (ties le a) = ys.filter (ties le a)) : xs = ys := by
  have hself : ∀ a, ties le a a = true := fun a => ties_iff.2 ⟨h.refl a, h.refl a⟩
  induction xs generalizing ys with
  | nil =>
      cases ys with
      | nil => rfl
      | cons y ys =>
          have hy := hties y
          rw [List.filter_nil, List.filter_cons_of_pos (hself y)] at hy
          cases hy
  | cons x xs ih =>
      obtain ⟨hx, hxsTail⟩ := List.pairwise_cons.1 hxs
      cases ys with
      | nil =>
          have hx' := hties x
          rw [List.filter_nil, List.filter_cons_of_pos (hself x)] at hx'
          cases hx'
      | cons y ys =>
          obtain ⟨hy, hysTail⟩ := List.pairwise_cons.1 hys
          -- each of the two heads stands in the other list, so they tie
          have hmem : x ∈ y :: ys := by
            have hin : x ∈ (x :: xs).filter (ties le x) := List.mem_filter.2 ⟨by simp, hself x⟩
            rw [hties x] at hin
            exact List.mem_of_mem_filter hin
          have hmem' : y ∈ x :: xs := by
            have hin : y ∈ (y :: ys).filter (ties le y) := List.mem_filter.2 ⟨by simp, hself y⟩
            rw [← hties y] at hin
            exact List.mem_of_mem_filter hin
          have hyx : le y x = true := by
            rcases List.mem_cons.1 hmem with rfl | hin
            · exact h.refl x
            · exact hy x hin
          have hxy : le x y = true := by
            rcases List.mem_cons.1 hmem' with rfl | hin
            · exact h.refl y
            · exact hx y hin
          have hhead := hties x
          rw [List.filter_cons_of_pos (hself x), List.filter_cons_of_pos (ties_iff.2 ⟨hxy, hyx⟩)]
            at hhead
          obtain ⟨rfl, -⟩ := List.cons.inj hhead
          refine congrArg (x :: ·) (ih hxsTail hysTail fun a => ?_)
          have htail := hties a
          cases ha : ties le a x with
          | true =>
              rw [List.filter_cons_of_pos ha, List.filter_cons_of_pos ha] at htail
              exact (List.cons.inj htail).2
          | false =>
              rwa [List.filter_cons_of_neg (by simp [ha]), List.filter_cons_of_neg (by simp [ha])]
                at htail

/-- **A sort depends on the order of those that tie**, and on no other order of its input. -/
theorem mergeSort_eq_of_ties (h : SortOrder le)
    (hties : ∀ a, xs.filter (ties le a) = ys.filter (ties le a)) :
    xs.mergeSort le = ys.mergeSort le := by
  refine eq_of_filter_ties h (List.pairwise_mergeSort h.trans h.total xs)
    (List.pairwise_mergeSort h.trans h.total ys) fun a => ?_
  rw [h.filter_mergeSort, h.filter_mergeSort, hties a]

/-- **A sort of several parts** forgets the order within each part, if no two elements of one part
tie.  Elements of different parts may tie, and then stand in the order of the parts. -/
theorem mergeSort_flatMap_eq_of_perm {ι : Type} {parts : List ι} {f g : ι → List α}
    (h : SortOrder le) (hperm : ∀ i ∈ parts, (f i).Perm (g i))
    (hties : ∀ i ∈ parts, ∀ a ∈ f i, ∀ b ∈ f i, ties le a b = true → a = b) :
    (parts.flatMap f).mergeSort le = (parts.flatMap g).mergeSort le := by
  refine mergeSort_eq_of_ties h fun a => ?_
  rw [List.filter_flatMap, List.filter_flatMap]
  refine List.flatMap_congr fun i hi => ?_
  have hany : ∀ zs : List α, zs.Pairwise fun _ _ => True := fun _ =>
    List.pairwise_of_forall fun _ _ => trivial
  refine List.Perm.eq_of_pairwise ?_ (hany _) (hany _) ((hperm i hi).filter _)
  intro b c hb hc _ _
  -- both tie with `a`, so they tie with each other
  obtain ⟨hb, hab⟩ := List.mem_filter.1 hb
  obtain ⟨hc, hac⟩ := List.mem_filter.1 hc
  obtain ⟨hab, hba⟩ := ties_iff.1 hab
  obtain ⟨hac, hca⟩ := ties_iff.1 hac
  exact hties i hi b hb c ((hperm i hi).mem_iff.2 hc)
    (ties_iff.2 ⟨h.trans b a c hba hac, h.trans c a b hca hab⟩)

end Sorting

/-! ### Names -/

theorem sortOrder_names : SortOrder fun a b : String => decide (a ≤ b) :=
  .of_key id fun a b => by simp

theorem sortNames_eq_of_perm {names names' : List String} (h : names.Perm names') :
    sortNames names = sortNames names' := by
  refine mergeSort_eq_of_perm sortOrder_names (fun a _ b _ htie => ?_) h
  obtain ⟨hab, hba⟩ := ties_iff.1 htie
  exact String.le_antisymm (by simpa using hab) (by simpa using hba)

/-- Sorted names are in ascending order. -/
theorem pairwise_sortNames (names : List String) : (sortNames names).Pairwise (· ≤ ·) :=
  (List.pairwise_mergeSort sortOrder_names.trans sortOrder_names.total names).imp of_decide_eq_true

/-- Names that are distinct are in strictly ascending order. -/
theorem pairwise_sortNames_of_nodup {names : List String} (h : names.Nodup) :
    (sortNames names).Pairwise (· < ·) := by
  have hnodup : (sortNames names).Nodup := (List.mergeSort_perm names _).nodup_iff.2 h
  exact ((pairwise_sortNames names).and hnodup).imp fun ⟨hle, hne⟩ => lt_of_le_of_ne hle hne

/-! ### Declarations and units -/

/-- What declarations with one name are sorted by: the line, then the file. -/
def Declaration.lineKey (d : Declaration) : ℤ ×ₗ String := toLex (d.line, d.filepath)

theorem Declaration.lineLe_iff (d e : Declaration) :
    d.lineLe e = true ↔ d.lineKey ≤ e.lineKey := by
  simp [lineLe, lineKey, Prod.Lex.toLex_le_toLex]

/-- Declarations that the order by line cannot tell apart are on one line. -/
theorem Declaration.line_eq_of_lineLe {d e : Declaration} (h : d.lineLe e = true)
    (h' : e.lineLe d = true) : d.line = e.line := by
  have hkey := le_antisymm ((d.lineLe_iff e).1 h) ((e.lineLe_iff d).1 h')
  simp only [lineKey, EmbeddingLike.apply_eq_iff_eq, Prod.mk.injEq] at hkey
  exact hkey.1

theorem sortOrder_lineLe : SortOrder fun a b : Symbol => a.declaration.lineLe b.declaration :=
  .of_key (fun s => s.declaration.lineKey) fun a b => a.declaration.lineLe_iff b.declaration

theorem Kind.label_inj {k k' : Kind} (h : k.label = k'.label) : k = k' := by
  revert h
  cases k <;> cases k' <;> decide

/-- What units are sorted by: name, line, kind and file. -/
def Symbol.unitKey (s : Symbol) : String ×ₗ ℤ ×ₗ String ×ₗ String :=
  toLex (s.declaration.name,
    toLex (s.declaration.line, toLex (s.kind.label, s.declaration.filepath)))

theorem unitLe_iff (a b : Symbol) : Library.unitLe a b = true ↔ a.unitKey ≤ b.unitKey := by
  simp only [Library.unitLe, Symbol.unitKey, Prod.Lex.toLex_le_toLex]
  by_cases hname : a.declaration.name = b.declaration.name
  · by_cases hline : a.declaration.line = b.declaration.line
    · by_cases hkind : a.kind = b.kind
      · simp [hname, hline, hkind]
      · have hlabel : a.kind.label ≠ b.kind.label := fun h => hkind (Kind.label_inj h)
        simp [hname, hline, hkind, hlabel]
    · simp [hname, hline]
  · simp [hname]

theorem sortOrder_unitLe : SortOrder Library.unitLe := .of_key Symbol.unitKey unitLe_iff

end VhdlCatalog
