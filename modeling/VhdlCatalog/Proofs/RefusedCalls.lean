import VhdlCatalog.Proofs.CatalogRuns

/-!
**What a refused call leaves behind.**

The library that a call is for is made before its symbols are looked at.  When they are refused, no
library has lost or gained a unit, but a library that was not there before stays, and is empty.  It
counts, it is listed, and it takes over all paths that begin with its name: they have stood for
units of that name in any library, and now stand for nothing.

Main definitions:

* `VhdlCatalog.Catalog.withEmpty` — one more library, which is empty.

Main results:

* `VhdlCatalog.exists_sortNames_cons` — where a new name comes in a sorted list;
* `VhdlCatalog.Catalog.flatMap_sorted_withEmpty` — a search through all libraries finds nothing more
  in a new one;
* `VhdlCatalog.refused_call_keeps_library` — **a refused call** changes nothing exactly when its
  library was there, and otherwise leaves it empty.
-/

set_option relaxedAutoImplicit false
set_option autoImplicit false

namespace VhdlCatalog

/-- A new name is put somewhere between the old ones, which stay in order. -/
theorem exists_sortNames_cons (name : String) (names : List String) :
    ∃ before after, sortNames (name :: names) = before ++ name :: after ∧
      sortNames names = before ++ after := by
  obtain ⟨before, after, hcons, hnames, -⟩ :=
    List.mergeSort_cons sortOrder_names.trans sortOrder_names.total name names
  exact ⟨before, after, hcons, hnames⟩

namespace Catalog

variable {c : Catalog} {library : String}

/-- The catalog with one more library, which is empty. -/
def withEmpty (c : Catalog) (library : String) : Catalog :=
  ⟨c.libraries.push library (.ofName library)⟩

theorem ensure_eq_withEmpty (h : c.contains library = false) :
    c.ensure library = c.withEmpty library :=
  if_neg (Bool.eq_false_iff.1 h)

theorem get?_withEmpty (h : c.contains library = false) (name : String) :
    (c.withEmpty library).get? name =
      if name = library then some (.ofName library) else c.get? name :=
  Table.get?_push h _ name

theorem size_withEmpty (c : Catalog) (library : String) :
    (c.withEmpty library).size = c.size + 1 :=
  Table.size_push ..

theorem libraryNames_withEmpty (c : Catalog) (library : String) :
    (c.withEmpty library).libraryNames = sortNames (library :: c.libraries.keys) := by
  rw [libraryNames, withEmpty, Table.keys_push]
  exact sortNames_eq_of_perm (List.perm_append_singleton library _)

/-- A search through all libraries finds nothing in the empty one, and the others come in the same
order as before. -/
theorem flatMap_sorted_withEmpty {α : Type} (h : c.contains library = false)
    {find : Library → List α} (hfind : find (.ofName library) = []) :
    (c.withEmpty library).sorted.flatMap find = c.sorted.flatMap find := by
  obtain ⟨before, after, hcons, hnames⟩ := exists_sortNames_cons library c.libraries.keys
  -- the new name is not among the old ones
  have hget : ∀ name ∈ before ++ after, (c.withEmpty library).get? name = c.get? name := by
    intro name hname
    rw [← hnames] at hname
    have hkey : name ∈ c.libraries.keys := List.mem_mergeSort.1 hname
    rw [get?_withEmpty h, if_neg]
    rintro rfl
    exact of_decide_eq_false h hkey
  have hsame : ∀ names : List String, (∀ name ∈ names, name ∈ before ++ after) →
      names.filterMap (c.withEmpty library).get? = names.filterMap c.get? := by
    intro names hsub
    exact List.filterMap_congr fun name hname => hget name (hsub name hname)
  have hself : (c.withEmpty library).get? library = some (.ofName library) := by
    rw [get?_withEmpty h, if_pos rfl]
  rw [sorted, sorted, libraryNames_withEmpty, libraryNames, hcons, hnames, List.filterMap_append,
    List.filterMap_append, List.filterMap_cons_some hself,
    hsame before fun name hname => List.mem_append_left _ hname,
    hsame after fun name hname => List.mem_append_right _ hname, List.flatMap_append,
    List.flatMap_append, List.flatMap_cons, hfind, List.nil_append]

theorem resolveIn_ofName (name : String) (parts : List String) :
    resolveIn (.ofName name) parts = [] := by
  have hnamed : ∀ unit, (Library.ofName name).named unit = [] := fun unit => by
    simp [Library.named, Library.contents, Library.ofName, Table.empty]
  unfold resolveIn
  split
  · exact hnamed _
  · rw [hnamed, List.flatMap_nil]
  · rfl

/-- **Paths in a catalog with one more empty library**: it has those that begin with its name, and
finds nothing for them. -/
theorem resolve_withEmpty (h : c.contains library = false) (path : String) :
    (c.withEmpty library).resolve path =
      if (pathParts path).head? = some library then [] else c.resolve path := by
  unfold resolve
  cases pathParts path with
  | nil => rfl
  | cons first rest =>
      simp only [List.head?_cons, Option.some.injEq, get?_withEmpty h]
      by_cases hfirst : first = library
      · simp only [hfirst, if_true, resolveIn_ofName]
      · simp only [hfirst, if_false]
        cases c.get? first with
        | some lib => rfl
        | none => exact flatMap_sorted_withEmpty h (resolveIn_ofName library _)

end Catalog

/-- **A refused call keeps its library.**  Let a call with arbitrary symbols for a library be
refused by a catalog.  The catalog is as before exactly when it had the library.  When it had not,
there is now one library more, which is listed and has no units; the other libraries are as before.
A path that begins with the name of the library stands for nothing any more, and all others stand
for what they have stood for. -/
theorem refused_call_keeps_library (c : Catalog) (call : Insertion) (e : Error)
    (h : (call.run c).2 = some e) :
    let library := call.batch.library
    let c' := (call.run c).1
    (c' = c ↔ c.contains library = true) ∧
    (c.contains library = false →
      c'.size = c.size + 1 ∧
      c'.libraryNames = sortNames (library :: c.libraryNames) ∧
      (∀ name, c'.get? name = if name = library then some (.ofName library) else c.get? name) ∧
      ∀ path, c'.resolve path =
        if (Catalog.pathParts path).head? = some library then [] else c.resolve path) := by
  intro library c'
  have hc' : c' = c.ensure library := call.fst_run_of_refused h
  refine ⟨⟨fun heq => ?_, fun hcontains => ?_⟩, fun hcontains => ?_⟩
  · by_contra hcontains
    have hsize := c.size_withEmpty library
    rw [← Catalog.ensure_eq_withEmpty (Bool.eq_false_iff.2 hcontains), ← hc', heq] at hsize
    omega
  · rw [hc']
    exact if_pos hcontains
  · have hsorted : c.libraryNames.Perm c.libraries.keys := List.mergeSort_perm ..
    rw [hc', Catalog.ensure_eq_withEmpty hcontains]
    refine ⟨c.size_withEmpty library, ?_, Catalog.get?_withEmpty hcontains,
      Catalog.resolve_withEmpty hcontains⟩
    rw [c.libraryNames_withEmpty]
    exact sortNames_eq_of_perm (hsorted.symm.cons library)

/-- Twice the same entity in a file, which is for a new library. -/
theorem refused_call_keeps_library_sample :
    let x : Declaration := ⟨"f.vhd", "x", 1, "work", 0, 0, 0, 0, "", ""⟩
    let y : Declaration := ⟨"g.vhd", "y", 4, "x", 0, 0, 0, 0, "", ""⟩
    let c : Catalog := ((Insertion.symbol "work" (.entity x)).run .empty).1
    let call : Insertion := .file ⟨"g.vhd", "x", [.entity y, .entity y]⟩
    (call.run c).2 = some (.duplicate "g.vhd" "y" 4 "x") ∧ c.contains "x" = false ∧
    (call.run c).1 ≠ c ∧ (call.run c).1.size = 2 ∧
    (call.run c).1.libraryNames = sortNames ("x" :: c.libraryNames) ∧
    ∀ path, (call.run c).1.resolve path =
      if (Catalog.pathParts path).head? = some "x" then [] else c.resolve path := by
  intro x y c call
  have hrun : (call.run c).2 = some (.duplicate "g.vhd" "y" 4 "x") := by decide +kernel
  have hcontains : c.contains "x" = false := by decide +kernel
  obtain ⟨hsame, hnew⟩ := refused_call_keeps_library c call _ hrun
  obtain ⟨hsize, hnames, -, hresolve⟩ := hnew hcontains
  refine ⟨hrun, hcontains, fun heq => ?_, hsize, hnames, hresolve⟩
  exact absurd (hsame.1 heq) (by decide +kernel)

/-- **An entity can no longer be found** after a constant has been refused by a new library that has
the name of the entity. -/
theorem refused_call_hides_entity :
    let x : Declaration := ⟨"f.vhd", "x", 1, "work", 0, 0, 0, 0, "", ""⟩
    let k : Member := ⟨.constant, ⟨"", "c", 1, "", 0, 0, 0, 0, "", ""⟩, ""⟩
    let c : Catalog := ((Insertion.symbol "work" (.entity x)).run .empty).1
    let call : Insertion := .symbol "x" (.member k)
    (call.run c).2 = some (.notAUnit .constant) ∧
    c.libraryNames = ["work"] ∧ (call.run c).1.libraryNames = ["work", "x"] ∧
    c.size = 1 ∧ (call.run c).1.size = 2 ∧
    (c.resolve "x").map Symbol.describe = ["entity work.x"] ∧
    (call.run c).1.resolve "x" = [] := by
  intro x k c call
  have hnames : (call.run c).1.libraryNames = ["work", "x"] := by
    have hkeys : (call.run c).1.libraries.keys = ["work", "x"] := by decide +kernel
    rw [Catalog.libraryNames, hkeys]
    exact List.mergeSort_of_pairwise (by decide)
  have hkinds : ((call.run c).1.resolve "x").map Symbol.kind = [] := by decide +kernel
  exact ⟨by decide +kernel, by decide +kernel, hnames, by decide +kernel, by decide +kernel,
    by decide +kernel, List.map_eq_nil_iff.1 hkinds⟩

end VhdlCatalog
