import VhdlCatalog.Proofs.HeaderSummary
import VhdlCatalog.Render.Plain

/-!
**The outline is complete and in order.**

The outline of a catalog is sorted on three levels, each by its own key, and on the lowest level the
overloads of a subprogram are listed as one.  Still nothing is dropped and nothing comes twice.
Libraries have different names, and units of one library differ in name, line or kind, so on these
two levels the order is strict.

Main definitions:

* `VhdlCatalog.Symbol.rank` — what the units of a library are shown by;
* `VhdlCatalog.Package.ListedAs`, `VhdlCatalog.Library.ListedAs` — what an outline has to say about
  a package, and about a library;
* `VhdlCatalog.OutlineEntry` — a library, a unit or a name of a member.

Main results:

* `VhdlCatalog.Package.count_names` — **how often a name is listed**;
* `VhdlCatalog.Package.listedAs_memberNames`, `VhdlCatalog.Library.listedAs_units` — one package,
  and one library;
* `VhdlCatalog.PlainStyle.renderCatalog_eq` — the entries, one on a line;
* `VhdlCatalog.outline_complete_and_sorted` — **the outline of any catalog**.
-/

set_option relaxedAutoImplicit false
set_option autoImplicit false

namespace VhdlCatalog

/-! ### Names of members -/

namespace Package

/-- The number of keys with a given name, that is, of the places where it is declared. -/
def sites (p : Package) (c : Category) (name : String) : Nat :=
  (p.table c).keys.countP fun i => i.name = name

/-- **How often a name is listed**: once for every place where it is declared, or once for all of
them. -/
theorem count_names (p : Package) (c : Category) (name : String) :
    (p.names c).count name =
      if c.isOverloadable then min 1 (p.sites c name) else p.sites c name := by
  have hsites : ((p.table c).keys.map SymbolId.name).count name = p.sites c name := by
    rw [List.count_eq_countP, List.countP_map, sites]
    exact List.countP_congr fun i _ => by simp
  unfold names
  dsimp only
  rw [sortNames, (List.mergeSort_perm _ _).count_eq]
  split
  · rw [count_eraseDups, hsites]
  · exact hsites

/-- Names are listed for the categories that have members, and for no others. -/
theorem isEmpty_names (p : Package) (c : Category) :
    (p.names c).isEmpty = (p.table c).entries.isEmpty := by
  rw [Bool.eq_iff_iff, List.isEmpty_iff, List.isEmpty_iff]
  constructor
  · intro hnil
    refine List.eq_nil_iff_forall_not_mem.2 fun e he => ?_
    have hpos : 0 < p.sites c e.1.name :=
      List.countP_pos_iff.2 ⟨e.1, List.mem_map_of_mem he, by simp⟩
    have hcount := p.count_names c e.1.name
    rw [hnil, List.count_nil] at hcount
    split at hcount <;> omega
  · intro hnil
    simp [names, Table.keys, hnil, sortNames]

/-- What an outline has to say about the members of a package: the categories that have any, each
with its names. -/
structure ListedAs (p : Package) (members : List (Category × List String)) : Prop where
  labels : members.map Prod.fst =
    [.constant, .function, .procedure, .type, .subtype].filter fun c =>
      !(p.table c).entries.isEmpty
  sorted : ∀ c names, (c, names) ∈ members → names.Pairwise (· ≤ ·)
  counted : ∀ c names, (c, names) ∈ members → ∀ name, names.count name =
    if c = .function ∨ c = .procedure then min 1 (p.sites c name) else p.sites c name

theorem listedAs_memberNames (p : Package) : p.ListedAs (Symbol.package p).memberNames := by
  have hmem : ∀ c names, (c, names) ∈ (Symbol.package p).memberNames → names = p.names c := by
    intro c names h
    obtain ⟨c', -, heq⟩ := List.mem_map.1 (List.mem_of_mem_filter h)
    obtain ⟨rfl, rfl⟩ := Prod.mk.inj heq
    rfl
  refine ⟨?_, fun c names h => ?_, fun c names h name => ?_⟩
  · rw [Symbol.memberNames, List.filter_map, List.map_map]
    refine (List.map_id _).trans (List.filter_congr fun c _ => ?_)
    exact congrArg (!·) (p.isEmpty_names c)
  · rw [hmem c names h]
    exact pairwise_sortNames _
  · rw [hmem c names h, count_names]
    cases c <;> rfl

end Package

/-! ### Units -/

/-- What the units of a library are shown by: name, line and kind. -/
def Symbol.rank (s : Symbol) : String ×ₗ ℤ ×ₗ String :=
  toLex (s.declaration.name, toLex (s.declaration.line, s.kind.label))

theorem Symbol.rank_le_of_unitLe {a b : Symbol} (h : Library.unitLe a b = true) :
    a.rank ≤ b.rank := by
  rw [unitLe_iff] at h
  simp only [unitKey, rank, Prod.Lex.toLex_le_toLex] at h ⊢
  rcases h with hname | ⟨hname, hline | ⟨hline, hkind | ⟨hkind, -⟩⟩⟩
  · exact Or.inl hname
  · exact Or.inr ⟨hname, Or.inl hline⟩
  · exact Or.inr ⟨hname, Or.inr ⟨hline, hkind.le⟩⟩
  · exact Or.inr ⟨hname, Or.inr ⟨hline, hkind.le⟩⟩

theorem Symbol.key_eq_of_rank {a b : Symbol} (h : a.rank = b.rank) : a.key = b.key := by
  simp only [rank, EmbeddingLike.apply_eq_iff_eq, Prod.mk.injEq] at h
  obtain ⟨hname, hline, hlabel⟩ := h
  rw [key, key, Kind.label_inj hlabel, Declaration.id, Declaration.id, hname, hline]

namespace Library

/-- The units, entities first. -/
def unitSymbols (lib : Library) : List Symbol :=
  lib.entities.values.map .entity ++ lib.packages.values.map .package

/-- What an outline has to say about a library: its name, and its units with what they hold. -/
structure ListedAs (lib : Library) (outline : LibraryOutline) : Prop where
  name : outline.name = lib.name
  units : (outline.units.map UnitOutline.symbol).Perm lib.unitSymbols
  ordered : outline.units.Pairwise fun u v => u.symbol.rank < v.symbol.rank
  entities : ∀ u ∈ outline.units, ∀ d, u.symbol = .entity d → u.members = []
  packages : ∀ u ∈ outline.units, ∀ p, u.symbol = .package p → p.ListedAs u.members

/-- **The units of a library** are shown in strict order if they have keys of their own. -/
theorem pairwise_rank_units {name : String} {us : List Symbol} (h : Fits [] us) :
    (ofUnits name us).units.Pairwise fun a b => a.rank < b.rank := by
  have hkeys : ((ofUnits name us).units.map Symbol.key).Nodup :=
    ((units_ofUnits_perm name h.units).map _).nodup_iff.2 h.distinct
  have hsorted : (ofUnits name us).units.Pairwise fun a b => unitLe a b = true :=
    List.pairwise_mergeSort sortOrder_unitLe.trans sortOrder_unitLe.total _
  refine (hsorted.and (List.pairwise_map.1 hkeys)).imp fun ⟨hle, hne⟩ => ?_
  exact lt_of_le_of_ne (Symbol.rank_le_of_unitLe hle) fun hrank => hne (Symbol.key_eq_of_rank hrank)

theorem listedAs_units {name : String} {us : List Symbol} (h : Fits [] us) :
    (ofUnits name us).ListedAs ⟨name, (ofUnits name us).units.map fun s => ⟨s, s.memberNames⟩⟩ where
  name := rfl
  units := by
    have hunits : (ofUnits name us).contents.map Prod.snd = (ofUnits name us).unitSymbols := by
      rw [contents, List.map_append, List.map_map, List.map_map, unitSymbols, Table.values,
        Table.values, List.map_map, List.map_map]
      rfl
    rw [List.map_map, ← hunits]
    exact (List.Perm.of_eq (List.map_id _)).trans (List.mergeSort_perm _ unitLe)
  ordered := List.pairwise_map.2 (pairwise_rank_units h)
  entities := by
    intro u hu d hd
    obtain ⟨s, -, rfl⟩ := List.mem_map.1 hu
    obtain rfl : s = .entity d := hd
    rfl
  packages := by
    intro u hu p hp
    obtain ⟨s, -, rfl⟩ := List.mem_map.1 hu
    obtain rfl : s = .package p := hp
    exact p.listedAs_memberNames

end Library

/-! ### Entries -/

/-- What an outline shows. -/
inductive OutlineEntry where
  /-- A library. -/
  | library (name : String)
  /-- A unit of the library before it. -/
  | unit (symbol : Symbol)
  /-- A name of members of the unit before it. -/
  | member (category : Category) (name : String)

/-- One entry for a unit and one for every name that is listed for its members. -/
def UnitOutline.entries (u : UnitOutline) : List OutlineEntry :=
  .unit u.symbol :: u.members.flatMap fun entry => entry.2.map (.member entry.1)

/-- One entry for a library, before those of its units. -/
def LibraryOutline.entries (outline : LibraryOutline) : List OutlineEntry :=
  .library outline.name :: outline.units.flatMap UnitOutline.entries

namespace PlainStyle

/-- The line for an entry. -/
def line (style : PlainStyle) : OutlineEntry → String
  | .library name => "library " ++ name
  | .unit s => style.margin 1 ++ s.kind.label ++ " " ++ s.declaration.name
  | .member c name => style.margin 2 ++ c.kind.label ++ " " ++ name

theorem unitLines_eq (style : PlainStyle) (u : UnitOutline) :
    style.unitLines u = u.entries.map style.line := by
  rw [unitLines, UnitOutline.entries, List.map_cons, List.map_flatMap]
  simp only [List.map_map]
  rfl

theorem libraryLines_eq (style : PlainStyle) (outline : LibraryOutline) :
    style.libraryLines outline = outline.entries.map style.line := by
  rw [libraryLines, LibraryOutline.entries, List.map_cons, List.map_flatMap,
    funext style.unitLines_eq]
  rfl

/-- **Every entry has one line**, in the order of the outline. -/
theorem renderCatalog_eq (style : PlainStyle) (c : Catalog) :
    style.renderCatalog c =
      "\n".intercalate ((c.outline.flatMap LibraryOutline.entries).map style.line) := by
  rw [renderCatalog, catalogLines, List.map_flatMap, funext style.libraryLines_eq]

end PlainStyle

/-! ### Catalogs -/

/-- **The outline of any catalog is complete and in order.**  Let calls be made on an empty catalog,
some of which may be refused.

The outline has every library once, by strictly ascending names.  Under a library it has exactly the
entities and packages of that library, each of them once, in strictly ascending order of name, line
and kind.  Under a package it has the categories that have members, in their order, and for each of
them its names in ascending order: a constant, type or subtype as often as it is declared, a
function or procedure once if it is declared at all.  An entity has nothing under it.

Plain text has one line for every library, unit and name, in the order of the outline. -/
theorem outline_complete_and_sorted (calls : List Catalog.Call) :
    let c := (Catalog.runAll calls).1
    (c.outline.map LibraryOutline.name).Pairwise (· < ·) ∧
    (c.outline.map LibraryOutline.name).Perm c.libraries.keys ∧
    (∀ outline ∈ c.outline, ∃ lib, c.get? outline.name = some lib ∧ lib.ListedAs outline) ∧
    ∀ style : PlainStyle, style.renderCatalog c =
      "\n".intercalate ((c.outline.flatMap LibraryOutline.entries).map style.line) := by
  intro c
  obtain ⟨bs, hrun, hcompatible, -⟩ := Catalog.exists_runAll_eq calls
  have hc : c = .ofBatches bs := hrun
  have hnames : c.outline.map LibraryOutline.name = c.libraryNames := by
    rw [Catalog.outline, hc, Catalog.sorted_ofBatches, List.map_map, List.map_map]
    exact List.map_id _
  have hperm : c.libraryNames.Perm c.libraries.keys := List.mergeSort_perm ..
  rw [hnames]
  refine ⟨?_, hperm, fun outline h => ?_, fun style => style.renderCatalog_eq c⟩
  · refine pairwise_sortNames_of_nodup ?_
    rw [hc, Catalog.keys_ofBatches]
    exact nodup_eraseDups _
  · have hkey : outline.name ∈ Batch.libraries bs := by
      rw [← Catalog.keys_ofBatches, ← hc, ← hperm.mem_iff, ← hnames]
      exact List.mem_map_of_mem h
    rw [hc, Catalog.outline, Catalog.sorted_ofBatches, List.map_map] at h
    obtain ⟨name, -, rfl⟩ := List.mem_map.1 h
    refine ⟨.ofUnits name (Batch.unitsOf name bs), ?_, Library.listedAs_units (hcompatible name)⟩
    rw [hc, Catalog.get?_ofBatches]
    exact if_pos hkey

/-- A package with two overloads of one function and a constant, and an entity of the same name,
which comes twice and is refused the second time; then a library without units. -/
theorem outline_complete_and_sorted_sample :
    let declared (name : String) (line : Int) : Declaration :=
      ⟨"f.vhd", name, line, "work", 0, 0, 0, 0, "", ""⟩
    let p := (Package.offerAll (declared "x" 3) [.member ⟨.function, declared "f" 5, ""⟩,
      .member ⟨.function, declared "f" 4, ""⟩, .member ⟨.constant, declared "k" 6, ""⟩]).1
    let calls : List Catalog.Call := [.insertion (.symbol "work" (.package p)),
      .insertion (.symbol "work" (.entity (declared "x" 1))),
      .insertion (.symbol "work" (.entity (declared "x" 1))), .library "ieee"]
    let c := (Catalog.runAll calls).1
    (Catalog.runAll calls).2.map Option.isSome = [false, false, true, false] ∧
    (c.outline.map LibraryOutline.name).Pairwise (· < ·) ∧ c.outline.length = 2 ∧
    ∃ outline ∈ c.outline, outline.name = "work" ∧ outline.units.length = 2 ∧
      outline.units.Pairwise (fun u v => u.symbol.rank < v.symbol.rank) ∧
      ∃ u ∈ outline.units, u.symbol = .package p ∧
        u.members.map Prod.fst = [.constant, .function] ∧ p.sites .function "f" = 2 ∧
        ∀ names, (Category.function, names) ∈ u.members → names.count "f" = 1 := by
  intro declared p calls c
  obtain ⟨hascending, hnames, hlisted, -⟩ := outline_complete_and_sorted calls
  have hkeys : c.libraries.keys = ["work", "ieee"] := by decide +kernel
  have hmem : "work" ∈ c.outline.map LibraryOutline.name := by
    rw [hnames.mem_iff, hkeys]
    simp
  have hlength : c.outline.length = 2 := by
    rw [← List.length_map LibraryOutline.name, hnames.length_eq, hkeys]
    rfl
  obtain ⟨outline, houtline, hname⟩ := List.mem_map.1 hmem
  obtain ⟨lib, hlib, hunits⟩ := hlisted outline houtline
  rw [hname] at hlib
  have hwork : c.get? "work" =
      some ⟨"work", ⟨[(⟨"x", 1⟩, declared "x" 1)]⟩, ⟨[(⟨"x", 3⟩, p)]⟩⟩ := rfl
  obtain rfl := Option.some.inj (hlib.symm.trans hwork)
  have hpackage : Symbol.package p ∈ outline.units.map UnitOutline.symbol :=
    hunits.units.mem_iff.2 (List.mem_append_right _ (List.mem_singleton_self _))
  obtain ⟨u, hu, hsymbol⟩ := List.mem_map.1 hpackage
  have hmembers := hunits.packages u hu p hsymbol
  refine ⟨by decide +kernel, hascending, hlength, outline, houtline, hname, ?_, hunits.ordered, u,
    hu, hsymbol, hmembers.labels, by decide +kernel, fun names h => ?_⟩
  · rw [← List.length_map UnitOutline.symbol, hunits.units.length_eq]
    rfl
  · rw [hmembers.counted .function names h]
    decide +kernel

end VhdlCatalog
