import VhdlCatalog.Proofs.MemberOrder

/-!
**Identities are unique within a file.**

Tables compare keys within one category of one package only.  In a file that has been scanned this
is enough: line numbers ascend from one opening line to the next, inside packages as well, and what
is declared by one opening line has names of its own.  So any two symbols of the file, whatever they
are and wherever they stand, differ in line or name.  An empty catalog has nothing to refuse then,
and has as many identities afterwards as the file has symbols.

Main definitions:

* `VhdlCatalog.Declaration.Precedes` — one declaration before another, or at the same site under
  another name;
* `VhdlCatalog.Declaration.identity` — what a catalog knows a symbol by;
* `VhdlCatalog.Scan.FileItem.declared` — what a part of a file declares, in the order of the lines.

Main results:

* `VhdlCatalog.Scan.pairwise_of_numbered` — parts with ascending lines, one after another;
* `VhdlCatalog.Scan.FileItem.pairwise_declared` — one part of a file;
* `VhdlCatalog.exists_declared_of_scanSource` — **the declarations of a file** in the order of its
  lines;
* `VhdlCatalog.Catalog.identities_of_units` — the identities of a catalog with one library;
* `VhdlCatalog.identities_of_scanSource` — **identities are unique within a file**.
-/

set_option relaxedAutoImplicit false
set_option autoImplicit false

namespace VhdlCatalog

open Source

/-! ### Order of declaration -/

namespace Declaration

variable {d d' : Declaration}

/-- The first declaration is on an earlier line, or has another name and shares site and scope. -/
inductive Precedes (d d' : Declaration) : Prop
  | earlier (hline : d.line < d'.line)
  | beside (hsite : d.SharesSite d') (hscope : d.scope = d'.scope) (hname : d.name ≠ d'.name)

/-- What a catalog knows a symbol by that is declared in the given library. -/
def identity (library : String) (d : Declaration) : Identity := ⟨library, d.qualifiedName, d.line⟩

theorem Precedes.id_ne (h : d.Precedes d') : d.id ≠ d'.id := by
  intro heq
  obtain ⟨hname, hline⟩ := SymbolId.mk.inj heq
  cases h with
  | earlier hlt => exact absurd hline hlt.ne
  | beside _ _ hne => exact hne hname

/-- In one scope, names are known from qualified names. -/
theorem name_eq_of_qualifiedName (hscope : d.scope = d'.scope)
    (h : d.qualifiedName = d'.qualifiedName) : d.name = d'.name := by
  rw [qualifiedName, qualifiedName, hscope] at h
  split at h
  · exact h
  · exact String.append_right_inj _ |>.1 h

theorem Precedes.identity_ne (h : d.Precedes d') (library : String) :
    d.identity library ≠ d'.identity library := by
  intro heq
  obtain ⟨-, hqualified, hline⟩ := Identity.mk.inj heq
  cases h with
  | earlier hlt => exact absurd hline hlt.ne
  | beside _ hscope hne => exact hne (name_eq_of_qualifiedName hscope hqualified)

theorem Precedes.site (h : d.Precedes d') (hline : d.line = d'.line) :
    d.SharesSite d' ∧ d.scope = d'.scope := by
  cases h with
  | earlier hlt => exact absurd hline hlt.ne
  | beside hsite hscope _ => exact ⟨hsite, hscope⟩

theorem SharesSite.refl (d : Declaration) : d.SharesSite d := ⟨rfl, rfl, rfl, rfl, rfl, rfl, rfl⟩

theorem SharesSite.symm (h : d.SharesSite d') : d'.SharesSite d :=
  ⟨h.line.symm, h.docStart.symm, h.docStop.symm, h.codeStart.symm, h.codeStop.symm,
    h.signature.symm, h.summary.symm⟩

/-- Of two declarations on one line neither is earlier, so they share site and scope. -/
theorem site_of_line_eq {ds : List Declaration} (h : ds.Pairwise Precedes) (hd : d ∈ ds)
    (hd' : d' ∈ ds) : d.line = d'.line → d.SharesSite d' ∧ d.scope = d'.scope :=
  List.Pairwise.forall_of_forall_of_flip (R := fun d d' : Declaration =>
      d.line = d'.line → d.SharesSite d' ∧ d.scope = d'.scope)
    (fun d _ _ => ⟨.refl d, rfl⟩) (h.imp Precedes.site)
    (h.imp fun h hline => ((h.site hline.symm).imp SharesSite.symm Eq.symm)) hd hd'

end Declaration

open Declaration (Precedes)

namespace Scan

variable {t : Target}

/-! ### Parts of a file -/

/-- **Parts with ascending lines**, one after another: what is made on their lines is in order if it
is so within each part. -/
theorem pairwise_of_numbered {ι : Type} {parts : List ι} {lines : ι → List CodeLine}
    {made : ι → List Declaration}
    (hline : ∀ i, ∀ d ∈ made i, ∃ l ∈ lines i, d.line = l.number)
    (hpart : ∀ i ∈ parts, Numbered (lines i) → (made i).Pairwise Precedes)
    (hn : Numbered (parts.flatMap lines)) : (parts.flatMap made).Pairwise Precedes := by
  obtain ⟨hwithin, hbetween⟩ := List.pairwise_flatMap.1 hn
  refine List.pairwise_flatMap.2 ⟨fun i hi => hpart i hi (hwithin i hi), hbetween.imp ?_⟩
  intro i j hlt d hd d' hd'
  obtain ⟨l, hl, hdl⟩ := hline i d hd
  obtain ⟨l', hl', hdl'⟩ := hline j d' hd'
  have hnumber := hlt l hl l' hl'
  exact .earlier (by omega)

/-- What is declared by one line under different names. -/
theorem HeaderItem.pairwise_members {name : List Char} {scope : String} {item : HeaderItem name}
    (h : item.Distinct) : ((item.members t scope).map Member.declaration).Pairwise Precedes := by
  cases item with
  | other l _ _ => exact List.Pairwise.nil
  | member b =>
      rw [members, MemberBlock.members, List.map_map, List.pairwise_map]
      refine (show b.opening.names.Nodup from h).imp ?_
      intro n n' hne
      exact .beside ⟨rfl, rfl, rfl, rfl, rfl, rfl, rfl⟩ rfl fun heq =>
        hne (String.ofList_injective heq)

namespace FileItem

/-- What the part declares, in the order of the lines. -/
def declared (t : Target) : FileItem → List Declaration
  | other .. => []
  | entity b => [b.declaration t]
  | package b => b.toHeader.declaration t b.last.stop ::
      b.items.flatMap fun item =>
        (item.members t (b.toHeader.declaration t b.first.stop).qualifiedName).map
          Member.declaration

theorem exists_line {item : FileItem} {d : Declaration} (h : d ∈ item.declared t) :
    ∃ l ∈ item.lines, d.line = l.number := by
  cases item with
  | other l _ => cases h
  | entity b =>
      obtain rfl := List.mem_singleton.1 h
      exact ⟨b.first, by simp [lines], rfl⟩
  | package b =>
      rcases List.mem_cons.1 h with rfl | h
      · exact ⟨b.first, by simp [lines, Header.lines], rfl⟩
      · obtain ⟨part, hpart, hd⟩ := List.mem_flatMap.1 h
        obtain ⟨m, hm, rfl⟩ := List.mem_map.1 hd
        obtain ⟨l, hl, hline⟩ := HeaderItem.exists_line hm
        refine ⟨l, List.mem_append_left _ (List.mem_cons_of_mem _ ?_), hline⟩
        exact List.mem_flatMap.2 ⟨part, hpart, hl⟩

/-- **One part of a file**: the package comes first, then its members line by line. -/
theorem pairwise_declared {item : FileItem} (h : item.Distinct) (hn : Numbered item.lines) :
    (item.declared t).Pairwise Precedes := by
  cases item with
  | other l _ => exact List.Pairwise.nil
  | entity b => exact List.pairwise_singleton _ _
  | package b =>
      obtain ⟨hfirst, hitems⟩ := List.pairwise_cons.1 (numbered_append.1 hn).1
      have hline : ∀ (part : HeaderItem b.opening.name) (scope : String),
          ∀ d ∈ (part.members t scope).map Member.declaration,
            ∃ l ∈ part.lines, d.line = l.number := by
        intro part scope d hd
        obtain ⟨m, hm, rfl⟩ := List.mem_map.1 hd
        exact HeaderItem.exists_line hm
      refine List.pairwise_cons.2 ⟨fun d hd => ?_, ?_⟩
      · obtain ⟨part, hpart, hd⟩ := List.mem_flatMap.1 hd
        obtain ⟨l, hl, hdl⟩ := hline part _ d hd
        have hlt := hfirst l (List.mem_flatMap.2 ⟨part, hpart, hl⟩)
        have hpackage : (b.toHeader.declaration t b.last.stop).line = b.first.number := rfl
        exact .earlier (by omega)
      · exact pairwise_of_numbered (fun part d hd => hline part _ d hd)
          (fun part hpart _ => HeaderItem.pairwise_members (h part hpart)) hitems

/-- The declarations of the units are those of the part. -/
theorem declarations_perm (item : FileItem) :
    ((item.units t).flatMap Symbol.declarations).Perm (item.declared t) := by
  cases item with
  | other l _ => exact List.Perm.nil
  | entity b => exact List.Perm.refl _
  | package b =>
      rw [units, List.flatMap_singleton, Symbol.declarations, declared]
      refine List.Perm.cons _ ?_
      rw [← List.map_flatMap]
      exact (Package.members_ofMembers_perm _ _).map _

end FileItem

end Scan

/-! ### Catalogs of one file -/

namespace Catalog

theorem unitIdentities_eq (library : String) (s : Symbol) :
    unitIdentities library s = s.declarations.map (Declaration.identity library) := by
  cases s with
  | entity d => rfl
  | package p =>
      rw [unitIdentities, Symbol.declarations, List.map_cons, Package.members, List.map_map,
        List.map_map]
      rfl
  | member m => rfl

/-- An empty catalog has nothing to refuse but what does not fit together. -/
theorem addSymbols_empty {library : String} {units : List Symbol} (h : Library.Fits [] units) :
    empty.addSymbols library units = (ofBatches [⟨library, units⟩], none) := by
  let b : Batch := ⟨library, units⟩
  have hb : Library.Fits (Batch.unitsOf b.library []) b.symbols := h
  exact addSymbols_of_fits hb

/-- **The identities of a catalog with one library** are those of all declarations, if these have
different ones. -/
theorem identities_of_units {library : String} {units : List Symbol}
    (hunits : ∀ s ∈ units, s.isUnit = true)
    (h : ((units.flatMap Symbol.declarations).map (Declaration.identity library)).Nodup) :
    (ofBatches [⟨library, units⟩]).identities.Perm
      ((units.flatMap Symbol.declarations).map (Declaration.identity library)) := by
  have hsorted : (ofBatches [⟨library, units⟩]).sorted = [Library.ofUnits library units] := by
    have hnames : (ofBatches [⟨library, units⟩]).libraryNames = [library] :=
      List.mergeSort_singleton _
    rw [sorted_ofBatches, hnames, List.map_singleton]
    simp [Batch.unitsOf]
  have hall : ((Library.ofUnits library units).units.flatMap (unitIdentities library)).Perm
      ((units.flatMap Symbol.declarations).map (Declaration.identity library)) := by
    rw [List.map_flatMap, ← funext (unitIdentities_eq library)]
    exact (Library.units_ofUnits_perm library hunits).flatMap_right _
  rw [identities, hsorted, List.flatMap_singleton, Library.name_ofUnits]
  refine (List.mergeSort_perm ..).trans ?_
  exact (eraseDups_perm_self (hall.nodup_iff.2 h)).trans hall

end Catalog

/-! ### Files -/

variable {filepath library : String} {data : Bytes} {file : FileScan}

/-- **The declarations of a file** can be put in the order of its lines. -/
theorem exists_declared_of_scanSource (h : (scanSource filepath library data).result = .ok file) :
    ∃ ds : List Declaration, file.declarations.Perm ds ∧ ds.Pairwise Precedes := by
  obtain ⟨items, hlines, hitems, hunits⟩ := exists_distinct_items_of_scanSource h
  have hn := numbered_codeLines data
  rw [hlines] at hn
  refine ⟨items.flatMap (Scan.FileItem.declared (.ofFile filepath library)), ?_,
    Scan.pairwise_of_numbered (fun _ _ => Scan.FileItem.exists_line)
      (fun item hitem => Scan.FileItem.pairwise_declared (hitems item hitem)) hn⟩
  rw [FileScan.declarations, hunits, List.flatMap_assoc]
  exact List.Perm.flatMap_left _ fun item _ => item.declarations_perm

/-- **Identities are unique within a file.**  No two symbols of a file that has been scanned, units
and members of whatever kind, agree in name and line.  If two of them are on one line, they have
been declared by the same opening line, in the same scope and with the same extent.

So an empty catalog takes the file up, and its identities are those of the symbols of the file, each
of them once. -/
theorem identities_of_scanSource (h : (scanSource filepath library data).result = .ok file) :
    (file.declarations.map Declaration.id).Nodup ∧
    (∀ d ∈ file.declarations, ∀ d' ∈ file.declarations, d.line = d'.line →
      d.SharesSite d' ∧ d.scope = d'.scope ∧
      ∃ first ∈ codePlaces data, d.line = first.number ∧ d.codeStart = first.start) ∧
    let merged := Catalog.empty.addSymbols file.library file.units
    merged.2 = none ∧
    merged.1.identities.Nodup ∧
    merged.1.identities.Perm (file.declarations.map (Declaration.identity file.library)) ∧
    merged.1.identities.length = file.declarations.length := by
  obtain ⟨ds, hperm, hordered⟩ := exists_declared_of_scanSource h
  have hids : (ds.map Declaration.id).Nodup :=
    List.pairwise_map.2 (hordered.imp Precedes.id_ne)
  have hidentities : (ds.map (Declaration.identity file.library)).Nodup :=
    List.pairwise_map.2 (hordered.imp fun h => h.identity_ne _)
  have hnodup := (hperm.map (Declaration.identity file.library)).nodup_iff.2 hidentities
  refine ⟨(hperm.map _).nodup_iff.2 hids, fun d hd d' hd' hline => ?_, ?_⟩
  · obtain ⟨hsite, hscope⟩ := Declaration.site_of_line_eq hordered (hperm.mem_iff.1 hd)
      (hperm.mem_iff.1 hd') hline
    obtain ⟨first, hfirst, last, -, hspans, -⟩ := exists_spans_of_scanSource h hd
    exact ⟨hsite, hscope, first.place, map_place_codeLines data ▸ List.mem_map_of_mem hfirst,
      hspans.line, hspans.codeStart⟩
  · have hfits := fits_of_scanSource h
    have hall := Catalog.identities_of_units hfits.units hnodup
    intro merged
    have hmerged : merged = (.ofBatches [⟨file.library, file.units⟩], none) :=
      Catalog.addSymbols_empty hfits
    rw [hmerged]
    exact ⟨rfl, hall.nodup_iff.2 hnodup, hall, by rw [hall.length_eq, List.length_map]; rfl⟩

/-- The sample has two units and four members, two of which are on one line. -/
theorem identities_of_sample :
    ∃ file d d', (scanSource "sample.vhd" "Work" sample).result = .ok file ∧
      d ∈ file.declarations ∧ d' ∈ file.declarations ∧ d.name = "a" ∧ d'.name = "b" ∧
      (file.declarations.map Declaration.id).Nodup ∧ d.SharesSite d' ∧
      (Catalog.empty.addSymbols file.library file.units).2 = none ∧
      (Catalog.empty.addSymbols file.library file.units).1.identities.length = 6 := by
  have hcount : (scanSource "sample.vhd" "Work" sample).result.toOption.map
      (fun file => file.declarations.map Declaration.id) =
        some [⟨"p", 2⟩, ⟨"a", 5⟩, ⟨"b", 5⟩, ⟨"q", 6⟩, ⟨"r", 9⟩, ⟨"e", 13⟩] := by
    decide +kernel
  obtain ⟨file, h, hids⟩ := exists_file_sample hcount
  obtain ⟨hnodup, hsites, hnone, -, -, hlength⟩ := identities_of_scanSource h
  have hmem : ∀ id ∈ file.declarations.map Declaration.id, ∃ d ∈ file.declarations, d.id = id :=
    fun _ => List.mem_map.1
  obtain ⟨d, hd, hid⟩ := hmem ⟨"a", 5⟩ (by simp [hids])
  obtain ⟨d', hd', hid'⟩ := hmem ⟨"b", 5⟩ (by simp [hids])
  obtain ⟨hname, hline⟩ := SymbolId.mk.inj hid
  obtain ⟨hname', hline'⟩ := SymbolId.mk.inj hid'
  refine ⟨file, d, d', h, hd, hd', hname, hname', hnodup,
    (hsites d hd d' hd' (hline.trans hline'.symm)).1, hnone, ?_⟩
  rw [hlength, ← List.length_map Declaration.id, hids]
  rfl

end VhdlCatalog
