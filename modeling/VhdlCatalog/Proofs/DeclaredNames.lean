import VhdlCatalog.Proofs.Canonical
import VhdlCatalog.Proofs.ConcurrentBuild
import VhdlCatalog.Proofs.LibraryNames
import VhdlCatalog.Proofs.OpeningForms

/-!
**What a scan names its declarations.**

Declared names are cut out of lower-cased lines, so lower-casing leaves them alone.  The name of a
unit is a word of its opening line: it is not empty and has no dot.  Of the name of a member this
cannot be said, because an operator may have any characters between its quotes, and is cut at its
commas.  The scope of a unit is the library of its file, and the scope of a member is its package.

Main definitions:

* `VhdlCatalog.IsLower` — texts that lower-casing leaves alone;
* `VhdlCatalog.IsComponent` — names that can be components of a dotted path;
* `VhdlCatalog.Package.DeclaredIn`, `VhdlCatalog.Symbol.DeclaredIn` — a unit of a library, as a scan
  declares it.

Main results:

* `VhdlCatalog.name_of_unitOpening?`, `VhdlCatalog.subset_of_memberOpening?` — the names that
  opening lines declare;
* `VhdlCatalog.declaredIn_of_scanSource` — **all units of a scanned file** are declared in its
  library.
-/

set_option relaxedAutoImplicit false
set_option autoImplicit false

namespace VhdlCatalog

open Source

/-! ### Texts in lower case -/

/-- Lower-casing leaves every character of the text alone. -/
def IsLower (s : String) : Prop := ∀ c ∈ s.toList, isLowered c = true

theorem isLower_lowerName (name : String) : IsLower (Config.lowerName name) := by
  intro c hc
  rw [Config.lowerName, String.toList_ofList] at hc
  exact Text.isLowered_of_mem_lowerFrom hc

theorem lowerName_eq_self_iff {s : String} : Config.lowerName s = s ↔ IsLower s := by
  constructor
  · intro h
    rw [← h]
    exact isLower_lowerName s
  · intro h
    rw [Config.lowerName, Text.lower, Text.lowerFrom_of_isLowered h, String.ofList_toList]

/-- A name that can be a component of a dotted path: not empty, in lower case and without a dot. -/
structure IsComponent (name : String) : Prop where
  nonempty : name ≠ ""
  lower : IsLower name
  dotless : '.' ∉ name.toList

/-! ### Cutting -/

namespace Text

theorem pieces_eq_splitOnP (p : Char → Bool) (cs : List Char) :
    pieces p cs = cs.splitOnP p := by
  induction cs with
  | nil => rfl
  | cons c cs ih =>
      rw [pieces_cons, ih, List.splitOnP_cons_eq_if_modifyHead]
      cases hcs : cs.splitOnP p with
      | nil => exact absurd hcs (List.splitOnP_ne_nil p cs)
      | cons piece more => rfl

theorem pieces_ne_nil (p : Char → Bool) (cs : List Char) : pieces p cs ≠ [] := by
  rw [pieces_eq_splitOnP]
  exact List.splitOnP_ne_nil p cs

/-- A piece has characters of the text between two cuts. -/
theorem mem_of_mem_pieces {p : Char → Bool} {cs piece : List Char} (h : piece ∈ pieces p cs) :
    ∀ c ∈ piece, c ∈ cs ∧ p c = false := by
  induction cs generalizing piece with
  | nil =>
      rw [pieces_nil, List.mem_singleton] at h
      rw [h]
      exact fun c hc => by cases hc
  | cons c cs ih =>
      have hold : ∀ piece ∈ pieces p cs, ∀ x ∈ piece, x ∈ c :: cs ∧ p x = false :=
        fun piece hpiece x hx => ⟨List.mem_cons_of_mem _ (ih hpiece x hx).1, (ih hpiece x hx).2⟩
      rw [pieces_cons] at h
      cases hpieces : pieces p cs with
      | nil => exact absurd hpieces (pieces_ne_nil p cs)
      | cons first more =>
          rw [hpieces] at hold
          rw [hpieces, extendPieces] at h
          split at h
          · rcases List.mem_cons.1 h with rfl | h
            · exact fun x hx => by cases hx
            · exact hold piece h
          · next hc =>
              rcases List.mem_cons.1 h with rfl | h
              · intro x hx
                rcases List.mem_cons.1 hx with rfl | hx
                · exact ⟨List.mem_cons_self .., Bool.eq_false_iff.2 hc⟩
                · exact hold first (List.mem_cons_self ..) x hx
              · exact hold piece (List.mem_cons_of_mem _ h)

theorem strip_subset (cs : List Char) : strip cs ⊆ cs := by
  intro c hc
  rw [strip, trimEnd, List.mem_reverse] at hc
  have hskip := List.mem_reverse.1 ((List.dropWhile_sublist _).subset hc)
  exact (List.dropWhile_sublist _).subset hskip

end Text

/-- No word character is white space. -/
theorem isBlank_of_isWord {c : Char} (h : isWord c = true) : isBlank c = false := by
  have hblanks : ∀ r ∈ blanks.ranges, ∀ k < r.2 + 1 - r.1,
      isWord (Char.ofNat (r.1 + k)) = false := by
    decide +kernel
  refine Bool.eq_false_iff.2 fun hblank => ?_
  obtain ⟨r, hr, hfirst, hlast⟩ := (CharSet.contains_iff _ _).1 hblank
  have hword := hblanks r hr (c.toNat - r.1) (by omega)
  rw [Nat.add_sub_cancel' hfirst, Char.ofNat_toNat, h] at hword
  cases hword

/-! ### Words -/

namespace Token

/-- What is taken off as a word is one, and stands in the line. -/
theorem word_of_identifier? {cs name rest : List Char} (h : identifier? cs = some (name, rest)) :
    name ≠ [] ∧ (∀ c ∈ name, isWord c = true) ∧ name ⊆ cs ∧ rest <:+ cs := by
  have hskip : Text.skipBlanks cs <:+ cs := List.dropWhile_suffix _
  unfold identifier? at h
  split at h
  · cases h
  · next c word htake =>
      obtain ⟨rfl, rfl⟩ := Prod.mk.inj (Option.some.inj h)
      rw [← htake]
      refine ⟨by simp [htake], fun c hc => List.mem_takeWhile_imp hc, ?_,
        (List.dropWhile_suffix _).trans hskip⟩
      exact List.Subset.trans (List.takeWhile_sublist _).subset hskip.subset

theorem suffix_of_mark? {mark : Char} {cs rest : List Char} (h : mark? mark cs = some rest) :
    rest <:+ cs := by
  have hskip : Text.skipBlanks cs <:+ cs := List.dropWhile_suffix _
  unfold mark? at h
  split at h
  · next d tail heq =>
      rw [heq] at hskip
      split at h
      · obtain rfl := Option.some.inj h
        exact (List.suffix_cons _ _).trans hskip
      · cases h
  · cases h

theorem subset_of_mem_moreIdentifiers {cs name : List Char} (h : name ∈ moreIdentifiers cs) :
    name ⊆ cs := by
  fun_induction moreIdentifiers cs with
  | case1 cs hnone => cases h
  | case2 cs word rest hsome ih =>
      obtain ⟨after, hmark, hword⟩ := Option.bind_eq_some_iff.1 hsome
      obtain ⟨-, -, hsub, hrest⟩ := word_of_identifier? hword
      have hafter := suffix_of_mark? hmark
      rcases List.mem_cons.1 h with rfl | h
      · exact List.Subset.trans hsub hafter.subset
      · exact List.Subset.trans (ih h) (hrest.trans hafter).subset

end Token

theorem word_of_headed? {word : String} {line name rest : List Char}
    (h : headed? word line = some (name, rest)) :
    name ≠ [] ∧ (∀ c ∈ name, isWord c = true) ∧ name ⊆ line := by
  obtain ⟨before, after, hkeyword, hname, -⟩ := exists_of_headed? h
  obtain ⟨hne, hword, hsub, -⟩ := Token.word_of_identifier? hname
  exact ⟨hne, hword, List.Subset.trans hsub (Token.suffix_of_keyword? hkeyword).subset⟩

/-! ### Opening lines -/

/-- A word is a designator that declares one name. -/
theorem ofDesignator_of_isWord {φ : Type} (form : φ) {name : List Char}
    (h : ∀ c ∈ name, isWord c = true) : Opening.ofDesignator form name = ⟨form, name, []⟩ := by
  refine Canonical.ofDesignator_of_forall form (fun c hc => ?_) fun c hc =>
    isBlank_of_isWord (h c hc)
  refine Bool.eq_false_iff.2 fun heq => ?_
  have hword := h c hc
  rw [beq_iff_eq.1 heq] at hword
  revert hword
  decide

/-- **The names that a designator declares** are cut out of it. -/
theorem subset_of_mem_ofDesignator {φ : Type} {form : φ} {designator name : List Char}
    (h : name ∈ (Opening.ofDesignator form designator).names) : name ⊆ designator := by
  have hmem : name ∈ (Text.pieces (· == ',') designator).map Text.strip ∨ name = [] := by
    unfold Opening.ofDesignator at h
    split at h
    · exact Or.inr (List.mem_singleton.1 h)
    · next heq =>
        rw [heq]
        exact Or.inl h
  rcases hmem with hmem | rfl
  · obtain ⟨piece, hpiece, rfl⟩ := List.mem_map.1 hmem
    exact fun c hc => (Text.mem_of_mem_pieces hpiece c (Text.strip_subset piece hc)).1
  · exact List.nil_subset _

/-- **The name of a unit** is a word of its opening line. -/
theorem name_of_unitOpening? {line : List Char} {o : Opening UnitForm}
    (h : unitOpening? line = some o) :
    o.name ≠ [] ∧ (∀ c ∈ o.name, isWord c = true) ∧ o.name ⊆ line := by
  cases opensUnit_of_unitOpening? h with
  | entity hhead | package hhead _ =>
      have hword := word_of_headed? hhead
      rwa [ofDesignator_of_isWord _ hword.2.1]

theorem subset_of_operator? {cs designator rest : List Char}
    (h : operator? cs = some (designator, rest)) : designator ⊆ cs := by
  have hskip : Text.skipBlanks cs ⊆ cs := (List.dropWhile_sublist _).subset
  unfold operator? at h
  split at h
  · next tail heq =>
      rw [heq] at hskip
      split at h
      · next c name after htake _ =>
          obtain ⟨rfl, -⟩ := Prod.mk.inj (Option.some.inj h)
          have hname : c :: name ⊆ tail := htake ▸ (List.takeWhile_sublist _).subset
          intro x hx
          rw [List.cons_append, List.mem_cons, List.mem_append, List.mem_singleton] at hx
          rcases hx with rfl | hx | rfl
          · exact hskip (List.mem_cons_self ..)
          · exact hskip (List.mem_cons_of_mem _ (hname hx))
          · exact hskip (List.mem_cons_self ..)
      · cases h
  · cases h

theorem subset_of_designator? {cs designator rest : List Char}
    (h : designator? cs = some (designator, rest)) : designator ⊆ cs := by
  unfold designator? at h
  split at h
  · rcases Option.or_eq_some_iff.1 h with h | ⟨-, h⟩
    · exact (Token.word_of_identifier? h).2.2.1
    · exact subset_of_operator? h
  · cases h

/-- **The names of members** are cut out of their opening line. -/
theorem subset_of_memberOpening? {line : List Char} {o : Opening MemberForm}
    (h : memberOpening? line = some o) {name : List Char} (hname : name ∈ o.names) :
    name ⊆ line := by
  cases opensMember_of_memberOpening? h with
  | constant hkeyword hfirst =>
      obtain ⟨-, -, hsub, hrest⟩ := Token.word_of_identifier? hfirst
      have hcs := (Token.suffix_of_keyword? hkeyword).subset
      rcases List.mem_cons.1 hname with rfl | hname
      · exact List.Subset.trans hsub hcs
      · exact List.Subset.trans (Token.subset_of_mem_moreIdentifiers hname)
          (List.Subset.trans hrest.subset hcs)
  | arrayType hhead _ | enumType hhead _ | recordType hhead _ | subtype hhead =>
      exact List.Subset.trans (subset_of_mem_ofDesignator hname) (word_of_headed? hhead).2.2
  | function hkeyword hdesignator _ =>
      have hcs := (Token.suffix_of_keyword? hkeyword).trans (suffix_skipPurity line)
      exact List.Subset.trans (subset_of_mem_ofDesignator hname)
        (List.Subset.trans (subset_of_designator? hdesignator) hcs.subset)
  | procedure hkeyword hfirst _ =>
      have hcs := (Token.suffix_of_keyword? hkeyword).subset
      exact List.Subset.trans (subset_of_mem_ofDesignator hname)
        (List.Subset.trans (Token.word_of_identifier? hfirst).2.2.1 hcs)

/-! ### Declarations -/

/-- The package is a unit of the library: its name can stand in a path, and its members have it as
their scope. -/
structure Package.DeclaredIn (library : String) (p : Package) : Prop where
  scope : p.declaration.scope = library
  name : IsComponent p.declaration.name
  own : ∀ e ∈ p.entries, e.1 = e.2.declaration.id
  memberScope : ∀ m ∈ p.members, m.declaration.scope = p.declaration.qualifiedName
  memberLower : ∀ m ∈ p.members, IsLower m.declaration.name

/-- The symbol is a unit of the library, as a scan declares it. -/
def Symbol.DeclaredIn (library : String) : Symbol → Prop
  | entity d => d.scope = library ∧ IsComponent d.name
  | package p => p.DeclaredIn library
  | member _ => False

theorem Symbol.DeclaredIn.scope {library : String} {s : Symbol} (h : s.DeclaredIn library) :
    s.declaration.scope = library := by
  cases s with
  | entity d => exact h.1
  | package p => exact Package.DeclaredIn.scope h
  | member m => exact h.elim

theorem Symbol.DeclaredIn.name {library : String} {s : Symbol} (h : s.DeclaredIn library) :
    IsComponent s.declaration.name := by
  cases s with
  | entity d => exact h.2
  | package p => exact Package.DeclaredIn.name h
  | member m => exact h.elim

namespace Scan

/-- Names that are cut out of a code line are in lower case. -/
theorem isLower_of_subset {l : CodeLine} {name : List Char} (h : name ⊆ l.line) :
    IsLower (String.ofList name) := by
  intro c hc
  rw [String.toList_ofList] at hc
  exact Text.isLowered_of_mem_lowerFrom (h hc)

theorem isComponent_of_unitOpening? {l : CodeLine} {o : Opening UnitForm}
    (h : unitOpening? l.line = some o) : IsComponent (String.ofList o.name) := by
  obtain ⟨hne, hword, hsub⟩ := name_of_unitOpening? h
  refine ⟨fun hempty => ?_, isLower_of_subset hsub, fun hdot => ?_⟩
  · exact hne (by simpa using congrArg String.toList hempty)
  · have hisWord := hword '.' (by simpa using hdot)
    revert hisWord
    decide

/-- **A package as it is read** is declared in the library of its file. -/
theorem Header.declaredIn (t : Target) (h : Header) (stop : Nat) :
    (h.package t stop).DeclaredIn t.library where
  scope := rfl
  name := isComponent_of_unitOpening? h.opens
  own := by
    intro e he
    obtain ⟨c, -, he⟩ := List.mem_flatMap.1 he
    rw [Header.package, Package.table_ofMembers] at he
    obtain ⟨m, -, rfl⟩ := List.mem_map.1 he
    rfl
  memberScope := by
    intro m hm
    rw [Header.package, Package.mem_members_ofMembers] at hm
    obtain ⟨item, -, hm⟩ := List.mem_flatMap.1 hm
    cases item with
    | other l _ _ => cases hm
    | member b =>
        obtain ⟨name, -, rfl⟩ := List.mem_map.1 hm
        rfl
  memberLower := by
    intro m hm
    rw [Header.package, Package.mem_members_ofMembers] at hm
    obtain ⟨item, -, hm⟩ := List.mem_flatMap.1 hm
    cases item with
    | other l _ _ => cases hm
    | member b =>
        obtain ⟨name, hname, rfl⟩ := List.mem_map.1 hm
        exact isLower_of_subset (subset_of_memberOpening? b.opens hname)

end Scan

/-- **All units of a scanned file** are declared in its library. -/
theorem declaredIn_of_scanSource {filepath library : String} {data : Bytes} {file : FileScan}
    (h : (scanSource filepath library data).result = .ok file) :
    ∀ s ∈ file.units, s.DeclaredIn file.library := by
  obtain ⟨items, -, hunits⟩ := exists_items_of_scanSource h
  rw [hunits, library_of_scanSource h]
  intro s hs
  obtain ⟨item, -, hs⟩ := List.mem_flatMap.1 hs
  cases item with
  | other l _ => cases hs
  | entity b =>
      rw [List.mem_singleton.1 hs]
      exact ⟨rfl, Scan.isComponent_of_unitOpening? b.opens⟩
  | package b =>
      rw [List.mem_singleton.1 hs]
      exact Scan.Header.declaredIn (.ofFile filepath library) b.toHeader b.last.stop

end VhdlCatalog
