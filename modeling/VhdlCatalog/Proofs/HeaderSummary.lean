import Mathlib.Data.List.Perm.Basic
import VhdlCatalog.Proofs.CatalogRuns
import VhdlCatalog.Proofs.Failures
import VhdlCatalog.Proofs.Summaries

/-!
**The summary of a package header.**

The header of a package is summarised category by category.  Functions and procedures are listed
through their names: every name once, and under it its overloads by line.  All other members are
listed through the keys of their table.  Both ways come to the same, which is to sort the members by
name and line.  In a package that has been read from a file every member moreover has one line that
is not empty, so the lines of the summary can be told from the empty lines between categories.

Main definitions:

* `VhdlCatalog.Package.ordered` — the members of a category by name and line;
* `VhdlCatalog.Package.headerBlocks` — their headlines, for the categories that have members;
* `VhdlCatalog.Text.Unbroken` — a text on one line.

Main results:

* `VhdlCatalog.Package.listed_eq_ordered` — **one order for all categories**;
* `VhdlCatalog.Text.lines_intercalate` — the lines of blocks with a line break between them;
* `VhdlCatalog.sound_of_scanSource` — what a scan returns is sound;
* `VhdlCatalog.header_summaries` — **every member is listed once**, and on a line of its own if its
  package has been read from a file.
-/

set_option relaxedAutoImplicit false
set_option autoImplicit false

namespace VhdlCatalog

open Source

/-! ### Groups -/

/-- To go through the elements key by key is to go through all of them. -/
theorem perm_flatMap_filter {α κ : Type} [DecidableEq κ] (key : α → κ) {ks : List κ} {xs : List α}
    (hks : ks.Nodup) (h : ∀ x ∈ xs, key x ∈ ks) :
    (ks.flatMap fun k => xs.filter fun x => decide (key x = k)).Perm xs := by
  induction ks generalizing xs with
  | nil =>
      cases xs with
      | nil => exact List.Perm.nil
      | cons x xs => exact absurd (h x (by simp)) (by simp)
  | cons k ks ih =>
      obtain ⟨hk, hks⟩ := List.nodup_cons.1 hks
      -- the other keys find their elements among those without the key `k`
      have hothers : (ks.flatMap fun j => xs.filter fun x => decide (key x = j)) =
          ks.flatMap fun j => (xs.filter fun x => !decide (key x = k)).filter
            fun x => decide (key x = j) := by
        refine List.flatMap_congr ?_
        intro j hj
        rw [List.filter_filter]
        refine List.filter_congr ?_
        intro x _
        have hjk : j ≠ k := fun heq => hk (heq ▸ hj)
        by_cases hx : key x = j
        · simp [hx, hjk]
        · simp [hx]
      have hrest : ∀ x ∈ xs.filter fun x => !decide (key x = k), key x ∈ ks := by
        intro x hx
        obtain ⟨hmem, hne⟩ := List.mem_filter.1 hx
        have hne : key x ≠ k := by simpa using hne
        exact List.mem_of_ne_of_mem hne (h x hmem)
      rw [List.flatMap_cons, hothers]
      exact (List.Perm.append_left _ (ih hks hrest)).trans (List.filter_append_perm _ xs)

/-! ### One order for all categories -/

/-- What members are listed by: name, then line. -/
def SymbolId.key (i : SymbolId) : String ×ₗ ℤ := toLex (i.name, i.line)

theorem SymbolId.le_iff (i j : SymbolId) : i.le j = true ↔ i.key ≤ j.key := by
  simp [le, key, Prod.Lex.toLex_le_toLex]

theorem SymbolId.key_injective : Function.Injective SymbolId.key := by
  intro i j h
  cases i
  cases j
  simpa [key] using h

namespace Package

/-- The members of a category by name and line. -/
def ordered (p : Package) (c : Category) : List Member :=
  (p.table c).values.mergeSort fun a b => a.declaration.id.le b.declaration.id

theorem sortOrder_line : SortOrder fun a b : Member => a.declaration.lineLe b.declaration :=
  .of_key (fun m => m.declaration.lineKey) fun a b => a.declaration.lineLe_iff b.declaration

theorem sortOrder_id : SortOrder fun a b : Member => a.declaration.id.le b.declaration.id :=
  .of_key (fun m => m.declaration.id.key) fun a b => a.declaration.id.le_iff b.declaration.id

variable {p : Package} {c : Category}

theorem pick_perm (entries : List (SymbolId × Member)) (name : String) :
    (pick entries name).Perm ((entries.filter fun e => decide (e.1.name = name)).map Prod.snd) :=
  List.mergeSort_perm ..

theorem mem_pick {entries : List (SymbolId × Member)} {name : String} {m : Member} :
    m ∈ pick entries name ↔ ∃ i, (i, m) ∈ entries ∧ i.name = name := by
  rw [(pick_perm entries name).mem_iff]
  simp [and_comm]

theorem names_perm_of_isOverloadable (h : c.isOverloadable = true) :
    (p.names c).Perm ((p.table c).keys.map SymbolId.name).eraseDups := by
  simp only [names, h, if_true]
  exact List.mergeSort_perm ..

/-- Every member is listed once, whichever way its category goes. -/
theorem listed_perm (p : Package) (c : Category) : (p.listed c).Perm (p.table c).values := by
  unfold listed
  split
  · next h =>
      have hnames := names_perm_of_isOverloadable (p := p) h
      have hkeys : ∀ e ∈ (p.table c).entries, e.1.name ∈ p.names c := by
        intro e he
        rw [hnames.mem_iff, List.mem_eraseDups]
        exact List.mem_map_of_mem (List.mem_map_of_mem he)
      have hgroups := perm_flatMap_filter (fun e : SymbolId × Member => e.1.name)
        (hnames.nodup_iff.2 (nodup_eraseDups _)) hkeys
      refine (List.Perm.flatMap_left _ fun name _ => pick_perm _ name).trans ?_
      rw [← List.map_flatMap]
      exact hgroups.map Prod.snd
  · exact (List.mergeSort_perm ..).map Prod.snd

/-- The names of a category whose members may share names are strictly ascending. -/
theorem pairwise_names (h : c.isOverloadable = true) : (p.names c).Pairwise (· < ·) := by
  simp only [names, h, if_true]
  exact pairwise_sortNames_of_nodup (nodup_eraseDups _)

/-- Overloads by line are members by name and line. -/
theorem pairwise_pick {entries : List (SymbolId × Member)} {name : String}
    (hown : ∀ e ∈ entries, e.1 = e.2.declaration.id) :
    (pick entries name).Pairwise fun a b => a.declaration.id.le b.declaration.id = true := by
  have hsorted : (pick entries name).Pairwise fun a b =>
      a.declaration.lineLe b.declaration = true :=
    List.pairwise_mergeSort sortOrder_line.trans sortOrder_line.total _
  have hname : ∀ m ∈ pick entries name, m.declaration.name = name := by
    intro m hm
    obtain ⟨i, hi, rfl⟩ := mem_pick.1 hm
    exact congrArg SymbolId.name (hown _ hi).symm
  refine hsorted.imp_of_mem ?_
  intro a b ha hb hab
  rw [SymbolId.le_iff, SymbolId.key, SymbolId.key, Prod.Lex.toLex_le_toLex]
  refine Or.inr ⟨(hname a ha).trans (hname b hb).symm, ?_⟩
  simp only [Declaration.lineLe, Bool.or_eq_true, Bool.and_eq_true, decide_eq_true_eq] at hab
  rcases hab with hlt | ⟨heq, -⟩
  · exact le_of_lt hlt
  · exact le_of_eq heq

theorem pairwise_listed (h : p.Sound) (c : Category) :
    (p.listed c).Pairwise fun a b => a.declaration.id.le b.declaration.id = true := by
  have hown := (h.keyed c).own
  unfold listed
  split
  · next hc =>
      refine List.pairwise_flatMap.2 ⟨fun name _ => pairwise_pick hown, ?_⟩
      refine (pairwise_names hc).imp ?_
      intro name name' hlt a ha b hb
      obtain ⟨i, hi, rfl⟩ := mem_pick.1 ha
      obtain ⟨j, hj, rfl⟩ := mem_pick.1 hb
      rw [SymbolId.le_iff, SymbolId.key, SymbolId.key, Prod.Lex.toLex_le_toLex, ← hown _ hi,
        ← hown _ hj]
      exact Or.inl hlt
  · have horder : SortOrder fun a b : SymbolId × Member => a.1.le b.1 :=
      .of_key (fun e => e.1.key) fun a b => a.1.le_iff b.1
    refine List.pairwise_map.2
      ((List.pairwise_mergeSort horder.trans horder.total _).imp_of_mem ?_)
    intro a b ha hb hab
    rw [← hown a ((List.mergeSort_perm ..).mem_iff.1 ha),
      ← hown b ((List.mergeSort_perm ..).mem_iff.1 hb)]
    exact hab

/-- **One order for all categories**: where every member stands under its own key, and once, the way
through names and overloads is the same as to sort by key. -/
theorem listed_eq_ordered (h : p.Sound) (c : Category) : p.listed c = p.ordered c := by
  have hperm : (p.ordered c).Perm (p.table c).values := List.mergeSort_perm ..
  refine List.Perm.eq_of_pairwise ?_ (pairwise_listed h c)
    (List.pairwise_mergeSort sortOrder_id.trans sortOrder_id.total _)
    ((listed_perm p c).trans hperm.symm)
  intro a b ha hb hab hba
  -- two members of one category with the same key are the same
  have hid : a.declaration.id = b.declaration.id :=
    SymbolId.key_injective (le_antisymm ((SymbolId.le_iff _ _).1 hab) ((SymbolId.le_iff _ _).1 hba))
  obtain ⟨⟨i, _⟩, hi, rfl⟩ := List.mem_map.1 ((listed_perm p c).mem_iff.1 ha)
  obtain ⟨⟨j, _⟩, hj, rfl⟩ := List.mem_map.1 (hperm.mem_iff.1 hb)
  have hij : i = j := ((h.keyed c).own _ hi).trans (hid.trans ((h.keyed c).own _ hj).symm)
  have hinj := List.inj_on_of_nodup_map (h.keyed c).nodup hi hj hij
  exact congrArg Prod.snd hinj

/-- The headlines of the members, for every category that has any. -/
def headerBlocks (p : Package) : List (List String) :=
  (Category.all.map fun c => (p.ordered c).map Member.headline).filter fun block => !block.isEmpty

theorem codeSummary_eq (h : p.Sound) : p.codeSummary =
    "\n".intercalate (p.headerBlocks.map fun block => String.join (block.map (· ++ "\n"))) := by
  have hlisted : p.listed = p.ordered := funext (listed_eq_ordered h)
  rw [codeSummary, headerBlocks, hlisted]

theorem length_flatten_headerBlocks (p : Package) : p.headerBlocks.flatten.length = p.size := by
  rw [headerBlocks, List.flatten_filter_not_isEmpty]
  simp [Category.all, size, entries, ordered, Table.values]

/-- A headline in the summary is that of a member. -/
theorem exists_of_mem_headerBlocks {block : List String} {headline : String}
    (hblock : block ∈ p.headerBlocks) (h : headline ∈ block) :
    ∃ m ∈ p.members, headline = m.headline := by
  obtain ⟨c, hc, rfl⟩ := List.mem_map.1 (List.mem_of_mem_filter hblock)
  obtain ⟨m, hm, rfl⟩ := List.mem_map.1 h
  have hvalues : m ∈ (p.table c).values := (List.mergeSort_perm ..).mem_iff.1 hm
  obtain ⟨e, he, rfl⟩ := List.mem_map.1 hvalues
  exact ⟨e.2, List.mem_map_of_mem (List.mem_flatMap.2 ⟨c, hc, he⟩), rfl⟩

end Package

/-! ### Lines of blocks -/

namespace Text

/-- The text is on one line. -/
def Unbroken (cs : List Char) : Prop := ∀ c ∈ cs, lineBreaks.contains c = false

/-- What ends a line is white space. -/
theorem isBlank_of_isLineBreak {c : Char} (h : lineBreaks.contains c = true) :
    isBlank c = true := by
  have hranges : ∀ r ∈ lineBreaks.ranges, ∃ s ∈ blanks.ranges, s.1 ≤ r.1 ∧ r.2 ≤ s.2 := by decide
  obtain ⟨r, hr, hfirst, hlast⟩ := (CharSet.contains_iff _ _).1 h
  obtain ⟨s, hs, hle, hge⟩ := hranges r hr
  exact (CharSet.contains_iff _ _).2 ⟨s, hs, by omega, by omega⟩

theorem SingleSpaced.unbroken {cs : List Char} (h : SingleSpaced cs) : Unbroken cs := by
  intro c hc
  refine Bool.eq_false_iff.2 fun hbreak => ?_
  rw [h.space c hc (isBlank_of_isLineBreak hbreak)] at hbreak
  revert hbreak
  decide

/-- A line and what comes after its line feed. -/
theorem lines_append {line : List Char} (h : Unbroken line) (rest : List Char) :
    lines (line ++ '\n' :: rest) = line :: lines rest := by
  induction line with
  | nil => simp [lines, lineBreaks, CharSet.contains]
  | cons c line ih =>
      have hc : lineBreaks.contains c = false := h c (by simp)
      have hcr : c ≠ '\r' := by
        rintro rfl
        revert hc
        decide
      rw [List.cons_append, lines]
      · rw [if_neg (by simp [hc]), ih fun x hx => h x (by simp [hx])]
      · intro cs heq
        exact absurd heq hcr

/-- The lines of a block. -/
theorem lines_flatMap_append {block : List (List Char)} (h : ∀ line ∈ block, Unbroken line)
    (rest : List Char) :
    lines (block.flatMap (· ++ ['\n']) ++ rest) = block ++ lines rest := by
  induction block with
  | nil => rfl
  | cons line block ih =>
      obtain ⟨hline, hblock⟩ := List.forall_mem_cons.1 h
      rw [List.flatMap_cons, List.append_assoc, List.append_assoc, List.singleton_append,
        lines_append hline, ih hblock]
      rfl

/-- **Blocks with a line break between them** have an empty line between them. -/
theorem lines_intercalate {blocks : List (List (List Char))}
    (h : ∀ block ∈ blocks, ∀ line ∈ block, Unbroken line) :
    lines (['\n'].intercalate (blocks.map fun block => block.flatMap (· ++ ['\n']))) =
      [[]].intercalate blocks := by
  induction blocks with
  | nil => simp [lines]
  | cons block blocks ih =>
      obtain ⟨hblock, hblocks⟩ := List.forall_mem_cons.1 h
      cases blocks with
      | nil =>
          have hlines := lines_flatMap_append hblock []
          simpa [lines] using hlines
      | cons next more =>
          have hbreak : ∀ rest, lines ('\n' :: rest) = [] :: lines rest :=
            lines_append (fun c hc => absurd hc List.not_mem_nil)
          rw [List.map_cons, List.map_cons, List.intercalate_cons_cons, List.append_assoc,
            lines_flatMap_append hblock, List.singleton_append, hbreak, ← List.map_cons, ih hblocks,
            List.intercalate_cons_cons, List.append_assoc]
          rfl

/-- The lines that are not empty are those of the blocks. -/
theorem length_filter_intercalate {blocks : List (List (List Char))}
    (h : ∀ block ∈ blocks, ∀ line ∈ block, line ≠ []) :
    (([[]].intercalate blocks).filter fun line => !line.isEmpty).length =
      blocks.flatten.length := by
  induction blocks with
  | nil => rfl
  | cons block blocks ih =>
      obtain ⟨hblock, hblocks⟩ := List.forall_mem_cons.1 h
      have hkeep : (block.filter fun line => !line.isEmpty) = block := by
        rw [List.filter_eq_self]
        intro line hline
        simpa using hblock line hline
      cases blocks with
      | nil => simp [hkeep]
      | cons next more =>
          rw [List.intercalate_cons_cons, List.filter_append, List.filter_append, hkeep,
            List.length_append, List.length_append, ih hblocks]
          simp

end Text

/-! ### Packages of a file -/

variable {filepath library : String} {data : Bytes} {file : FileScan}

/-- **What a scan returns is sound**: a package that comes out of it has no key twice. -/
theorem sound_of_scanSource (h : (scanSource filepath library data).result = .ok file)
    {p : Package} (hp : Symbol.package p ∈ file.units) : p.Sound := by
  obtain ⟨items, hlines, hitems, hunits⟩ := exists_distinct_items_of_scanSource h
  have hn := numbered_codeLines data
  rw [hlines] at hn
  rw [hunits] at hp
  obtain ⟨b, hb, rfl⟩ := Scan.FileItem.exists_package_of_mem hp
  obtain ⟨as, bs, hsplit⟩ := List.append_of_mem hb
  rw [hsplit, List.flatMap_append, List.flatMap_cons] at hn
  have hkeys := Scan.FileItem.keysNodup (t := .ofFile filepath library) (hitems _ hb)
    (numbered_append.1 (numbered_append.1 hn).2.1).1
  exact Package.sound_ofMembers hkeys

/-- The headline of a member of a file is one line, and not empty. -/
theorem headline_of_scanSource (h : (scanSource filepath library data).result = .ok file)
    {p : Package} (hp : Symbol.package p ∈ file.units) {m : Member} (hm : m ∈ p.members) :
    m.headline.toList ≠ [] ∧ Text.SingleSpaced m.headline.toList := by
  obtain ⟨b, as, bs, hlines, name, -, rfl⟩ := exists_memberBlock_of_scanSource h hp hm
  have hfirst : b.first ∈ codeLines data := by
    rw [hlines]
    simp [b.first_mem_lines]
  rw [Member.headline, Declaration.headline]
  split
  · next hsummary =>
      refine ⟨by simpa using hsummary, ?_⟩
      simp only [Scan.MemberBlock.member, Scan.declare, String.toList_ofList]
      split
      · exact b.singleSpaced_summary
      · exact Text.singleSpaced_nil
  · -- without a summary the signature of the opening line is there
    have hsignature : (b.member (.ofFile filepath library) p.declaration.qualifiedName
        name).declaration.signature.toList = b.first.signature := String.toList_ofList
    have hne : b.first.signature ≠ [] := signature_ne_nil_of_mem_codeLines hfirst
    rw [if_pos (by rw [← hsignature] at hne; simpa using hne), hsignature]
    exact ⟨hne, singleSpaced_collapse _⟩

/-- The lines of a summary whose headlines are single lines. -/
theorem lines_codeSummary {p : Package} (hp : p.Sound)
    (h : ∀ m ∈ p.members, Text.Unbroken m.headline.toList) :
    Text.lines p.codeSummary.toList =
      [[]].intercalate (p.headerBlocks.map fun block => block.map String.toList) := by
  rw [p.codeSummary_eq hp, String.toList_intercalate, ← Text.lines_intercalate]
  · simp [String.toList_join, List.flatMap_map, Function.comp_def]
  · intro block hblock line hline
    obtain ⟨headlines, hheadlines, rfl⟩ := List.mem_map.1 hblock
    obtain ⟨headline, hheadline, rfl⟩ := List.mem_map.1 hline
    obtain ⟨m, hm, rfl⟩ := Package.exists_of_mem_headerBlocks hheadlines hheadline
    exact h m hm

/-- **Every member is listed once.**  Let symbols be offered to a package, some of which may be
refused.  For functions and procedures the overloads of the names, one name after another, are the
members by name and line; and the summary consists of the headlines of the members by name and line,
each with a line feed behind it, in blocks for the categories that have members, with a line feed
between blocks.  The same holds of a package that a scan returns.  Moreover its headlines are lines
that are not empty; so the lines of the summary are those of the blocks with one empty line between
two blocks, and as many of them are not empty as the package has members. -/
theorem header_summaries :
    (∀ d symbols,
      let p := (Package.offerAll d symbols).1
      (∀ c : Category, c.isOverloadable = true →
        (p.names c).flatMap (p.namedIn c) = p.ordered c) ∧
      p.codeSummary =
        "\n".intercalate (p.headerBlocks.map fun block => String.join (block.map (· ++ "\n")))) ∧
    ∀ filepath library data file, (scanSource filepath library data).result = .ok file →
      ∀ p, Symbol.package p ∈ file.units →
        p.codeSummary =
          "\n".intercalate (p.headerBlocks.map fun block => String.join (block.map (· ++ "\n"))) ∧
        (∀ block ∈ p.headerBlocks, block ≠ [] ∧ ∀ headline ∈ block, headline ≠ "") ∧
        Text.lines p.codeSummary.toList =
          [[]].intercalate (p.headerBlocks.map fun block => block.map String.toList) ∧
        ((Text.lines p.codeSummary.toList).filter fun line => !line.isEmpty).length = p.size := by
  refine ⟨?_, ?_⟩
  · intro d symbols p
    have hp : p.Sound := Package.sound_offerAll d symbols
    refine ⟨fun c hc => ?_, p.codeSummary_eq hp⟩
    rw [← p.listed_eq_ordered hp, Package.listed, if_pos hc]
  · intro filepath library data file h p hp
    have hsound := sound_of_scanSource h hp
    have hlines := lines_codeSummary hsound fun m hm =>
      (headline_of_scanSource h hp hm).2.unbroken
    have hne : ∀ block ∈ p.headerBlocks, ∀ headline ∈ block, headline ≠ "" := by
      intro block hblock headline hheadline
      obtain ⟨m, hm, rfl⟩ := Package.exists_of_mem_headerBlocks hblock hheadline
      have hline := (headline_of_scanSource h hp hm).1
      simpa using hline
    refine ⟨p.codeSummary_eq hsound, fun block hblock => ⟨?_, hne block hblock⟩, hlines, ?_⟩
    · simpa using List.of_mem_filter hblock
    · rw [hlines, Text.length_filter_intercalate, ← List.map_flatten, List.length_map,
        Package.length_flatten_headerBlocks]
      intro block hblock line hline
      obtain ⟨headlines, hheadlines, rfl⟩ := List.mem_map.1 hblock
      obtain ⟨headline, hheadline, rfl⟩ := List.mem_map.1 hline
      simpa using hne headlines hheadlines headline hheadline

/-- Functions that come in another order than they are listed in, and the package of the sample. -/
theorem header_summaries_samples :
    let declared (name : String) (line : Int) : Symbol :=
      .member ⟨.function, ⟨"p.vhd", name, line, "work.p", 0, 0, 0, 9, name, ""⟩, ""⟩
    let p := (Package.offerAll ⟨"p.vhd", "p", 1, "work", 0, 0, 0, 9, "", ""⟩
      [declared "g" 2, declared "f" 9, declared "f" 9, declared "f" 3]).1
    ((p.names .function).flatMap (p.namedIn .function)).map (fun m => m.declaration.line) =
      [3, 9, 2] ∧
    (p.names .function).flatMap (p.namedIn .function) = p.ordered .function ∧
    ∃ file, (scanSource "sample.vhd" "Work" sample).result = .ok file ∧
      (file.units.map fun s => s.declarations.length) = [5, 1] ∧
      ∀ p, Symbol.package p ∈ file.units →
        Text.lines p.codeSummary.toList =
          [[]].intercalate (p.headerBlocks.map fun block => block.map String.toList) ∧
        ((Text.lines p.codeSummary.toList).filter fun line => !line.isEmpty).length = p.size := by
  intro declared p
  have hcount : (scanSource "sample.vhd" "Work" sample).result.toOption.map
      (fun file => file.units.map fun s => s.declarations.length) = some [5, 1] := by
    decide +kernel
  obtain ⟨file, h, hcount⟩ := exists_file_sample hcount
  refine ⟨by cbv, (header_summaries.1 _ _).1 .function rfl, file, h, hcount, ?_⟩
  intro p hp
  exact (header_summaries.2 _ _ _ file h p hp).2.2

end VhdlCatalog
