import VhdlCatalog.Proofs.BlockRun
import VhdlCatalog.Proofs.CanonicalBlock
import VhdlCatalog.Proofs.CanonicalSource
import VhdlCatalog.Proofs.Openings

/-!
**Scanning undoes printing.**

Units that are printed in canonical form are found again, in their order, with their members, and
every one with its own documentation and its own code.

Main definitions:

* `VhdlCatalog.Card`, `VhdlCatalog.Listing` — what is seen of a symbol, and of a unit with its
  members;
* `VhdlCatalog.Symbol.listing` — what is seen of a unit that a scan returns;
* `VhdlCatalog.Canonical.Documented.listing` — what is to be seen of a unit that is printed.

Main results:

* `VhdlCatalog.Canonical.excerpts_of_spans` — a declaration shows the lines printed for it;
* `VhdlCatalog.Canonical.exists_headerItems`, `VhdlCatalog.Canonical.exists_fileItems` — **members
  and units** are found one after another;
* `VhdlCatalog.Canonical.listing_of_scanSource` — **scanning undoes printing**.
-/

set_option relaxedAutoImplicit false
set_option autoImplicit false

namespace VhdlCatalog

open Source Scan

/-! ### What is seen -/

/-- What is seen of a symbol: all but the numbers of its lines and bytes. -/
structure Card where
  kind : Kind
  form : String
  name : String
  scope : String
  doc : List Char
  code : List Char
  deriving DecidableEq, Repr

/-- What is seen of a unit: its card, and those of its members by category. -/
structure Listing where
  unit : Card
  members : List (Category × List Card)
  deriving DecidableEq, Repr

/-- The card of a declaration, whose texts are taken out of the source. -/
def Declaration.card (data : Bytes) (kind : Kind) (form : String) (d : Declaration) : Card :=
  ⟨kind, form, d.name, d.scope, d.doc data, d.code data⟩

/-- The card of a member. -/
def Member.card (data : Bytes) (m : Member) : Card :=
  m.declaration.card data m.category.kind m.form

/-- What is seen of a symbol of a file.  The code of a package is what stands in its range, and not
the summary of its header. -/
def Symbol.listing (data : Bytes) : Symbol → Listing
  | entity d => ⟨d.card data .entity "", []⟩
  | package p =>
      ⟨p.declaration.card data .package "",
        Category.all.map fun c => (c, (p.table c).values.map (Member.card data))⟩
  | member m => ⟨m.card data, []⟩

namespace Canonical

/-- The cards of a member, one for each of its names. -/
def Documented.cards (k : Nat) (scope : String) (m : Documented Item) : List Card :=
  m.term.opening.names.map fun name =>
    { kind := m.term.opening.form.category.kind
      form := m.term.opening.form.typeForm
      name := String.ofList name
      scope := scope
      doc := textOf (commentLines k m.docs)
      code := textOf (m.term.printed k) }

/-- The name with the scope before it. -/
def qualified (scope name : String) : String :=
  if scope.isEmpty then name else scope ++ "." ++ name

/-- What is to be seen of a unit of the library. -/
def Documented.listing (k : Nat) (library : String) (u : Documented DesignUnit) : Listing :=
  let card (kind : Kind) (name : Identifier) : Card :=
    { kind := kind
      form := ""
      name := String.ofList name.chars
      scope := library
      doc := textOf (commentLines 0 u.docs)
      code := textOf (u.term.printed k) }
  match u.term with
  | .entity name => ⟨card .entity name, []⟩
  | .package name members =>
      let scope := qualified library (String.ofList name.chars)
      ⟨card .package name, Category.all.map fun c =>
        (c, (members.flatMap (Documented.cards k scope)).filter (·.kind = c.kind))⟩

/-! ### Code in its place -/

/-- The lines begin and end with code. -/
structure Bounded (ls : List PrintedLine) : Prop where
  head : ∃ l rest, ls = l :: rest ∧ l.isCodeLine = true
  last : ∃ init l, ls = init ++ [l] ∧ l.isCodeLine = true

theorem bounded_of_forall {ls : List PrintedLine} (hne : ls ≠ [])
    (hls : ∀ l ∈ ls, l.isCodeLine = true) : Bounded ls := by
  constructor
  · obtain ⟨l, rest, rfl⟩ := List.exists_cons_of_ne_nil hne
    exact ⟨l, rest, rfl, hls l (by simp)⟩
  · rcases List.eq_nil_or_concat' ls with rfl | ⟨init, l, rfl⟩
    · exact absurd rfl hne
    · exact ⟨init, l, rfl, hls l (by simp)⟩

section Lines

variable {before : List Bytes} {ls : List PrintedLine}

theorem text_following (before : List Bytes) (l : PrintedLine) :
    (CodeLine.following before l.raw).text = l.text := l.lineText_raw

theorem codeFollowing_cons {l : PrintedLine} (hl : l.isCodeLine = true) :
    codeFollowing before (l :: ls) =
      .following before l.raw :: codeFollowing (before ++ [l.raw]) ls := by
  rw [codeFollowing, if_pos hl, List.singleton_append]

theorem codeFollowing_concat {l : PrintedLine} (hl : l.isCodeLine = true) :
    codeFollowing before (ls ++ [l]) =
      codeFollowing before ls ++ [.following (before ++ raws ls) l.raw] := by
  rw [codeFollowing_append, codeFollowing_cons hl]
  rfl

theorem codeFollowing_documented (before : List Bytes) (k : Nat) (docs : List Comment)
    (ls : List PrintedLine) :
    codeFollowing before (commentLines k docs ++ ls) =
      codeFollowing (before ++ raws (commentLines k docs)) ls := by
  rw [codeFollowing_append, codeFollowing_comments, List.nil_append]

theorem map_text_codeFollowing (hls : ∀ l ∈ ls, l.isCodeLine = true) :
    (codeFollowing before ls).map CodeLine.text = ls.map PrintedLine.text := by
  induction ls generalizing before with
  | nil => rfl
  | cons l ls ih =>
      obtain ⟨hl, hls⟩ := List.forall_mem_cons.1 hls
      rw [codeFollowing_cons hl, List.map_cons, ih hls, text_following, List.map_cons]

end Lines

/-! ### Excerpts -/

/-- The lines do not end in a comment line. -/
def Settled (before : List Bytes) : Prop := before.rdropWhile isCommentBytes = before

theorem settled_nil : Settled [] := rfl

theorem settled_append (before : List Bytes) {ls : List PrintedLine} (hls : Bounded ls) :
    Settled (before ++ raws ls) := by
  obtain ⟨init, l, rfl, hl⟩ := hls.last
  rw [raws_append, ← List.append_assoc]
  refine List.rdropWhile_concat_neg _ _ _ ?_
  rw [l.isCommentBytes_raw, hl]
  decide

theorem rdropWhile_commentLines {before : List Bytes} (hbefore : Settled before) (k : Nat)
    (docs : List Comment) :
    (before ++ raws (commentLines k docs)).rdropWhile isCommentBytes = before := by
  induction docs using List.reverseRecOn with
  | nil =>
      rw [commentLines, List.map_nil, raws, List.map_nil, List.append_nil]
      exact hbefore
  | append_singleton docs c ih =>
      have hc : isCommentBytes (PrintedLine.comment k c).raw = true :=
        PrintedLine.isCommentBytes_raw _
      rw [commentLines, List.map_append, raws_append, ← List.append_assoc]
      exact (List.rdropWhile_concat_pos _ _ _ hc).trans ih

/-- **A declaration shows the lines printed for it**: the comments above it, and its code. -/
theorem excerpts_of_spans {d : Declaration} {first last : CodeLine} (hspans : d.Spans first last)
    {before after : List Bytes} (hbefore : Settled before) {k : Nat} {docs : List Comment}
    {ls : List PrintedLine} (hls : Bounded ls) {xs ys : List CodeLine} {data : Bytes}
    (hfirst : codeFollowing (before ++ raws (commentLines k docs)) ls = first :: xs)
    (hlast : codeFollowing (before ++ raws (commentLines k docs)) ls = ys ++ [last])
    (hdata : data = (before ++ raws (commentLines k docs) ++ raws ls ++ after).flatten) :
    d.doc data = textOf (commentLines k docs) ∧ d.code data = textOf ls := by
  obtain ⟨l, rest, hl, hcode⟩ := hls.head
  rw [hl, codeFollowing_cons hcode] at hfirst
  have hfirst := (List.cons.inj hfirst).1.symm
  have hstop : last.stop = (before ++ raws (commentLines k docs) ++ raws ls).flatten.length := by
    obtain ⟨init, l', rfl, hcode'⟩ := hls.last
    rw [codeFollowing_concat hcode'] at hlast
    rw [← List.singleton_inj.1 (List.append_inj' hlast rfl).2]
    simp [CodeLine.following, raws, Nat.add_assoc]
  have hdocStart : d.docStart = before.flatten.length := by
    rw [hspans.docStart, hfirst, CodeLine.following, rdropWhile_commentLines hbefore]
  have hcodeStart : d.codeStart =
      (before.flatten ++ (raws (commentLines k docs)).flatten).length := by
    rw [hspans.codeStart, hfirst, CodeLine.following, List.flatten_append]
  have hdocStop : d.docStop = d.codeStart := by
    rw [hspans.docStop, hspans.codeStart, hfirst]
    rfl
  have hcodeStop : d.codeStop = ((before.flatten ++
      (raws (commentLines k docs)).flatten).length + (raws ls).flatten.length : Nat) := by
    rw [hspans.codeStop, hstop, List.flatten_append, List.flatten_append, List.length_append]
  rw [List.flatten_append, List.flatten_append, List.flatten_append] at hdata
  constructor
  · rw [Declaration.doc, hdocStop, hdocStart, hcodeStart, hdata, List.length_append,
      List.append_assoc, slice_middle, decode_raws]
  · rw [Declaration.code, hcodeStart, hcodeStop, hdata, slice_middle, decode_raws]

/-! ### Members -/

namespace Item

variable (k : Nat) (item : Item)

theorem isCodeLine_of_mem_printed : ∀ l ∈ item.printed k, l.isCodeLine = true := by
  intro l hl
  obtain ⟨ps, hps, rfl⟩ := List.mem_pmap.1 hl
  rfl

theorem map_text_printed : (item.printed k).map PrintedLine.text = (item.lines k).map render := by
  rw [Item.printed, List.map_pmap]
  exact List.pmap_eq_map _

theorem bounded_printed : Bounded (item.printed k) := by
  refine bounded_of_forall ?_ (item.isCodeLine_of_mem_printed k)
  rw [Item.printed, Ne, List.pmap_eq_nil_iff]
  cases item with
  | function name parameters result => cases parameters <;> simp [lines, framed]
  | procedure name parameters => cases parameters <;> simp [lines, framed]
  | _ => simp [lines, framed]

theorem nodup_names : item.opening.names.Nodup := by
  cases item with
  | constant names mark value => exact names.distinct
  | _ => simp [opening, Opening.names]

end Item

section Places

variable {before after : List Bytes} {data : Bytes}

/-- **A member** in its place is a block, and shows what has been printed for it. -/
theorem exists_block_printed (t : Target) (scope : String) (k : Nat) (m : Documented Item)
    (hbefore : Settled before)
    (hdata : data = (before ++ raws (printedMember k m) ++ after).flatten) :
    ∃ b : MemberBlock,
      b.lines = codeFollowing before (printedMember k m) ∧
      b.opening = m.term.opening ∧
      (b.members t scope).map (Member.card data) = m.cards k scope := by
  have htexts : (codeFollowing (before ++ raws (commentLines k m.docs)) (m.term.printed k)).map
      CodeLine.text = (m.term.lines k).map render :=
    (map_text_codeFollowing (m.term.isCodeLine_of_mem_printed k)).trans (m.term.map_text_printed k)
  obtain ⟨b, hlines, hopening⟩ := m.term.exists_block k htexts
  refine ⟨b, hlines.trans (codeFollowing_documented ..).symm, hopening, ?_⟩
  rw [printedMember, raws_append, ← List.append_assoc] at hdata
  have hexcerpts : ∀ name summary,
      (declare t scope name b.first b.last.stop summary).doc data = textOf (commentLines k m.docs) ∧
      (declare t scope name b.first b.last.stop summary).code data = textOf (m.term.printed k) :=
    fun name summary => excerpts_of_spans (spans_declare t scope name b.first b.last summary)
      hbefore (m.term.bounded_printed k) (hlines.symm.trans b.lines_eq_cons) hlines.symm hdata
  rw [MemberBlock.members, Documented.cards, List.map_map, ← hopening]
  refine List.map_congr_left fun name _ => ?_
  rw [Function.comp_apply, Member.card, Declaration.card, MemberBlock.member,
    (hexcerpts _ _).1, (hexcerpts _ _).2]
  rfl

/-- **Members** in their places are blocks, one after another. -/
theorem exists_headerItems (t : Target) (name : List Char) (scope : String) (k : Nat)
    (members : List (Documented Item)) (hbefore : Settled before)
    (hdata : data = (before ++ raws (members.flatMap (printedMember k)) ++ after).flatten) :
    ∃ items : List (HeaderItem name),
      items.flatMap HeaderItem.lines =
        codeFollowing before (members.flatMap (printedMember k)) ∧
      (∀ item ∈ items, item.Distinct) ∧
      (items.flatMap (HeaderItem.members t scope)).map (Member.card data) =
        members.flatMap (Documented.cards k scope) := by
  induction members generalizing before with
  | nil => exact ⟨[], rfl, by simp, rfl⟩
  | cons m members ih =>
      rw [List.flatMap_cons, raws_append, ← List.append_assoc] at hdata
      have hsettled : Settled (before ++ raws (printedMember k m)) := by
        rw [printedMember, raws_append, ← List.append_assoc]
        exact settled_append _ (m.term.bounded_printed k)
      obtain ⟨items, hitems, hdistinct, hrest⟩ := ih hsettled hdata
      rw [List.append_assoc] at hdata
      obtain ⟨b, hlines, hopening, hcards⟩ := exists_block_printed t scope k m hbefore hdata
      refine ⟨.member b :: items, ?_, ?_, ?_⟩
      · rw [List.flatMap_cons, List.flatMap_cons, codeFollowing_append, hitems]
        exact congrArg (· ++ _) hlines
      · refine List.forall_mem_cons.2 ⟨?_, hdistinct⟩
        show b.opening.names.Nodup
        rw [hopening]
        exact m.term.nodup_names
      · rw [List.flatMap_cons, List.flatMap_cons, List.map_append, hrest]
        exact congrArg (· ++ _) hcards

/-! ### Units -/

theorem bounded_printed (k : Nat) (u : DesignUnit) : Bounded (u.printed k) := by
  cases u with
  | entity name => exact ⟨⟨_, _, rfl, rfl⟩, ⟨[_], _, rfl, rfl⟩⟩
  | package name members =>
      exact ⟨⟨_, _, rfl, rfl⟩, ⟨_ :: _, _, (List.cons_append ..).symm, rfl⟩⟩

/-- The line `end package;` closes every package. -/
theorem closedBy_packageEnd {l : CodeLine} (h : l.text = render (ending (key "package")))
    (name : List Char) : (Construct.unit .package).ClosedBy name [] l.place :=
  ⟨startsEnd_ending (k := 0) h, Or.inl (startsEndOf_ending (k := 0) h)⟩

/-- The members of a package by category, as their cards tell them apart. -/
theorem map_card_table (d : Declaration) (ms : List Member) (c : Category) :
    ((Package.ofMembers d ms).table c).values.map (Member.card data) =
      (ms.map (Member.card data)).filter (·.kind = c.kind) := by
  rw [Package.table_ofMembers, Package.values_tableOf, List.filter_map]
  refine congrArg _ (List.filter_congr fun m _ => ?_)
  exact decide_eq_decide.2 Category.kind_inj.symm

/-- The lines of an entity are a block. -/
theorem exists_entityBlock (k : Nat) (name : Identifier) (place : List Bytes) :
    ∃ b : EntityBlock,
      (FileItem.entity b).lines = codeFollowing place ((DesignUnit.entity name).printed k) ∧
      b.opening.name = name.chars := by
  let head : PrintedLine := .code (unitHead (key "entity") name) (isCode_entityHead name)
  let foot : PrintedLine := .code (ending (key "entity")) (isCode_ending _)
  have hopens : unitOpening? (CodeLine.following place head.raw).line =
      some ⟨.entity, name.chars, []⟩ := by
    rw [line_of_text (text_following _ head)]
    exact unitOpening?_entity name
  let last : CodeLine := .following (place ++ [head.raw]) foot.raw
  have hcloses : startsEnd last.line = true := startsEnd_ending (k := 0) (text_following _ foot)
  exact ⟨⟨_, _, [], last, hopens, rfl, noneCloses_nil _, hcloses⟩, rfl, rfl⟩

/-- The lines of a package are a block, whose members show what has been printed for them. -/
theorem exists_packageBlock (t : Target) (k : Nat) (name : Identifier)
    (members : List (Documented Item)) {place : List Bytes}
    (hdata : data =
      (place ++ raws ((DesignUnit.package name members).printed k) ++ after).flatten) :
    ∃ b : PackageBlock,
      (FileItem.package b).lines =
        codeFollowing place ((DesignUnit.package name members).printed k) ∧
      b.opening.name = name.chars ∧ (FileItem.package b).Distinct ∧
      (b.toHeader.members t).map (Member.card data) = members.flatMap
        (Documented.cards k (qualified t.library (String.ofList name.chars))) := by
  let head : PrintedLine := .code (unitHead (key "package") name) (isCode_packageHead name)
  let foot : PrintedLine := .code (ending (key "package")) (isCode_ending _)
  have hbefore : Settled (place ++ raws [head]) :=
    settled_append _ ⟨⟨_, _, rfl, rfl⟩, ⟨[], _, rfl, rfl⟩⟩
  have hprinted : (DesignUnit.package name members).printed k =
      [head] ++ (members.flatMap (printedMember k) ++ [foot]) := rfl
  rw [hprinted, raws_append, raws_append, List.append_assoc, List.append_assoc, List.append_assoc,
    ← List.append_assoc, ← List.append_assoc] at hdata
  obtain ⟨items, hitems, hdistinct, hcards⟩ := exists_headerItems t name.chars
    (qualified t.library (String.ofList name.chars)) k members hbefore hdata
  let last : CodeLine := .following
    (place ++ raws [head] ++ raws (members.flatMap (printedMember k))) foot.raw
  have hopens : unitOpening? (CodeLine.following place head.raw).line =
      some ⟨.package, name.chars, []⟩ := by
    rw [line_of_text (text_following _ head)]
    exact unitOpening?_package name
  have hlast : last.text = render (ending (key "package")) := text_following _ foot
  have hlastOpens : memberOpening? last.line = none := by
    rw [line_of_text hlast]
    exact memberOpening?_end rfl
  refine ⟨⟨⟨_, _, hopens, rfl, items⟩, last, hlastOpens, closedBy_packageEnd hlast _⟩, ?_, rfl,
    hdistinct, hcards⟩
  rw [FileItem.lines, Header.lines, hitems, hprinted, codeFollowing_append,
    codeFollowing_concat rfl]
  rfl

/-- **A unit** in its place is a part of the file, and shows what has been printed for it. -/
theorem exists_fileItem (t : Target) (k : Nat) (u : Documented DesignUnit)
    (hbefore : Settled before)
    (hdata : data = (before ++ raws (printedUnit k u) ++ after).flatten) :
    ∃ item : FileItem,
      item.lines = codeFollowing before (printedUnit k u) ∧
      item.Distinct ∧
      (item.units t).map (Symbol.listing data) = [u.listing k t.library] := by
  obtain ⟨docs, u⟩ := u
  rw [printedUnit, codeFollowing_documented]
  rw [printedUnit, raws_append, ← List.append_assoc] at hdata
  cases u with
  | entity name =>
      obtain ⟨b, hlines, hname⟩ := exists_entityBlock k name (before ++ raws (commentLines 0 docs))
      refine ⟨.entity b, hlines, trivial, congrArg (fun l => [l]) ?_⟩
      have hexcerpts := excerpts_of_spans
        (spans_declare t t.library b.opening.name b.first b.last []) hbefore
        (bounded_printed k (.entity name)) hlines.symm hlines.symm hdata
      rw [Symbol.listing, EntityBlock.declaration, Declaration.card, hexcerpts.1, hexcerpts.2,
        hname]
      rfl
  | package name members =>
      obtain ⟨b, hlines, hname, hdistinct, hcards⟩ := exists_packageBlock t k name members hdata
      refine ⟨.package b, hlines, hdistinct, congrArg (fun l => [l]) ?_⟩
      have hexcerpts := excerpts_of_spans
        (spans_declare t t.library b.opening.name b.first b.last []) hbefore
        (bounded_printed k (.package name members)) hlines.symm hlines.symm hdata
      rw [Symbol.listing, Header.package]
      simp only [map_card_table, hcards]
      rw [Package.declaration_ofMembers, Header.declaration, Declaration.card, hexcerpts.1,
        hexcerpts.2, hname]
      rfl

/-- **Units** in their places are the parts of a file, one after another. -/
theorem exists_fileItems (t : Target) (k : Nat) (units : List (Documented DesignUnit))
    (hbefore : Settled before)
    (hdata : data = (before ++ raws (units.flatMap (printedUnit k)) ++ after).flatten) :
    ∃ items : List FileItem,
      items.flatMap FileItem.lines = codeFollowing before (units.flatMap (printedUnit k)) ∧
      (∀ item ∈ items, item.Distinct) ∧
      (items.flatMap (FileItem.units t)).map (Symbol.listing data) =
        units.map (Documented.listing k t.library) := by
  induction units generalizing before with
  | nil => exact ⟨[], rfl, by simp, rfl⟩
  | cons u units ih =>
      rw [List.flatMap_cons, raws_append, ← List.append_assoc] at hdata
      have hsettled : Settled (before ++ raws (printedUnit k u)) := by
        rw [printedUnit, raws_append, ← List.append_assoc]
        exact settled_append _ (bounded_printed k u.term)
      obtain ⟨items, hitems, hdistinct, hrest⟩ := ih hsettled hdata
      rw [List.append_assoc] at hdata
      obtain ⟨item, hlines, hitem, hlisting⟩ := exists_fileItem t k u hbefore hdata
      refine ⟨item :: items, ?_, List.forall_mem_cons.2 ⟨hitem, hdistinct⟩, ?_⟩
      · rw [List.flatMap_cons, List.flatMap_cons, codeFollowing_append, hitems, hlines]
      · rw [List.flatMap_cons, List.map_append, hlisting, hrest]
        rfl

end Places

/-- **Scanning undoes printing.**  Units that are printed in canonical form are found again: the
scan succeeds and returns exactly these units in their order, every package with exactly its members
by category, and every one of them with its name and scope, the comment lines printed above it and
the lines printed for it. -/
theorem listing_of_scanSource (filepath library : String) (k : Nat)
    (units : List (Documented DesignUnit)) :
    ∃ file, (scanSource filepath library (source k units)).result = .ok file ∧
      file.filepath = filepath ∧
      file.library = String.ofList (Text.lower library.toList) ∧
      file.units.map (Symbol.listing (source k units)) =
        units.map (Documented.listing k (String.ofList (Text.lower library.toList))) := by
  have hdata : source k units = ([] ++ raws (units.flatMap (printedUnit k)) ++ []).flatten := by
    rw [source, encode_textOf, List.nil_append, List.append_nil]
  obtain ⟨items, hlines, hdistinct, hlistings⟩ :=
    exists_fileItems (.ofFile filepath library) k units settled_nil hdata
  rw [← codeLines_source] at hlines
  have hnumbered : Numbered (items.flatMap FileItem.lines) := hlines ▸ numbered_codeLines _
  obtain ⟨hunits, hphase⟩ :=
    reaches_of_distinct (t := .ofFile filepath library) (s := .start) hdistinct hnumbered rfl
  rw [hlines] at hunits hphase
  refine ⟨⟨filepath, String.ofList (Text.lower library.toList),
    items.flatMap (FileItem.units (.ofFile filepath library))⟩, ?_, rfl, rfl, hlistings⟩
  rw [result_scanSource, Progress.result, hphase, hunits]
  rfl

-- What is printed for a package with one documented procedure.
example : textOf (printedUnit 2 ⟨[], .package ⟨['p'], by decide, by decide⟩
    [⟨[⟨['o', 'n', 'e', ' ', 'b', 'i', 't'], by decide, by decide⟩],
      .procedure ⟨['s', 'e', 't'], by decide, by decide⟩
        (some [⟨⟨['x'], by decide, by decide⟩, some .outward,
          ⟨['b', 'i', 't'], by decide, by decide⟩⟩])⟩]⟩) =
    "package p is\n  -- one bit\n  procedure set(\n    x : out bit\n  );\nend package;\n".toList :=
  rfl

end Canonical

end VhdlCatalog
