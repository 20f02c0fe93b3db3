import VhdlCatalog.Proofs.BlockRun
import VhdlCatalog.Proofs.CommentTail

/-!
**Comments and blank lines change nothing that is declared.**

Two sources may differ in their comments and blank lines, and in nothing else: their code lines are
the same one by one, up to the comments behind them.  The pass then does the same on both sides,
line by line.  What it returns differs only where a declaration says at which lines it stands, and
these are the same lines when they are counted among the code lines.

Main definitions:

* `VhdlCatalog.Source.SamePlace` — two lines stand at the same place of two sequences;
* `VhdlCatalog.Source.Alike` — two sequences of lines are the same up to comments;
* `VhdlCatalog.Declaration.Corresponds`, `VhdlCatalog.Symbol.Corresponds`,
  `VhdlCatalog.Error.Corresponds` — the same up to where it stands;
* `VhdlCatalog.Scan.Progress.Corresponds` — two passes have done the same.

Main results:

* `VhdlCatalog.Source.SameCode.of_stripComment_eq` — **one line** is read in the same way with and
  without its comment;
* `VhdlCatalog.Scan.Progress.Corresponds.step`, `VhdlCatalog.Scan.Progress.Corresponds.run` — one
  line of the two passes, and all lines;
* `VhdlCatalog.correspondence_of_scanSource` — **two sources** with the same code lines.
-/

set_option relaxedAutoImplicit false
set_option autoImplicit false

namespace VhdlCatalog

open Source

/-! ### One line and its comment -/

namespace Source

/-- The two lines are read in the same way. -/
structure SameCode (a b : CodeLine) : Prop where
  unitOpening : unitOpening? a.line = unitOpening? b.line
  memberOpening : memberOpening? a.line = memberOpening? b.line
  closing : ∀ (construct : Construct) (name : List Char) (depth : Int),
    construct.closing name depth a = construct.closing name depth b
  signature : a.signature = b.signature

/-- **A line without its comment** is read like the whole line. -/
theorem SameCode.of_stripComment_eq {a b : CodeLine}
    (h : stripComment a.text = stripComment b.text) (hquote : '"' ∉ stripComment a.text) :
    SameCode a b := by
  obtain ⟨da, hda, hla⟩ := exists_lower_eq a.text
  obtain ⟨db, hdb, hlb⟩ := exists_lower_eq b.text
  have hlower : '"' ∉ Text.lower (stripComment a.text) := fun hmem =>
    hquote (Text.mem_of_mem_lowerFrom (by decide) (by decide) hmem)
  rw [← h] at hlb
  change a.line = _ at hla
  change b.line = _ at hlb
  have hcode : a.code = b.code := by
    rw [CodeLine.code, CodeLine.code, CodeLine.line, CodeLine.line, stripComment_lower,
      stripComment_lower, h]
  have hend : startsEnd a.line = startsEnd b.line := by
    rw [hla, hlb, startsEnd_append hda, startsEnd_append hdb]
  have hendOf : ∀ word : String, '-' ∉ word.toList →
      startsEndOf word a.line = startsEndOf word b.line := by
    intro word hword
    rw [hla, hlb, startsEndOf_append hda hword, startsEndOf_append hdb hword]
  have hendMark : startsEndMark a.line = startsEndMark b.line := by
    rw [hla, hlb, startsEndMark_append hda, startsEndMark_append hdb]
  refine ⟨?_, ?_, ?_, ?_⟩
  · rw [hla, hlb, unitOpening?_append hda, unitOpening?_append hdb]
  · rw [hla, hlb, memberOpening?_append hda hlower, memberOpening?_append hdb hlower]
  · intro construct name depth
    cases construct with
    | unit form =>
        cases form with
        | entity => simp only [Construct.closing, hend]
        | package =>
            simp only [Construct.closing, closesPackage, hend, hcode, hendOf "package" (by decide)]
    | member form =>
        cases form with
        | recordType =>
            simp only [Construct.closing, closesRecord, hend, hcode, hendMark,
              hendOf "record" (by decide)]
        | _ => simp only [Construct.closing, hcode]
  · rw [CodeLine.signature, CodeLine.signature, h]

theorem SameCode.of_text_eq {a b : CodeLine} (h : a.text = b.text) : SameCode a b := by
  have hline : a.line = b.line := congrArg Text.lower h
  have hcode : a.code = b.code := congrArg stripComment hline
  refine ⟨?_, ?_, ?_, ?_⟩
  · rw [hline]
  · rw [hline]
  · intro construct name depth
    cases construct with
    | unit form =>
        cases form <;> simp only [Construct.closing, closesPackage, hline, hcode]
    | member form =>
        cases form <;> simp only [Construct.closing, closesRecord, hline, hcode]
  · rw [CodeLine.signature, CodeLine.signature, h]

/-! ### Sequences of lines -/

/-- `a` and `b` stand at the same place of the two sequences. -/
def SamePlace (ls ls' : List SourceLine) (a b : SourceLine) : Prop :=
  ∃ i : Nat, ls[i]? = some a ∧ ls'[i]? = some b

/-- A line with a comment has no double quote before it. -/
def QuotesApart (l : SourceLine) : Prop :=
  stripComment l.text ≠ l.text → '"' ∉ stripComment l.text

instance (l : SourceLine) : Decidable (QuotesApart l) := inferInstanceAs (Decidable (_ → _))

/-- The lines of the two sequences are the same up to comments, hold no double quote before them,
and are numbered from the left. -/
structure Alike (ls ls' : List SourceLine) : Prop where
  code : ls.map (fun l => stripComment l.text) = ls'.map fun l => stripComment l.text
  quotes : ∀ l ∈ ls, QuotesApart l
  quotes' : ∀ l ∈ ls', QuotesApart l
  numbers : (ls.map SourceLine.number).Nodup
  numbers' : (ls'.map SourceLine.number).Nodup

variable {ls ls' : List SourceLine} {a b c d : SourceLine}

theorem Alike.stripComment_eq (h : Alike ls ls') (hab : SamePlace ls ls' a b) :
    stripComment a.text = stripComment b.text := by
  obtain ⟨i, ha, hb⟩ := hab
  have hi := congrArg (fun texts : List (List Char) => texts[i]?) h.code
  simp only [List.getElem?_map, ha, hb, Option.map_some, Option.some.injEq] at hi
  exact hi

/-- A place is known from the number of its line. -/
theorem eq_of_number_eq (h : (ls.map SourceLine.number).Nodup) {i j : Nat} (ha : ls[i]? = some a)
    (hb : ls[j]? = some b) (hnumber : a.number = b.number) : i = j := by
  have hi : i < (ls.map SourceLine.number).length := by
    rw [List.length_map]
    exact (List.getElem?_eq_some_iff.1 ha).1
  refine (List.getElem?_inj hi h).1 ?_
  rw [List.getElem?_map, List.getElem?_map, ha, hb, Option.map_some, Option.map_some, hnumber]

/-- Lines on one side are told apart by their numbers just as those on the other side. -/
theorem Alike.number_eq_iff (h : Alike ls ls') (hab : SamePlace ls ls' a b)
    (hcd : SamePlace ls ls' c d) : a.number = c.number ↔ b.number = d.number := by
  obtain ⟨i, ha, hb⟩ := hab
  obtain ⟨j, hc, hd⟩ := hcd
  constructor
  · intro hnumber
    obtain rfl := eq_of_number_eq h.numbers ha hc hnumber
    rw [Option.some.inj (hb.symm.trans hd)]
  · intro hnumber
    obtain rfl := eq_of_number_eq h.numbers' hb hd hnumber
    rw [Option.some.inj (ha.symm.trans hc)]

theorem Alike.sameCode (h : Alike ls ls') {a b : CodeLine}
    (hab : SamePlace ls ls' a.place b.place) : SameCode a b := by
  have hcode : stripComment a.text = stripComment b.text := h.stripComment_eq hab
  obtain ⟨i, ha, hb⟩ := hab
  by_cases hquote : '"' ∈ stripComment a.text
  · -- neither line has a comment, so they are the same
    have htext : stripComment a.text = a.text := by
      by_contra hne
      exact h.quotes a.place (List.mem_of_getElem? ha) hne hquote
    have htext' : stripComment b.text = b.text := by
      by_contra hne
      exact h.quotes' b.place (List.mem_of_getElem? hb) hne (hcode ▸ hquote)
    exact .of_text_eq (htext.symm.trans (hcode.trans htext'))
  · exact .of_stripComment_eq hcode hquote

end Source

/-! ### What a scan returns -/

section Relations

variable (ls ls' : List SourceLine)

/-- The same declaration, opened and closed at the same places. -/
structure Declaration.Corresponds (d e : Declaration) : Prop where
  filepath : d.filepath = e.filepath
  name : d.name = e.name
  scope : d.scope = e.scope
  signature : d.signature = e.signature
  summary : d.summary = e.summary
  opens : ∃ a b, SamePlace ls ls' a b ∧ (d.line = a.number ∧ d.codeStart = a.start) ∧
    e.line = b.number ∧ e.codeStart = b.start
  closes : ∃ a b, SamePlace ls ls' a b ∧ d.codeStop = a.stop ∧ e.codeStop = b.stop

/-- Members of the same category and form with the same declaration. -/
structure Member.Corresponds (m n : Member) : Prop where
  category : m.category = n.category
  form : m.form = n.form
  declaration : m.declaration.Corresponds ls ls' n.declaration

/-- The same package with the same members, category by category and in the same order. -/
structure Package.Corresponds (p q : Package) : Prop where
  declaration : p.declaration.Corresponds ls ls' q.declaration
  members : ∀ c, (p.table c).values.Forall₂ (Member.Corresponds ls ls') (q.table c).values
  names : ∀ c, (p.table c).keys.map SymbolId.name = (q.table c).keys.map SymbolId.name

/-- The same unit. -/
inductive Symbol.Corresponds : Symbol → Symbol → Prop
  | entity {d e : Declaration} (h : d.Corresponds ls ls' e) : Corresponds (.entity d) (.entity e)
  | package {p q : Package} (h : p.Corresponds ls ls' q) : Corresponds (.package p) (.package q)

/-- The same error at the same place. -/
inductive Error.Corresponds : Error → Error → Prop
  | unterminated (filepath : String) (construct : Construct) (name : String) {a b : SourceLine}
      (h : SamePlace ls ls' a b) :
      Corresponds (.unterminated filepath construct name a.number)
        (.unterminated filepath construct name b.number)
  | duplicate (filepath name scope : String) {a b : SourceLine} (h : SamePlace ls ls' a b) :
      Corresponds (.duplicate filepath name a.number scope)
        (.duplicate filepath name b.number scope)

/-- The same units in the same order. -/
structure FileScan.Corresponds (f g : FileScan) : Prop where
  filepath : f.filepath = g.filepath
  library : f.library = g.library
  units : f.units.Forall₂ (Symbol.Corresponds ls ls') g.units

/-- Both succeed, with results that `R` relates, or both fail, with the same error. -/
inductive ResultsCorrespond {α : Type} (R : α → α → Prop) :
    Except Error α → Except Error α → Prop
  | ok {x y : α} (h : R x y) : ResultsCorrespond R (.ok x) (.ok y)
  | error {e e' : Error} (h : e.Corresponds ls ls' e') : ResultsCorrespond R (.error e) (.error e')

end Relations

variable {ls ls' : List SourceLine}

/-! ### Packages that grow -/

theorem Declaration.Corresponds.qualifiedName {d e : Declaration} (h : d.Corresponds ls ls' e) :
    d.qualifiedName = e.qualifiedName := by
  rw [Declaration.qualifiedName, Declaration.qualifiedName, h.scope, h.name]

/-- Members are told apart on one side just as on the other side. -/
theorem Member.Corresponds.key_eq_iff (hls : Alike ls ls') {m n m' n' : Member}
    (h : m.Corresponds ls ls' n) (h' : m'.Corresponds ls ls' n') :
    m.key = m'.key ↔ n.key = n'.key := by
  obtain ⟨a, b, hab, ⟨hm, -⟩, hn, -⟩ := h.declaration.opens
  obtain ⟨c, d, hcd, ⟨hm', -⟩, hn', -⟩ := h'.declaration.opens
  have hnumber := hls.number_eq_iff hab hcd
  simp only [Member.key, Declaration.id, Prod.mk.injEq, SymbolId.mk.injEq, h.category, h'.category,
    h.declaration.name, h'.declaration.name, hm, hn, hm', hn', Nat.cast_inj, hnumber]

theorem Member.Corresponds.mem_keys_iff (hls : Alike ls ls') {m n : Member}
    (h : m.Corresponds ls ls' n) {ms ns : List Member}
    (hms : ms.Forall₂ (Member.Corresponds ls ls') ns) :
    m.key ∈ ms.map Member.key ↔ n.key ∈ ns.map Member.key := by
  induction hms with
  | nil => simp
  | cons hhead _ ih =>
      rw [List.map_cons, List.map_cons, List.mem_cons, List.mem_cons, ih,
        h.key_eq_iff hls hhead]

/-- Packages made of corresponding declarations and members. -/
inductive PackagesMatch (ls ls' : List SourceLine) : Package → Package → Prop
  | ofMembers {d e : Declaration} {ms ns : List Member} (hd : d.Corresponds ls ls' e)
      (hms : ms.Forall₂ (Member.Corresponds ls ls') ns) :
      PackagesMatch ls ls' (.ofMembers d ms) (.ofMembers e ns)

theorem PackagesMatch.declaration {p q : Package} (h : PackagesMatch ls ls' p q) :
    p.declaration.Corresponds ls ls' q.declaration := by
  cases h with
  | ofMembers hd hms => exact hd

/-- One member is added to both packages, or refused by both. -/
theorem PackagesMatch.addMember (hls : Alike ls ls') {p q : Package} {m n : Member}
    (h : PackagesMatch ls ls' p q) (hm : m.Corresponds ls ls' n) :
    ResultsCorrespond ls ls' (PackagesMatch ls ls') (p.addMember m) (q.addMember n) := by
  cases h with
  | @ofMembers d e ms ns hd hms =>
      have hkeys := hm.mem_keys_iff hls hms
      rw [Package.addMember_ofMembers, Package.addMember_ofMembers]
      by_cases hmem : m.key ∈ ms.map Member.key
      · obtain ⟨a, b, hab, ⟨ha, -⟩, hb, -⟩ := hm.declaration.opens
        rw [if_pos hmem, if_pos (hkeys.1 hmem), hd.qualifiedName, hm.declaration.filepath,
          hm.declaration.name, ha, hb]
        exact .error (.duplicate _ _ _ hab)
      · rw [if_neg hmem, if_neg fun hmem' => hmem (hkeys.2 hmem')]
        exact .ok (.ofMembers hd (List.rel_append hms (.cons hm .nil)))

/-- **Several members** are added to both packages, or the same one is refused by both. -/
theorem PackagesMatch.foldlM_addMember (hls : Alike ls ls') {p q : Package} {ms ns : List Member}
    (h : PackagesMatch ls ls' p q) (hms : ms.Forall₂ (Member.Corresponds ls ls') ns) :
    ResultsCorrespond ls ls' (PackagesMatch ls ls') (ms.foldlM Package.addMember p)
      (ns.foldlM Package.addMember q) := by
  induction hms generalizing p q with
  | nil => exact .ok h
  | @cons m n ms ns hm _ ih =>
      rw [List.foldlM_cons, List.foldlM_cons]
      have hadd := h.addMember hls hm
      generalize p.addMember m = x at hadd
      generalize q.addMember n = y at hadd
      cases hadd with
      | ok h' => exact ih h'
      | error he => exact .error he

theorem names_of_forall₂ {ms ns : List Member} (h : ms.Forall₂ (Member.Corresponds ls ls') ns) :
    (ms.map fun m => m.declaration.name) = ns.map fun n => n.declaration.name := by
  induction h with
  | nil => rfl
  | cons hm _ ih => rw [List.map_cons, List.map_cons, ih, hm.declaration.name]

/-- A package that has been closed. -/
theorem PackagesMatch.corresponds {d e : Declaration} {ms ns : List Member}
    (hd : d.Corresponds ls ls' e) (hms : ms.Forall₂ (Member.Corresponds ls ls') ns) :
    (Package.ofMembers d ms).Corresponds ls ls' (Package.ofMembers e ns) := by
  have hfilter : ∀ c : Category, (ms.filter (·.category = c)).Forall₂ (Member.Corresponds ls ls')
      (ns.filter (·.category = c)) := by
    intro c
    refine List.rel_filter (fun m n hm => ?_) hms
    simp [hm.category]
  refine ⟨hd, fun c => ?_, fun c => ?_⟩
  · simpa using hfilter c
  · have hnames := names_of_forall₂ (hfilter c)
    simpa [Package.tableOf, Table.keys, Function.comp_def, Declaration.id] using hnames

namespace Scan

/-! ### Two passes -/

/-- The same open member. -/
structure OpenMember.Corresponds (ls ls' : List SourceLine) (m n : OpenMember) : Prop where
  opening : m.opening = n.opening
  first : SamePlace ls ls' m.first.place n.first.place
  depth : m.depth = n.depth
  parts : m.parts = n.parts

/-- The same phase. -/
inductive Phase.Corresponds (ls ls' : List SourceLine) : Phase → Phase → Prop
  | outside : Corresponds ls ls' .outside .outside
  | inEntity (name : List Char) {a b : CodeLine} (h : SamePlace ls ls' a.place b.place) :
      Corresponds ls ls' (.inEntity name a) (.inEntity name b)
  | inPackage {p q : Package} (h : PackagesMatch ls ls' p q) :
      Corresponds ls ls' (.inPackage p) (.inPackage q)
  | inMember {p q : Package} {m n : OpenMember} (h : PackagesMatch ls ls' p q)
      (hm : m.Corresponds ls ls' n) : Corresponds ls ls' (.inMember p m) (.inMember q n)
  | failed {e e' : Error} (h : e.Corresponds ls ls' e') :
      Corresponds ls ls' (.failed e) (.failed e')

/-- Two passes that have done the same. -/
structure Progress.Corresponds (ls ls' : List SourceLine) (s s' : Progress) : Prop where
  units : s.units.Forall₂ (Symbol.Corresponds ls ls') s'.units
  phase : s.phase.Corresponds ls ls' s'.phase

variable {t : Target} {s s' : Progress} {a b : CodeLine}

theorem declare_corresponds (hls : Alike ls ls') (t : Target) (scope : String) (name : List Char)
    {a b x y : CodeLine} (hfirst : SamePlace ls ls' a.place b.place)
    (hlast : SamePlace ls ls' x.place y.place) (summary : List Char) :
    (declare t scope name a x.stop summary).Corresponds ls ls'
      (declare t scope name b y.stop summary) where
  filepath := rfl
  name := rfl
  scope := rfl
  signature := by rw [declare, declare, (hls.sameCode hfirst).signature]
  summary := rfl
  opens := ⟨a.place, b.place, hfirst, ⟨rfl, rfl⟩, rfl, rfl⟩
  closes := ⟨x.place, y.place, hlast, rfl, rfl⟩

namespace OpenMember.Corresponds

variable {m n : OpenMember}

theorem feed (hls : Alike ls ls') (h : m.Corresponds ls ls' n)
    (hab : SamePlace ls ls' a.place b.place) :
    (m.feed a).1 = (n.feed b).1 ∧ (m.feed a).2.Corresponds ls ls' (n.feed b).2 := by
  have hsame := hls.sameCode hab
  have hclosing : (Construct.member m.opening.form).closing m.opening.name m.depth a =
      (Construct.member n.opening.form).closing n.opening.name n.depth b := by
    rw [h.opening, h.depth, hsame.closing]
  have hclosed := congrArg Prod.fst hclosing
  have hdepth := congrArg Prod.snd hclosing
  refine ⟨hclosed, h.opening, h.first, hdepth, ?_⟩
  simp only [OpenMember.feed, h.parts, hsame.signature]

theorem members (hls : Alike ls ls') (h : m.Corresponds ls ls' n)
    (hab : SamePlace ls ls' a.place b.place) (scope : String) :
    (m.members t scope a.stop).Forall₂ (Member.Corresponds ls ls') (n.members t scope b.stop) := by
  simp only [OpenMember.members, h.opening, h.parts]
  rw [List.forall₂_map_left_iff, List.forall₂_map_right_iff, List.forall₂_same]
  intro name _
  exact ⟨rfl, rfl, declare_corresponds hls t scope name h.first hab _⟩

end OpenMember.Corresponds

namespace Progress.Corresponds

theorem memberLine (hls : Alike ls ls') (h : s.Corresponds ls ls' s') {p q : Package}
    {m n : OpenMember} (hp : PackagesMatch ls ls' p q) (hm : m.Corresponds ls ls' n)
    (hab : SamePlace ls ls' a.place b.place) :
    (memberLine t s p m a).Corresponds ls ls' (memberLine t s' q n b) := by
  obtain ⟨hclosed, hfeed⟩ := hm.feed hls hab
  refine ⟨by simpa using h.units, ?_⟩
  simp only [Scan.memberLine]
  generalize m.feed a = x at hclosed hfeed
  generalize n.feed b = y at hclosed hfeed
  obtain ⟨closed, m'⟩ := x
  obtain ⟨closed', n'⟩ := y
  obtain rfl : closed = closed' := hclosed
  cases closed with
  | false => exact .inMember hp hfeed
  | true =>
      have hadd := hp.foldlM_addMember hls
        (hfeed.members (t := t) hls hab p.declaration.qualifiedName)
      rw [← hp.declaration.qualifiedName]
      simp only
      generalize List.foldlM Package.addMember p _ = x at hadd
      generalize List.foldlM Package.addMember q _ = y at hadd
      cases hadd with
      | ok hpq => exact .inPackage hpq
      | error he => exact .failed he

theorem packageLine (hls : Alike ls ls') (h : s.Corresponds ls ls' s') {p q : Package}
    (hp : PackagesMatch ls ls' p q) (hab : SamePlace ls ls' a.place b.place) :
    (packageLine s p a).Corresponds ls ls' (packageLine s' q b) := by
  have hclosing : (Construct.unit .package).closing p.declaration.name.toList 0 a =
      (Construct.unit .package).closing q.declaration.name.toList 0 b := by
    rw [hp.declaration.name, (hls.sameCode hab).closing]
  simp only [Scan.packageLine, hclosing]
  split
  · refine ⟨List.rel_append h.units (.cons (.package ?_) .nil), .outside⟩
    cases hp with
    | @ofMembers d e ms ns hd hms =>
        have hclosed : { d with codeStop := a.stop }.Corresponds ls ls'
            { e with codeStop := b.stop } :=
          { hd with closes := ⟨a.place, b.place, hab, rfl, rfl⟩ }
        exact PackagesMatch.corresponds hclosed hms
  · exact h

theorem entityLine (hls : Alike ls ls') (h : s.Corresponds ls ls' s') (name : List Char)
    {x y : CodeLine} (hfirst : SamePlace ls ls' x.place y.place)
    (hab : SamePlace ls ls' a.place b.place) :
    (entityLine t s name x a).Corresponds ls ls' (entityLine t s' name y b) := by
  simp only [Scan.entityLine, (hls.sameCode hab).closing]
  split
  · have hd := declare_corresponds hls t t.library name hfirst hab []
    exact ⟨List.rel_append h.units (.cons (.entity hd) .nil), .outside⟩
  · exact h

theorem outsideLine (hls : Alike ls ls') (h : s.Corresponds ls ls' s')
    (hab : SamePlace ls ls' a.place b.place) :
    (outsideLine t s a).Corresponds ls ls' (outsideLine t s' b) := by
  simp only [Scan.outsideLine, (hls.sameCode hab).unitOpening]
  split
  · exact h
  · next o ho =>
      split
      · exact ⟨h.units, .inEntity o.name hab⟩
      · have hd := declare_corresponds hls t t.library o.name hab hab []
        exact ⟨h.units, .inPackage (.ofMembers hd .nil)⟩

/-- **One line** of both passes. -/
theorem step (hls : Alike ls ls') (h : s.Corresponds ls ls' s')
    (hab : SamePlace ls ls' a.place b.place) :
    (step t s a).Corresponds ls ls' (step t s' b) := by
  obtain ⟨units, log, phase⟩ := s
  obtain ⟨units', log', phase'⟩ := s'
  have hphase : phase.Corresponds ls ls' phase' := h.phase
  cases hphase with
  | outside => exact h.outsideLine hls hab
  | inEntity name hfirst => exact h.entityLine hls name hfirst hab
  | inPackage hp =>
      simp only [Scan.step, (hls.sameCode hab).memberOpening]
      split
      · next o ho => exact h.memberLine hls hp ⟨rfl, hab, rfl, rfl⟩ hab
      · exact h.packageLine hls hp hab
  | inMember hp hm => exact h.memberLine hls hp hm hab
  | failed he => exact h

/-- **All lines** of both passes. -/
theorem run (hls : Alike ls ls') {as bs : List CodeLine}
    (hlines : as.Forall₂ (fun a b => SamePlace ls ls' a.place b.place) bs)
    (h : s.Corresponds ls ls' s') : (run t s as).Corresponds ls ls' (run t s' bs) := by
  induction hlines generalizing s s' with
  | nil => exact h
  | cons hab _ ih => exact ih (h.step hls hab)

/-- What the passes return when the lines run out. -/
theorem result (h : s.Corresponds ls ls' s') :
    ResultsCorrespond ls ls' (FileScan.Corresponds ls ls') (s.result t) (s'.result t) := by
  obtain ⟨units, log, phase⟩ := s
  obtain ⟨units', log', phase'⟩ := s'
  have hphase : phase.Corresponds ls ls' phase' := h.phase
  cases hphase with
  | outside => exact .ok ⟨rfl, rfl, h.units⟩
  | inEntity name hfirst => exact .error (.unterminated _ _ _ hfirst)
  | inPackage hp =>
      obtain ⟨a, b, hab, ⟨ha, -⟩, hb, -⟩ := hp.declaration.opens
      simp only [Progress.result, hp.declaration.name, ha, hb]
      exact .error (.unterminated _ _ _ hab)
  | inMember hp hm =>
      simp only [Progress.result, hm.opening]
      exact .error (.unterminated _ _ _ hm.first)
  | failed he => exact .error he

end Progress.Corresponds

end Scan

/-! ### Two sources -/

theorem Source.nodup_numbers (data : Bytes) : ((codePlaces data).map SourceLine.number).Nodup := by
  have hnumbers := numbered_codeLines data
  rw [← map_place_codeLines, List.map_map, List.Nodup, List.pairwise_map]
  exact hnumbers.imp fun hlt heq => absurd heq (Nat.ne_of_lt hlt)

theorem Source.forall₂_samePlace {ls ls' : List CodeLine} (h : ls.length = ls'.length) :
    ls.Forall₂ (fun a b => SamePlace (ls.map CodeLine.place) (ls'.map CodeLine.place) a.place
      b.place) ls' := by
  refine List.forall₂_iff_get.2 ⟨h, fun i hi hi' => ⟨i, ?_, ?_⟩⟩
  · simp [hi]
  · simp [hi']

/-- **Comments and blank lines change nothing that is declared**: of two sources whose code lines
are the same up to comments, with no double quotes before a comment, both are scanned or neither is,
with the same units or the same error, at the same places among the code lines. -/
theorem correspondence_of_scanSource (filepath library : String) {data data' : Bytes}
    (hcode : ((codePlaces data).map fun l => stripComment l.text) =
      (codePlaces data').map fun l => stripComment l.text)
    (hquote : ∀ l ∈ codePlaces data, QuotesApart l)
    (hquote' : ∀ l ∈ codePlaces data', QuotesApart l) :
    ResultsCorrespond (codePlaces data) (codePlaces data')
      (FileScan.Corresponds (codePlaces data) (codePlaces data'))
      (scanSource filepath library data).result (scanSource filepath library data').result := by
  have hls : Alike (codePlaces data) (codePlaces data') :=
    ⟨hcode, hquote, hquote', nodup_numbers data, nodup_numbers data'⟩
  have hlength : (codeLines data).length = (codeLines data').length := by
    have hlen := congrArg List.length hcode
    rwa [← map_place_codeLines, ← map_place_codeLines, List.length_map, List.length_map,
      List.length_map, List.length_map] at hlen
  have hlines := forall₂_samePlace hlength
  rw [map_place_codeLines, map_place_codeLines] at hlines
  have hstart : Scan.Progress.start.Corresponds (codePlaces data) (codePlaces data') .start :=
    ⟨.nil, .outside⟩
  rw [result_scanSource, result_scanSource]
  exact (hstart.run hls hlines).result

/-- The declarations of `VhdlCatalog.sample` with other comments and other blank lines. -/
def plainSample : Bytes :=
  ("package p is-- not about p\n  constant a, b : t := 1;-- neither of them\n" ++
    "  procedure q (x : t;\n    y : t);\n\n\n  type r is record\n    f : t;\n" ++
    "  -- the last field\n  end record;\nend p;\nentity e is\nend").toUTF8.data.toList

theorem correspondence_of_samples :
    ((codePlaces sample).map (fun l => stripComment l.text) =
        (codePlaces plainSample).map fun l => stripComment l.text) ∧
      (∀ l ∈ codePlaces sample, QuotesApart l) ∧ (∀ l ∈ codePlaces plainSample, QuotesApart l) ∧
      ResultsCorrespond (codePlaces sample) (codePlaces plainSample)
        (FileScan.Corresponds (codePlaces sample) (codePlaces plainSample))
        (scanSource "sample.vhd" "Work" sample).result
        (scanSource "sample.vhd" "Work" plainSample).result := by
  have hcode : ((codePlaces sample).map fun l => stripComment l.text) =
      (codePlaces plainSample).map fun l => stripComment l.text := by decide +kernel
  have hquote : ∀ l ∈ codePlaces sample, QuotesApart l := by decide +kernel
  have hquote' : ∀ l ∈ codePlaces plainSample, QuotesApart l := by decide +kernel
  exact ⟨hcode, hquote, hquote', correspondence_of_scanSource _ _ hcode hquote hquote'⟩

end VhdlCatalog
