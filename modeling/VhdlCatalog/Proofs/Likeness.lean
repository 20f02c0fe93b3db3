import VhdlCatalog.Proofs.Concatenation

/-!
**Sources that say the same in another style.**

Two sources can have the same lines and still differ byte by byte: in the case of letters, or in
how their lines are terminated.  Such a difference does not reach what the pass decides, because
lines are recognised by their lower-cased text alone.  It reaches what the pass hands on: the
offsets of lines, and the texts that are shown as they are written.

A likeness says what may differ: which offsets stand for the same place, and which texts for the
same text.  Lines that are alike take two passes through the same phases, and what the passes
return is alike.

Main definitions:

* `VhdlCatalog.Likeness` — what may differ;
* `VhdlCatalog.Declaration.Like`, `VhdlCatalog.Symbol.Like`, `VhdlCatalog.ScanOutcome.Like` — the
  same up to what may differ;
* `VhdlCatalog.Scan.Progress.Like` — two passes that have done the same.

Main results:

* `VhdlCatalog.Scan.Progress.Like.step`, `VhdlCatalog.Scan.Progress.Like.run` — one line of the two
  passes, and all lines;
* `VhdlCatalog.Source.codeAfter_like` — code lines are alike when all lines are;
* `VhdlCatalog.scanSource_like` — **sources that are alike** are scanned alike.
-/

set_option relaxedAutoImplicit false
set_option autoImplicit false

namespace VhdlCatalog

open Source

/-! ### What may differ -/

/-- What may differ between two sources that declare the same. -/
structure Likeness where
  /-- The two offsets stand for the same place. -/
  offset : Int → Int → Prop
  /-- The two texts stand for the same text. -/
  text : List Char → List Char → Prop
  /-- The difference disappears where lines are recognised. -/
  lower_eq {cs ds : List Char} : text cs ds → Text.lower cs = Text.lower ds
  /-- A line without its comment and with single spaces. -/
  text_signature {cs ds : List Char} :
    text cs ds → text (collapse (stripComment cs)) (collapse (stripComment ds))
  /-- Several lines on one line. -/
  text_joinLines {ps qs : List (List Char)} :
    ps.Forall₂ text qs → text (joinLines ps) (joinLines qs)

/-- Both succeed, with results that `S` relates, or both fail, with the same error. -/
inductive SameResult {α : Type} (S : α → α → Prop) : Except Error α → Except Error α → Prop
  | ok {x y : α} (h : S x y) : SameResult S (.ok x) (.ok y)
  | error (e : Error) : SameResult S (.error e) (.error e)

section Relations

variable (R : Likeness)

/-- The same code line. -/
structure Source.CodeLine.Like (a b : CodeLine) : Prop where
  number : a.number = b.number
  start : R.offset a.start b.start
  stop : R.offset a.stop b.stop
  docStart : R.offset a.docStart b.docStart
  docStop : R.offset a.docStop b.docStop
  text : R.text a.text b.text

/-- The same declaration. -/
structure Declaration.Like (d e : Declaration) : Prop where
  filepath : d.filepath = e.filepath
  name : d.name = e.name
  line : d.line = e.line
  scope : d.scope = e.scope
  docStart : R.offset d.docStart e.docStart
  docStop : R.offset d.docStop e.docStop
  codeStart : R.offset d.codeStart e.codeStart
  codeStop : R.offset d.codeStop e.codeStop
  signature : R.text d.signature.toList e.signature.toList
  summary : R.text d.summary.toList e.summary.toList

/-- The same member, of the same category and form. -/
structure Member.Like (m n : Member) : Prop where
  category : m.category = n.category
  form : m.form = n.form
  declaration : m.declaration.Like R n.declaration

/-- The same package with the same members, category by category, in the same order and under the
same keys. -/
structure Package.Like (p q : Package) : Prop where
  declaration : p.declaration.Like R q.declaration
  entries : ∀ c, (p.table c).entries.Forall₂ (fun e f => e.1 = f.1 ∧ e.2.Like R f.2)
    (q.table c).entries

/-- The same unit. -/
inductive Symbol.Like : Symbol → Symbol → Prop
  | entity {d e : Declaration} (h : d.Like R e) : Like (.entity d) (.entity e)
  | package {p q : Package} (h : p.Like R q) : Like (.package p) (.package q)

/-- The same units in the same order. -/
structure FileScan.Like (f g : FileScan) : Prop where
  filepath : f.filepath = g.filepath
  library : f.library = g.library
  units : f.units.Forall₂ (Symbol.Like R) g.units

/-- The same units or the same error, and the same events reported. -/
structure ScanOutcome.Like (o o' : ScanOutcome) : Prop where
  result : SameResult (FileScan.Like R) o.result o'.result
  log : o.log = o'.log

end Relations

variable {R : Likeness}

/-! ### Packages -/

theorem Declaration.Like.qualifiedName {d e : Declaration} (h : d.Like R e) :
    d.qualifiedName = e.qualifiedName := by
  rw [Declaration.qualifiedName, Declaration.qualifiedName, h.scope, h.name]

theorem Declaration.Like.id {d e : Declaration} (h : d.Like R e) : d.id = e.id := by
  rw [Declaration.id, Declaration.id, h.name, h.line]

namespace Package.Like

variable {p q : Package}

theorem keys (h : p.Like R q) (c : Category) : (p.table c).keys = (q.table c).keys := by
  have hentries := h.entries c
  rw [Table.keys, Table.keys]
  generalize (p.table c).entries = es at hentries
  generalize (q.table c).entries = fs at hentries
  induction hentries with
  | nil => rfl
  | cons he _ ih => rw [List.map_cons, List.map_cons, he.1, ih]

theorem size (h : p.Like R q) : p.size = q.size := by
  have hlength : ∀ c, (p.table c).entries.length = (q.table c).entries.length := fun c =>
    (h.entries c).length_eq
  simp only [Package.size, Package.entries, List.length_flatMap, hlength]

/-- **One member** is added to both packages, or refused by both. -/
theorem addMember (h : p.Like R q) {m n : Member} (hm : m.Like R n) :
    SameResult (Package.Like R) (p.addMember m) (q.addMember n) := by
  have hcontains : (p.table m.category).contains m.declaration.id =
      (q.table n.category).contains n.declaration.id := by
    rw [Table.contains, Table.contains, hm.category, hm.declaration.id, h.keys]
  simp only [Package.addMember, hcontains]
  split
  · rw [hm.declaration.filepath, hm.declaration.name, hm.declaration.line,
      h.declaration.qualifiedName]
    exact .error _
  · refine .ok ⟨?_, fun c => ?_⟩
    · rw [declaration_setTable, declaration_setTable]
      exact h.declaration
    · rw [← hm.category]
      by_cases hc : m.category = c
      · subst hc
        rw [table_setTable_self, table_setTable_self]
        exact List.rel_append (h.entries _) (.cons ⟨hm.declaration.id, hm⟩ .nil)
      · rw [table_setTable_of_ne p hc, table_setTable_of_ne q hc]
        exact h.entries c

/-- **Several members** are added to both packages, or the same one is refused by both. -/
theorem foldlM_addMember (h : p.Like R q) {ms ns : List Member}
    (hms : ms.Forall₂ (Member.Like R) ns) :
    SameResult (Package.Like R) (ms.foldlM Package.addMember p)
      (ns.foldlM Package.addMember q) := by
  induction hms generalizing p q with
  | nil => exact .ok h
  | @cons m n ms ns hm _ ih =>
      rw [List.foldlM_cons, List.foldlM_cons]
      have hadd := h.addMember hm
      generalize p.addMember m = x at hadd
      generalize q.addMember n = y at hadd
      cases hadd with
      | ok h' => exact ih h'
      | error e => exact .error e

end Package.Like

/-! ### One code line -/

namespace Source.CodeLine.Like

variable {a b : CodeLine}

theorem line_eq (h : a.Like R b) : a.line = b.line := R.lower_eq h.text

theorem closing_eq (h : a.Like R b) (construct : Construct) (name : List Char) (depth : Int) :
    construct.closing name depth a = construct.closing name depth b := by
  have hcode : a.code = b.code := congrArg stripComment h.line_eq
  cases construct with
  | unit form => cases form <;> simp only [Construct.closing, closesPackage, h.line_eq, hcode]
  | member form => cases form <;> simp only [Construct.closing, closesRecord, h.line_eq, hcode]

theorem signature (h : a.Like R b) : R.text a.signature b.signature := R.text_signature h.text

end Source.CodeLine.Like

namespace Scan

/-! ### Two passes -/

/-- The same open member. -/
structure OpenMember.Like (R : Likeness) (m n : OpenMember) : Prop where
  opening : m.opening = n.opening
  first : m.first.Like R n.first
  depth : m.depth = n.depth
  parts : m.parts.Forall₂ R.text n.parts

/-- The same phase. -/
inductive Phase.Like (R : Likeness) : Phase → Phase → Prop
  | outside : Like R .outside .outside
  | inEntity (name : List Char) {a b : CodeLine} (h : a.Like R b) :
      Like R (.inEntity name a) (.inEntity name b)
  | inPackage {p q : Package} (h : p.Like R q) : Like R (.inPackage p) (.inPackage q)
  | inMember {p q : Package} {m n : OpenMember} (h : p.Like R q) (hm : m.Like R n) :
      Like R (.inMember p m) (.inMember q n)
  | failed (e : Error) : Like R (.failed e) (.failed e)

/-- Two passes that have done the same. -/
structure Progress.Like (R : Likeness) (s s' : Progress) : Prop where
  units : s.units.Forall₂ (Symbol.Like R) s'.units
  log : s.log = s'.log
  phase : s.phase.Like R s'.phase

variable {t : Target} {s s' : Progress} {a b : CodeLine}

theorem declare_like (scope : String) (name : List Char) (hfirst : a.Like R b) {stop stop' : Nat}
    (hstop : R.offset stop stop') {summary summary' : List Char}
    (hsummary : R.text summary summary') :
    (declare t scope name a stop summary).Like R (declare t scope name b stop' summary') where
  filepath := rfl
  name := rfl
  line := congrArg Int.ofNat hfirst.number
  scope := rfl
  docStart := hfirst.docStart
  docStop := hfirst.docStop
  codeStart := hfirst.start
  codeStop := hstop
  signature := by
    simp only [declare, String.toList_ofList]
    exact hfirst.signature
  summary := by simpa only [declare, String.toList_ofList] using hsummary

theorem text_nil (R : Likeness) : R.text [] [] := R.text_joinLines .nil

namespace OpenMember.Like

variable {m n : OpenMember}

theorem feed (h : m.Like R n) (hab : a.Like R b) :
    (m.feed a).1 = (n.feed b).1 ∧ (m.feed a).2.Like R (n.feed b).2 := by
  have hclosing : (Construct.member m.opening.form).closing m.opening.name m.depth a =
      (Construct.member n.opening.form).closing n.opening.name n.depth b := by
    rw [h.opening, h.depth, hab.closing_eq]
  have hclosed := congrArg Prod.fst hclosing
  have hdepth := congrArg Prod.snd hclosing
  exact ⟨hclosed, h.opening, h.first, hdepth,
    List.rel_append h.parts (.cons hab.signature .nil)⟩

theorem members (h : m.Like R n) (hab : a.Like R b) (scope : String) :
    (m.members t scope a.stop).Forall₂ (Member.Like R) (n.members t scope b.stop) := by
  have hsummary : R.text (if n.opening.form.isSubprogram then joinLines m.parts else [])
      (if n.opening.form.isSubprogram then joinLines n.parts else []) := by
    split
    · exact R.text_joinLines h.parts
    · exact text_nil R
  simp only [OpenMember.members, h.opening]
  rw [List.forall₂_map_left_iff, List.forall₂_map_right_iff, List.forall₂_same]
  intro name _
  exact ⟨rfl, rfl, declare_like scope name h.first hab.stop hsummary⟩

end OpenMember.Like

/-- A declaration is reported in the same way on both sides. -/
theorem declaredEvent_eq {d e : Declaration} (h : d.Like R e) (construct : Construct) :
    declaredEvent construct d = declaredEvent construct e := by
  rw [declaredEvent, declaredEvent, h.filepath, h.line, h.qualifiedName]

/-- A package is reported in the same way on both sides. -/
theorem packagedEvent_eq {p q : Package} (h : p.Like R q) :
    Event.packaged p.declaration.filepath p.declaration.line p.declaration.qualifiedName p.size =
      .packaged q.declaration.filepath q.declaration.line q.declaration.qualifiedName q.size := by
  rw [h.declaration.filepath, h.declaration.line, h.declaration.qualifiedName, h.size]

/-- The events of members that are declared on both sides. -/
theorem map_declaredEvent {ms ns : List Member} (h : ms.Forall₂ (Member.Like R) ns)
    (construct : Construct) :
    (ms.map fun m => declaredEvent construct m.declaration) =
      ns.map fun n => declaredEvent construct n.declaration := by
  induction h with
  | nil => rfl
  | cons hm _ ih => rw [List.map_cons, List.map_cons, ih, declaredEvent_eq hm.declaration]

namespace Progress.Like

theorem memberLine (h : s.Like R s') {p q : Package} {m n : OpenMember} (hp : p.Like R q)
    (hm : m.Like R n) (hab : a.Like R b) :
    (memberLine t s p m a).Like R (memberLine t s' q n b) := by
  obtain ⟨hclosed, hfeed⟩ := hm.feed hab
  simp only [Scan.memberLine]
  generalize m.feed a = x at hclosed hfeed
  generalize n.feed b = y at hclosed hfeed
  obtain ⟨closed, m'⟩ := x
  obtain ⟨closed', n'⟩ := y
  obtain rfl : closed = closed' := hclosed
  replace hfeed : m'.Like R n' := hfeed
  cases closed with
  | false => exact ⟨h.units, h.log, .inMember hp hfeed⟩
  | true =>
      have hmembers := hfeed.members (t := t) hab p.declaration.qualifiedName
      have hadd := hp.foldlM_addMember hmembers
      have hlog := map_declaredEvent hmembers (.member m'.opening.form)
      simp only [← hp.declaration.qualifiedName, ← hfeed.opening, hlog, h.log]
      generalize List.foldlM Package.addMember p _ = x at hadd
      generalize List.foldlM Package.addMember q _ = y at hadd
      cases hadd with
      | ok hpq => exact ⟨h.units, rfl, .inPackage hpq⟩
      | error e => exact ⟨h.units, rfl, .failed e⟩

theorem packageLine (h : s.Like R s') {p q : Package} (hp : p.Like R q) (hab : a.Like R b) :
    (packageLine s p a).Like R (packageLine s' q b) := by
  have hclosing : (Construct.unit .package).closing p.declaration.name.toList 0 a =
      (Construct.unit .package).closing q.declaration.name.toList 0 b := by
    rw [hp.declaration.name, hab.closing_eq]
  simp only [Scan.packageLine, hclosing]
  split
  · -- only the end of the package is written into it
    have hd : { p.declaration with codeStop := a.stop }.Like R
        { q.declaration with codeStop := b.stop } :=
      { hp.declaration with codeStop := hab.stop }
    have hclosed : { p with declaration := { p.declaration with codeStop := a.stop } }.Like R
        { q with declaration := { q.declaration with codeStop := b.stop } } :=
      ⟨hd, hp.entries⟩
    have hlog := congrArg₂ (fun log event => log ++ [event]) h.log (packagedEvent_eq hclosed)
    exact ⟨List.rel_append h.units (.cons (.package hclosed) .nil), hlog, .outside⟩
  · exact h

theorem entityLine (h : s.Like R s') (name : List Char) {x y : CodeLine} (hfirst : x.Like R y)
    (hab : a.Like R b) : (entityLine t s name x a).Like R (entityLine t s' name y b) := by
  simp only [Scan.entityLine, hab.closing_eq]
  split
  · have hd := declare_like (t := t) t.library name hfirst hab.stop (text_nil R)
    refine ⟨List.rel_append h.units (.cons (.entity hd) .nil), ?_, .outside⟩
    rw [h.log, declaredEvent_eq hd]
  · exact h

theorem outsideLine (h : s.Like R s') (hab : a.Like R b) :
    (outsideLine t s a).Like R (outsideLine t s' b) := by
  simp only [Scan.outsideLine, hab.line_eq]
  split
  · exact h
  · next o ho =>
      split
      · exact ⟨h.units, h.log, .inEntity o.name hab⟩
      · have hd := declare_like (t := t) t.library o.name hab hab.stop (text_nil R)
        refine ⟨h.units, h.log, .inPackage ⟨hd, fun c => ?_⟩⟩
        cases c <;> exact .nil

/-- **One line** of both passes. -/
theorem step (h : s.Like R s') (hab : a.Like R b) : (step t s a).Like R (step t s' b) := by
  obtain ⟨units, log, phase⟩ := s
  obtain ⟨units', log', phase'⟩ := s'
  have hphase : phase.Like R phase' := h.phase
  cases hphase with
  | outside => exact h.outsideLine hab
  | inEntity name hfirst => exact h.entityLine name hfirst hab
  | inPackage hp =>
      simp only [Scan.step, hab.line_eq]
      split
      · next o _ => exact h.memberLine hp ⟨rfl, hab, rfl, .nil⟩ hab
      · exact h.packageLine hp hab
  | inMember hp hm => exact h.memberLine hp hm hab
  | failed e => exact h

/-- **All lines** of both passes. -/
theorem run {as bs : List CodeLine} (hlines : as.Forall₂ (CodeLine.Like R) bs)
    (h : s.Like R s') : (run t s as).Like R (run t s' bs) := by
  induction hlines generalizing s s' with
  | nil => exact h
  | cons hab _ ih => exact ih (h.step hab)

/-- What the passes return when the lines run out. -/
theorem result (h : s.Like R s') :
    SameResult (FileScan.Like R) (s.result t) (s'.result t) := by
  obtain ⟨units, log, phase⟩ := s
  obtain ⟨units', log', phase'⟩ := s'
  have hphase : phase.Like R phase' := h.phase
  cases hphase with
  | outside => exact .ok ⟨rfl, rfl, h.units⟩
  | inEntity name hfirst =>
      simp only [Progress.result, hfirst.number]
      exact .error _
  | inPackage hp =>
      simp only [Progress.result, hp.declaration.name, hp.declaration.line]
      exact .error _
  | inMember hp hm =>
      simp only [Progress.result, hm.opening, hm.first.number]
      exact .error _
  | failed e => exact .error e

end Progress.Like

end Scan

/-! ### All lines -/

namespace Source

/-- The offset at which the line with the given index begins; after the last line, the end. -/
def offsetAt (raws : List Bytes) (i : Nat) : Nat := (raws.take i).flatten.length

theorem offsetAt_append (init rest : List Bytes) :
    offsetAt (init ++ rest) init.length = init.flatten.length := by
  rw [offsetAt, List.take_left]

/-- The texts of two lines are alike. -/
def TextLike (R : Likeness) (raw raw' : Bytes) : Prop := R.text (lineText raw) (lineText raw')

variable {before before' rest rest' : List Bytes} {raw raw' : Bytes}

theorem TextLike.isCommentBytes_eq (h : TextLike R raw raw') :
    isCommentBytes raw = isCommentBytes raw' := by
  rw [isCommentBytes, isCommentBytes, R.lower_eq h]

/-- The comment lines at the end are the same on both sides. -/
theorem length_rdropWhile_eq (h : before.Forall₂ (TextLike R) before') :
    (before.rdropWhile isCommentBytes).length = (before'.rdropWhile isCommentBytes).length := by
  simp only [List.rdropWhile, List.length_reverse]
  have hrev := List.rel_reverse h
  generalize before.reverse = xs at hrev
  generalize before'.reverse = ys at hrev
  induction hrev with
  | nil => rfl
  | @cons x y xs ys hxy hrest ih =>
      have hcomment := hxy.isCommentBytes_eq
      cases hx : isCommentBytes x with
      | true => rw [List.dropWhile_cons_of_pos hx, List.dropWhile_cons_of_pos (hcomment ▸ hx), ih]
      | false =>
          rw [List.dropWhile_cons_of_neg (by simp [hx]),
            List.dropWhile_cons_of_neg (by simp [← hcomment, hx]), List.length_cons,
            List.length_cons, hrest.length_eq]

/-- The offsets of two lists of lines stand for the same places. -/
def OffsetsLike (R : Likeness) (raws raws' : List Bytes) : Prop :=
  ∀ i ≤ raws.length, R.offset (offsetAt raws i) (offsetAt raws' i)

/-- Where a first part of the lines ends. -/
theorem OffsetsLike.of_append (h : OffsetsLike R (before ++ rest) (before' ++ rest'))
    (hlength : before.length = before'.length) :
    R.offset before.flatten.length before'.flatten.length := by
  have hi := h before.length (by simp)
  rwa [offsetAt_append, hlength, offsetAt_append] at hi

/-- A code line after lines that are alike. -/
theorem CodeLine.following_like (hbefore : before.Forall₂ (TextLike R) before')
    (hraw : TextLike R raw raw')
    (h : OffsetsLike R (before ++ raw :: rest) (before' ++ raw' :: rest')) :
    (CodeLine.following before raw).Like R (.following before' raw') := by
  have hlength := hbefore.length_eq
  have hstart := h.of_append hlength
  have hstop : R.offset (before ++ [raw]).flatten.length (before' ++ [raw']).flatten.length := by
    rw [List.append_cons, List.append_cons before'] at h
    exact h.of_append (by simp [hlength])
  have hdoc : R.offset (before.rdropWhile isCommentBytes).flatten.length
      (before'.rdropWhile isCommentBytes).flatten.length := by
    rw [← List.rdropWhile_append_rtakeWhile (p := isCommentBytes) (l := before),
      ← List.rdropWhile_append_rtakeWhile (p := isCommentBytes) (l := before'),
      List.append_assoc, List.append_assoc] at h
    exact h.of_append (length_rdropWhile_eq hbefore)
  simp only [List.flatten_append, List.flatten_singleton, List.length_append] at hstop
  exact ⟨congrArg (· + 1) hlength, hstart, hstop, hdoc, hstart, hraw⟩

/-- **Code lines are alike** when all lines are. -/
theorem codeAfter_like (hbefore : before.Forall₂ (TextLike R) before')
    (hrest : rest.Forall₂ (TextLike R) rest')
    (h : OffsetsLike R (before ++ rest) (before' ++ rest')) :
    (codeAfter before rest).Forall₂ (CodeLine.Like R) (codeAfter before' rest') := by
  induction hrest generalizing before before' with
  | nil => exact .nil
  | @cons raw raw' rest rest' hraw _ ih =>
      have hkind : (SourceLine.following before raw).kind =
          (SourceLine.following before' raw').kind := by
        rw [kind_following, kind_following, R.lower_eq hraw]
      have hnext : (codeAfter (before ++ [raw]) rest).Forall₂ (CodeLine.Like R)
          (codeAfter (before' ++ [raw']) rest') := by
        refine ih (List.rel_append hbefore (.cons hraw .nil)) ?_
        rwa [← List.append_cons, ← List.append_cons]
      rw [codeAfter, codeAfter, hkind]
      cases (SourceLine.following before' raw').kind with
      | body => exact .nil
      | code => exact .cons (CodeLine.following_like hbefore hraw h) hnext
      | blank => exact hnext
      | comment => exact hnext

end Source

/-! ### Two sources -/

/-- What a scan comes to when the lines run out. -/
def Scan.Progress.outcome (t : Target) (s : Progress) : ScanOutcome :=
  match s.result t with
  | .ok file => ⟨.ok file, s.log ++ [.scanned t.filepath file.units.length t.library]⟩
  | .error e => ⟨.error e, s.log⟩

theorem scanSource_eq_outcome (filepath library : String) (data : Bytes) :
    scanSource filepath library data =
      (Scan.run (.ofFile filepath library) .start (codeLines data)).outcome
        (.ofFile filepath library) :=
  rfl

theorem Scan.Progress.Like.outcome {t : Target} {s s' : Progress} (h : s.Like R s') :
    (s.outcome t).Like R (s'.outcome t) := by
  have hresult := h.result (t := t)
  simp only [Progress.outcome, h.log]
  generalize s.result t = x at hresult
  generalize s'.result t = y at hresult
  cases hresult with
  | @ok f g hfile =>
      refine ⟨.ok hfile, ?_⟩
      simp only [hfile.units.length_eq]
  | error e => exact ⟨.error e, rfl⟩

/-- **Sources that are alike are scanned alike**: when the lines of two sources have the same texts
and stand at the same places, up to what may differ, both are scanned or neither is, with the same
units or the same error. -/
theorem scanSource_like (filepath library : String) {data data' : Bytes}
    (htexts : (lines data).Forall₂ (TextLike R) (lines data'))
    (hoffsets : OffsetsLike R (lines data) (lines data')) :
    (scanSource filepath library data).Like R (scanSource filepath library data') := by
  have hlines : (codeLines data).Forall₂ (CodeLine.Like R) (codeLines data') := by
    rw [codeLines_eq, codeLines_eq]
    exact codeAfter_like .nil htexts hoffsets
  have hstart : Scan.Progress.start.Like R .start := ⟨.nil, rfl, .outside⟩
  rw [scanSource_eq_outcome, scanSource_eq_outcome]
  exact (hstart.run hlines).outcome

end VhdlCatalog
