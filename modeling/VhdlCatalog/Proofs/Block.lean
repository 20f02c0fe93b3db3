import VhdlCatalog.Proofs.ClosingRule
import VhdlCatalog.Proofs.PackageMembers
import VhdlCatalog.Scan.FileScan

/-!
**A file as a list of blocks.**

The pass of `VhdlCatalog.Scan.step` knows one line and a phase.  What it has done, seen from behind,
is to cut the code lines of a file into blocks: lines outside every unit, entities, and packages,
whose headers are cut again into lines between members and members.  Blocks carry the reasons for
their own bounds: the line they open on opens them, their last line closes them, and no line before
it does.  A pass that reaches the end of a file outside every unit has found such blocks, and the
units it returns are theirs.

Main definitions:

* `VhdlCatalog.Scan.MemberBlock`, `VhdlCatalog.Scan.EntityBlock`, `VhdlCatalog.Scan.PackageBlock` —
  the lines of a declaration;
* `VhdlCatalog.Scan.HeaderItem`, `VhdlCatalog.Scan.FileItem` — the parts of a package header and of
  a file;
* `VhdlCatalog.Scan.Reads` — what the pass has made of the lines it has seen.

Main results:

* `VhdlCatalog.Scan.Reads.step`, `VhdlCatalog.Scan.reads_run` — one line, and all lines;
* `VhdlCatalog.exists_items_of_scanSource` — **a file that is scanned is a list of blocks**: their
  lines are the code lines of the file, and their units are what the scan returns.
-/

set_option relaxedAutoImplicit false
set_option autoImplicit false

namespace VhdlCatalog

open Source

namespace Scan

/-! ### Members -/

/-- A member of a package: the lines from the one it opens on to the first one that closes it. -/
structure MemberBlock where
  /-- What its first line declares. -/
  opening : Opening MemberForm
  /-- The lines before the closing one. -/
  before : List CodeLine
  /-- The closing line, which may be the first. -/
  last : CodeLine
  /-- The first line opens the member. -/
  opens : memberOpening? (before.headD last).line = some opening
  /-- The last line closes it. -/
  closes : (Construct.member opening.form).ClosedBy opening.name (before.map CodeLine.place)
    last.place
  /-- No line before the last one closes it. -/
  waits : NoneCloses ((Construct.member opening.form).ClosedBy opening.name)
    (before.map CodeLine.place)

namespace MemberBlock

/-- The line the member opens on. -/
def first (b : MemberBlock) : CodeLine := b.before.headD b.last

/-- All lines of the member. -/
def lines (b : MemberBlock) : List CodeLine := b.before ++ [b.last]

/-- The member that is declared under the given name. -/
def member (t : Target) (scope : String) (b : MemberBlock) (name : List Char) : Member where
  category := b.opening.form.category
  declaration := declare t scope name b.first b.last.stop
    (if b.opening.form.isSubprogram then joinLines (b.lines.map CodeLine.signature) else [])
  form := b.opening.form.typeForm

/-- The members that are declared, one for each name. -/
def members (t : Target) (scope : String) (b : MemberBlock) : List Member :=
  b.opening.names.map (b.member t scope)

theorem lines_eq_cons (b : MemberBlock) : b.lines = b.first :: b.lines.tail := by
  rw [lines, first]
  cases b.before <;> rfl

theorem getLastD_tail_lines (b : MemberBlock) : b.lines.tail.getLastD b.first = b.last := by
  rw [lines, first]
  cases b.before <;> simp

end MemberBlock

/-- A part of the header of the package called `name`. -/
inductive HeaderItem (name : List Char) where
  /-- A line between members, which neither opens a member nor closes the package. -/
  | other (l : CodeLine) (opens : memberOpening? l.line = none)
      (waits : ¬(Construct.unit .package).ClosedBy name [] l.place)
  /-- A member. -/
  | member (block : MemberBlock)

namespace HeaderItem

variable {name : List Char}

/-- The lines of the part. -/
def lines : HeaderItem name → List CodeLine
  | other l _ _ => [l]
  | member b => b.lines

/-- The members that are declared. -/
def members (t : Target) (scope : String) : HeaderItem name → List Member
  | other .. => []
  | member b => b.members t scope

end HeaderItem

/-! ### Units -/

/-- The beginning of a package: the line it opens on and parts of its header. -/
structure Header where
  /-- What its first line declares. -/
  opening : Opening UnitForm
  /-- The line it opens on. -/
  first : CodeLine
  /-- The first line opens a unit. -/
  opens : unitOpening? first.line = some opening
  /-- The unit is a package. -/
  isPackage : opening.form = .package
  /-- The lines after the first one. -/
  items : List (HeaderItem opening.name)

namespace Header

/-- All lines. -/
def lines (h : Header) : List CodeLine := h.first :: h.items.flatMap HeaderItem.lines

/-- The declaration of a package that ends at the offset `stop`. -/
def declaration (t : Target) (h : Header) (stop : Nat) : Declaration :=
  declare t t.library h.opening.name h.first stop []

/-- The members that are declared. -/
def members (t : Target) (h : Header) : List Member :=
  h.items.flatMap (HeaderItem.members t (h.declaration t h.first.stop).qualifiedName)

/-- The package, when it ends at the offset `stop`. -/
def package (t : Target) (h : Header) (stop : Nat) : Package :=
  .ofMembers (h.declaration t stop) (h.members t)

/-- The beginning with one more part. -/
def snoc (h : Header) (item : HeaderItem h.opening.name) : Header :=
  { h with items := h.items ++ [item] }

theorem lines_snoc (h : Header) (item : HeaderItem h.opening.name) :
    (h.snoc item).lines = h.lines ++ item.lines := by
  simp [lines, snoc]

theorem members_snoc (t : Target) (h : Header) (item : HeaderItem h.opening.name) :
    (h.snoc item).members t =
      h.members t ++ item.members t (h.declaration t h.first.stop).qualifiedName := by
  simp [members, snoc, declaration]

theorem package_snoc (t : Target) (h : Header) (item : HeaderItem h.opening.name) (stop : Nat) :
    (h.snoc item).package t stop = .ofMembers (h.declaration t stop)
      (h.members t ++ item.members t (h.declaration t h.first.stop).qualifiedName) := by
  rw [package, members_snoc]
  rfl

end Header

/-- A package: its header and the line that closes it. -/
structure PackageBlock extends Header where
  /-- The closing line. -/
  last : CodeLine
  /-- The last line opens no member. -/
  lastOpens : memberOpening? last.line = none
  /-- The last line closes the package. -/
  closes : (Construct.unit .package).ClosedBy opening.name [] last.place

/-- The members of a package are those declared in the parts of its header. -/
theorem PackageBlock.mem_members {t : Target} {b : PackageBlock} {m : Member} :
    m ∈ (b.toHeader.package t b.last.stop).members ↔ ∃ item ∈ b.items,
      m ∈ item.members t (b.toHeader.declaration t b.first.stop).qualifiedName := by
  rw [Header.package, Package.mem_members_ofMembers, Header.members, List.mem_flatMap]

/-- An entity: the lines from the one it opens on to the first one after it that closes it. -/
structure EntityBlock where
  /-- What its first line declares. -/
  opening : Opening UnitForm
  /-- The line it opens on. -/
  first : CodeLine
  /-- The lines between the first and the last one. -/
  body : List CodeLine
  /-- The closing line. -/
  last : CodeLine
  /-- The first line opens a unit. -/
  opens : unitOpening? first.line = some opening
  /-- The unit is an entity. -/
  isEntity : opening.form = .entity
  /-- The lines in between do not close it. -/
  waits : NoneCloses ((Construct.unit .entity).ClosedBy opening.name) (body.map CodeLine.place)
  /-- The last line closes it. -/
  closes : (Construct.unit .entity).ClosedBy opening.name (body.map CodeLine.place) last.place

/-- The declaration of an entity. -/
def EntityBlock.declaration (t : Target) (b : EntityBlock) : Declaration :=
  declare t t.library b.opening.name b.first b.last.stop []

/-- A part of a file. -/
inductive FileItem where
  /-- A line outside every unit, which opens none. -/
  | other (l : CodeLine) (opens : unitOpening? l.line = none)
  /-- An entity. -/
  | entity (block : EntityBlock)
  /-- A package. -/
  | package (block : PackageBlock)

namespace FileItem

/-- The lines of the part. -/
def lines : FileItem → List CodeLine
  | other l _ => [l]
  | entity b => b.first :: b.body ++ [b.last]
  | package b => b.toHeader.lines ++ [b.last]

/-- The units that are declared. -/
def units (t : Target) : FileItem → List Symbol
  | other .. => []
  | entity b => [.entity (b.declaration t)]
  | package b => [.package (b.toHeader.package t b.last.stop)]

theorem exists_entity_of_mem {t : Target} {items : List FileItem} {d : Declaration}
    (h : Symbol.entity d ∈ items.flatMap (units t)) :
    ∃ b, entity b ∈ items ∧ d = b.declaration t := by
  obtain ⟨item, hitem, hd⟩ := List.mem_flatMap.1 h
  cases item with
  | other l _ => simp [units] at hd
  | entity b => exact ⟨b, hitem, by simpa [units] using hd⟩
  | package b => simp [units] at hd

theorem exists_package_of_mem {t : Target} {items : List FileItem} {p : Package}
    (h : Symbol.package p ∈ items.flatMap (units t)) :
    ∃ b, package b ∈ items ∧ p = b.toHeader.package t b.last.stop := by
  obtain ⟨item, hitem, hp⟩ := List.mem_flatMap.1 h
  cases item with
  | other l _ => simp [units] at hp
  | entity b => simp [units] at hp
  | package b => exact ⟨b, hitem, by simpa [units] using hp⟩

theorem exists_split_of_package {items : List FileItem} {b : PackageBlock}
    (h : package b ∈ items) :
    ∃ as bs, items.flatMap lines =
      (as ++ b.first :: b.items.flatMap HeaderItem.lines) ++ b.last :: bs := by
  obtain ⟨as, bs, rfl⟩ := List.append_of_mem h
  refine ⟨as.flatMap lines, bs.flatMap lines, ?_⟩
  simp [lines, Header.lines]

end FileItem

/-! ### What the pass has made of the lines -/

/-- An open member has been shown the lines `before`, none of which closes it. -/
structure OpenMember.Accounts (m : OpenMember) (before : List CodeLine) : Prop where
  opens : memberOpening? m.first.line = some m.opening
  depth : m.depth = (Construct.member m.opening.form).depthAfter (before.map CodeLine.place)
  parts : m.parts = before.map CodeLine.signature
  waits : NoneCloses ((Construct.member m.opening.form).ClosedBy m.opening.name)
    (before.map CodeLine.place)

/-- The lines `ls` are those of the unit that the phase is in. -/
def Phase.Accounts (t : Target) (ls : List CodeLine) : Phase → Prop
  | .outside => ls = []
  | .inEntity name first =>
      ∃ o body, ls = first :: body ∧ unitOpening? first.line = some o ∧ o.form = .entity ∧
        o.name = name ∧
        NoneCloses ((Construct.unit .entity).ClosedBy name) (body.map CodeLine.place)
  | .inPackage p => ∃ h : Header, ls = h.lines ∧ p = h.package t h.first.stop
  | .inMember p m =>
      ∃ (h : Header) (before : List CodeLine), ls = h.lines ++ before ∧
        p = h.package t h.first.stop ∧ before.head? = some m.first ∧ m.Accounts before
  | .failed _ => True

/-- The lines seen are those of parts of the file that are finished, whose units have been
collected, and then those of the unit that the phase is in. -/
def Reads (t : Target) (seen : List CodeLine) (s : Progress) : Prop :=
  ∃ (items : List FileItem) (ls : List CodeLine), seen = items.flatMap FileItem.lines ++ ls ∧
    s.units = items.flatMap (FileItem.units t) ∧ s.phase.Accounts t ls

theorem OpenMember.accounts_begin {o : Opening MemberForm} {l : CodeLine}
    (h : memberOpening? l.line = some o) : (OpenMember.begin o l).Accounts [] where
  opens := h
  depth := by
    simp only [begin]
    cases o.form <;> rfl
  parts := rfl
  waits := noneCloses_nil _

/-- **One line of a member**: either it closes the member, which is then a block, or the member
has one more line. -/
theorem OpenMember.Accounts.feed {m : OpenMember} {before : List CodeLine} {l : CodeLine}
    (h : m.Accounts before) (hfirst : before.headD l = m.first) :
    (∃ m', m.feed l = (false, m') ∧ m'.first = m.first ∧ m'.Accounts (before ++ [l])) ∨
    (∃ m' b, m.feed l = (true, m') ∧ b.lines = before ++ [l] ∧
      ∀ t scope, m'.members t scope l.stop = MemberBlock.members t scope b) := by
  have hclosing := Construct.closing_eq_true_iff (.member m.opening.form) m.opening.name
    (before.map CodeLine.place) l
  rw [← h.depth] at hclosing
  cases hc : ((Construct.member m.opening.form).closing m.opening.name m.depth l).1 with
  | false =>
      refine Or.inl ⟨(m.feed l).2, by simp [OpenMember.feed, hc], rfl, ?_⟩
      rw [h.depth] at hc
      refine ⟨h.opens, ?_, by simp [OpenMember.feed, h.parts], ?_⟩
      · show ((Construct.member m.opening.form).closing m.opening.name m.depth l).2 = _
        rw [h.depth, List.map_append]
        exact Construct.snd_closing hc
      · rw [List.map_append]
        refine h.waits.concat fun hclosed => ?_
        rw [← hclosing, h.depth, hc] at hclosed
        cases hclosed
  | true =>
      -- the parts of the summary are the lines of the block.
      refine Or.inr ⟨(m.feed l).2, ⟨m.opening, before, l, hfirst ▸ h.opens, hclosing.1 hc, h.waits⟩,
        by simp [OpenMember.feed, hc], rfl, ?_⟩
      intro t scope
      refine List.map_congr_left fun name _ => ?_
      simp only [MemberBlock.member, MemberBlock.first, MemberBlock.lines, hfirst, List.map_append,
        ← h.parts]
      rfl

variable {t : Target} {seen : List CodeLine} {s : Progress} {l : CodeLine}

theorem accounts_memberLine {h : Header} {before : List CodeLine} {m : OpenMember}
    (hm : m.Accounts before) (hfirst : before.headD l = m.first) :
    (memberLine t s (h.package t h.first.stop) m l).phase.Accounts t
      (h.lines ++ before ++ [l]) := by
  rcases hm.feed hfirst with ⟨m', hfeed, hfirst', hm'⟩ | ⟨m', b, hfeed, hlines, hmembers⟩
  · simp only [memberLine, hfeed]
    refine ⟨h, before ++ [l], by simp, rfl, ?_, hm'⟩
    rw [hfirst', ← hfirst]
    cases before <;> rfl
  · simp only [memberLine, hfeed]
    split
    · next p hadd =>
        rw [hmembers] at hadd
        refine ⟨h.snoc (.member b), ?_, ?_⟩
        · rw [Header.lines_snoc, HeaderItem.lines, hlines, List.append_assoc]
        · rw [Package.eq_ofMembers_of_foldlM hadd]
          exact (Header.package_snoc t h (.member b) h.first.stop).symm
    · trivial

@[simp] theorem units_memberLine (t : Target) (s : Progress) (p : Package) (m : OpenMember)
    (l : CodeLine) : (memberLine t s p m l).units = s.units := by
  simp only [memberLine]
  split
  · rfl
  · split <;> rfl

/-- A line that leaves the units as they are and moves the phase. -/
theorem Reads.move {s' : Progress} {items : List FileItem} {ls : List CodeLine}
    (hseen : seen = items.flatMap FileItem.lines ++ ls)
    (hunits : s.units = items.flatMap (FileItem.units t)) (hs : s'.units = s.units)
    (hphase : s'.phase.Accounts t (ls ++ [l])) : Reads t (seen ++ [l]) s' :=
  ⟨items, ls ++ [l], by rw [hseen, List.append_assoc], by rw [hs, hunits], hphase⟩

/-- A line that finishes a part of the file. -/
theorem Reads.finish {s' : Progress} {items : List FileItem} {ls : List CodeLine} (item : FileItem)
    (hseen : seen = items.flatMap FileItem.lines ++ ls)
    (hunits : s.units = items.flatMap (FileItem.units t)) (hlines : item.lines = ls ++ [l])
    (hs : s'.units = s.units ++ item.units t) (hphase : s'.phase = .outside) :
    Reads t (seen ++ [l]) s' := by
  refine ⟨items ++ [item], [], ?_, ?_, ?_⟩
  · simp [hseen, hlines]
  · simp [hs, hunits]
  · rw [hphase]
    rfl

/-- **One line** of the pass. -/
theorem Reads.step (h : Reads t seen s) (l : CodeLine) : Reads t (seen ++ [l]) (step t s l) := by
  obtain ⟨items, ls, hseen, hunits, hphase⟩ := h
  cases hp : s.phase with
  | outside =>
      rw [hp] at hphase
      obtain rfl : ls = [] := hphase
      simp only [Scan.step, hp, outsideLine]
      cases ho : unitOpening? l.line with
      | none => exact .finish (.other l ho) hseen hunits rfl (by simp [FileItem.units]) hp
      | some o =>
          cases hf : o.form with
          | entity =>
              simp only [hf]
              exact .move hseen hunits rfl ⟨o, [], rfl, ho, hf, rfl, noneCloses_nil _⟩
          | package =>
              simp only [hf]
              exact .move hseen hunits rfl ⟨⟨o, l, ho, hf, []⟩, rfl, rfl⟩
  | inEntity name first =>
      rw [hp] at hphase
      obtain ⟨o, body, rfl, ho, hf, rfl, hwaits⟩ := hphase
      have hclosing := Construct.closing_eq_true_iff (.unit .entity) o.name
        (body.map CodeLine.place) l
      -- the scan looks at one line, the rule at all lines of the entity: for entities they agree.
      simp only [Scan.step, hp, entityLine]
      split
      · next hc =>
          exact .finish (.entity ⟨o, first, body, l, ho, hf, hwaits, hclosing.1 hc⟩) hseen hunits
            rfl rfl rfl
      · next hc =>
          refine .move hseen hunits rfl ?_
          rw [hp]
          refine ⟨o, body ++ [l], rfl, ho, hf, rfl, ?_⟩
          rw [List.map_append]
          exact hwaits.concat fun hclosed => hc (hclosing.2 hclosed)
  | inPackage p =>
      rw [hp] at hphase
      obtain ⟨h, rfl, rfl⟩ := hphase
      -- a line that opens a member is its first line at once, even if it could close the package.
      simp only [Scan.step, hp]
      cases ho : memberOpening? l.line with
      | some o =>
          refine .move hseen hunits (units_memberLine ..) ?_
          rw [← List.append_nil h.lines]
          exact accounts_memberLine (OpenMember.accounts_begin ho) rfl
      | none =>
          have hclosing := Construct.closing_eq_true_iff (.unit .package) h.opening.name [] l
          have hname : (h.package t h.first.stop).declaration.name.toList = h.opening.name :=
            String.toList_ofList
          simp only [packageLine, hname]
          split
          · next hc =>
              exact .finish (.package ⟨h, l, ho, hclosing.1 hc⟩) hseen hunits rfl rfl rfl
          · next hc =>
              refine .move hseen hunits rfl ?_
              rw [hp]
              refine ⟨h.snoc (.other l ho fun hclosed => hc (hclosing.2 hclosed)), ?_, ?_⟩
              · rw [Header.lines_snoc, HeaderItem.lines]
              · rw [Header.package_snoc, HeaderItem.members, List.append_nil]
                rfl
  | inMember p m =>
      rw [hp] at hphase
      obtain ⟨h, before, rfl, rfl, hfirst, hm⟩ := hphase
      simp only [Scan.step, hp]
      refine .move hseen hunits (units_memberLine ..) (accounts_memberLine hm ?_)
      rw [List.headD_eq_head?_getD, hfirst]
      rfl
  | failed e =>
      -- nothing is claimed of the lines of a pass that has failed.
      simp only [Scan.step, hp]
      refine .move hseen hunits rfl ?_
      rw [hp]
      trivial

/-- **All lines**: at every moment the pass accounts for the lines it has seen. -/
theorem reads_run (t : Target) (ls : List CodeLine) : Reads t ls (run t .start ls) := by
  -- the pass goes from the left, so the induction takes lines off the right end.
  induction ls using List.reverseRecOn with
  | nil => exact ⟨[], [], rfl, rfl, rfl⟩
  | append_singleton ls l ih =>
      rw [run_append]
      exact ih.step l

/-- The file and the library, in lower case, that a scan is about. -/
def Target.ofFile (filepath library : String) : Target :=
  ⟨filepath, String.ofList (Text.lower library.toList)⟩

end Scan

/-! ### Files -/

variable {filepath library : String} {data : Bytes} {file : FileScan}

/-- A scan that succeeds ends outside every unit. -/
theorem run_of_scanSource (h : (scanSource filepath library data).result = .ok file) :
    let s := Scan.run (.ofFile filepath library) .start (codeLines data)
    s.phase = .outside ∧ file.units = s.units := by
  intro s
  have hresult : s.result (.ofFile filepath library) = .ok file := by
    simp only [scanSource] at h
    split at h
    · next f hf => exact hf.trans h
    · cases h
  simp only [Scan.Progress.result] at hresult
  split at hresult
  · next hp => exact ⟨hp, by rw [← Except.ok.inj hresult]⟩
  all_goals cases hresult

/-- **A file that is scanned is a list of blocks**: their lines are the code lines of the file, and
their units are what the scan returns. -/
theorem exists_items_of_scanSource (h : (scanSource filepath library data).result = .ok file) :
    ∃ items : List Scan.FileItem, codeLines data = items.flatMap Scan.FileItem.lines ∧
      file.units = items.flatMap (Scan.FileItem.units (.ofFile filepath library)) := by
  obtain ⟨hphase, hunits⟩ := run_of_scanSource h
  obtain ⟨items, ls, hlines, hs, hls⟩ :=
    Scan.reads_run (.ofFile filepath library) (codeLines data)
  rw [hphase] at hls
  obtain rfl : ls = [] := hls
  exact ⟨items, by rw [hlines, List.append_nil], by rw [hunits, hs]⟩

/-! ### A sample -/

/-- A documented package with members that go over several lines, and an entity that ends with the
source. -/
def sample : Bytes :=
  ("-- about p\npackage p is\n\n  -- two names\r\n  constant a, b : t := 1;\n" ++
    "  procedure q (x : t;\n    -- not looked at;\n    y : t);\n" ++
    "  type r is record\n    f : t;\n  end record;\nend p;\nentity e is\nend").toUTF8.data.toList

/-- What can be computed of a result, it has: there is no error. -/
theorem exists_ok_of_toOption {ε α β : Type} {x : Except ε α} {f : α → β} {b : β}
    (h : x.toOption.map f = some b) : ∃ a, x = .ok a ∧ f a = b := by
  cases x with
  | error e => simp [Except.toOption] at h
  | ok a => exact ⟨a, rfl, by simpa [Except.toOption] using h⟩

/-- What can be computed of the sample, it has: its scan succeeds. -/
theorem exists_file_sample {α : Type} {f : FileScan → α} {a : α}
    (h : (scanSource "sample.vhd" "Work" sample).result.toOption.map f = some a) :
    ∃ file, (scanSource "sample.vhd" "Work" sample).result = .ok file ∧ f file = a :=
  exists_ok_of_toOption h

end VhdlCatalog
