import Mathlib.Data.List.Nodup
import VhdlCatalog.Proofs.Block

/-!
**The pass over blocks.**

`VhdlCatalog.Proofs.Block` reads blocks off a pass that has taken place.  Here it goes the other
way: whoever knows the blocks of a file knows where the pass over its lines ends up.  A block is
left behind with its units collected, and a declaration that is still open leaves the pass in the
phase of that declaration.  The only thing that can come between is a member whose key the package
already has.

Main definitions:

* `VhdlCatalog.Scan.OpenEntity`, `VhdlCatalog.Scan.OpenBlock`, `VhdlCatalog.Scan.OpenUnit` — the
  lines of a declaration that has not been closed yet;
* `VhdlCatalog.Scan.Reaches` — where a stretch of lines leads;
* `VhdlCatalog.Scan.FileItem.Distinct` — no declaration repeats a name.

Main results:

* `VhdlCatalog.Scan.reaches_memberBlock` — a member, whose names may be refused;
* `VhdlCatalog.Scan.reaches_header`, `VhdlCatalog.Scan.reaches_fileItems` — **headers and files**
  in which no key comes twice;
* `VhdlCatalog.Scan.nodup_keys` — no key comes twice if no declaration repeats a name;
* `VhdlCatalog.Scan.reaches_of_distinct` — hence the lines of a file whose declarations do not
  repeat names lead outside, with all units collected.
-/

set_option relaxedAutoImplicit false
set_option autoImplicit false

namespace VhdlCatalog

open Source

/-! ### Lines in the order of their numbers -/

/-- The numbers of the lines grow. -/
def Source.Numbered (ls : List CodeLine) : Prop := ls.Pairwise fun a b => a.number < b.number

theorem Source.numbered_codeLines (data : Bytes) : Numbered (codeLines data) := by
  refine (pairwise_codeLines data).imp_of_mem fun {a b} ha hb hle => ?_
  exact number_lt_number (place_mem_sourceLines ha) (place_mem_sourceLines hb) hle

theorem Source.numbered_append {as bs : List CodeLine} :
    Numbered (as ++ bs) ↔ Numbered as ∧ Numbered bs ∧ ∀ a ∈ as, ∀ b ∈ bs, a.number < b.number :=
  List.pairwise_append

namespace Scan

/-! ### Open declarations -/

/-- An entity up to some line that does not close it. -/
structure OpenEntity where
  opening : Opening UnitForm
  first : CodeLine
  body : List CodeLine
  opens : unitOpening? first.line = some opening
  isEntity : opening.form = .entity
  waits : NoneCloses ((Construct.unit .entity).ClosedBy opening.name) (body.map CodeLine.place)

/-- A member up to some line that does not close it. -/
structure OpenBlock where
  opening : Opening MemberForm
  first : CodeLine
  rest : List CodeLine
  opens : memberOpening? first.line = some opening
  waits : NoneCloses ((Construct.member opening.form).ClosedBy opening.name)
    ((first :: rest).map CodeLine.place)

/-- The lines of the member so far. -/
def OpenBlock.lines (b : OpenBlock) : List CodeLine := b.first :: b.rest

/-- A unit that has been opened and not yet closed. -/
inductive OpenUnit where
  | entity (entity : OpenEntity)
  | package (header : Header)
  | member (header : Header) (block : OpenBlock)

namespace OpenUnit

/-- The lines of the unit so far. -/
def lines : OpenUnit → List CodeLine
  | entity e => e.first :: e.body
  | package h => h.lines
  | member h b => h.lines ++ b.lines

/-- The form of the innermost declaration that is open. -/
def construct : OpenUnit → Construct
  | entity _ => .unit .entity
  | package _ => .unit .package
  | member _ b => .member b.opening.form

/-- The first name of the innermost declaration that is open. -/
def name : OpenUnit → List Char
  | entity e => e.opening.name
  | package h => h.opening.name
  | member _ b => b.opening.name

/-- The line that the innermost open declaration opens on. -/
def first : OpenUnit → CodeLine
  | entity e => e.first
  | package h => h.first
  | member _ b => b.first

end OpenUnit

/-! ### Where lines lead -/

/-- From `s` the pass over the lines collects the given units and ends up in the given phase. -/
def Reaches (t : Target) (s : Progress) (ls : List CodeLine) (units : List Symbol)
    (phase : Phase) : Prop :=
  (run t s ls).units = s.units ++ units ∧ (run t s ls).phase = phase

variable {t : Target} {s : Progress} {l : CodeLine}

theorem Reaches.refl {phase : Phase} (h : s.phase = phase) : Reaches t s [] [] phase :=
  ⟨by simp, h⟩

/-- One stretch of lines after another. -/
theorem Reaches.append {as bs : List CodeLine} {us vs : List Symbol} {p q : Phase}
    (h : Reaches t s as us p) (h' : ∀ s' : Progress, s'.phase = p → Reaches t s' bs vs q) :
    Reaches t s (as ++ bs) (us ++ vs) q := by
  obtain ⟨hunits, hphase⟩ := h
  obtain ⟨hunits', hphase'⟩ := h' _ hphase
  exact ⟨by rw [run_append, hunits', hunits, List.append_assoc], by rw [run_append, hphase']⟩

/-- A stretch of lines that collects nothing, and then another one. -/
theorem Reaches.trans {as bs : List CodeLine} {us : List Symbol} {p q : Phase}
    (h : Reaches t s as [] p) (h' : ∀ s' : Progress, s'.phase = p → Reaches t s' bs us q) :
    Reaches t s (as ++ bs) us q :=
  h.append h'

/-- One line. -/
theorem reaches_singleton {units : List Symbol} {phase : Phase}
    (hunits : (step t s l).units = s.units ++ units) (hphase : (step t s l).phase = phase) :
    Reaches t s [l] units phase :=
  ⟨hunits, hphase⟩

/-- A pass that has failed stays so. -/
theorem reaches_failed {e : Error} (ls : List CodeLine) (hs : s.phase = .failed e) :
    Reaches t s ls [] (.failed e) := by
  induction ls generalizing s with
  | nil => exact .refl hs
  | cons l ls ih =>
      have hline : Reaches t s [l] [] (.failed e) :=
        reaches_singleton (by simp [step, hs]) (by simp [step, hs])
      exact hline.trans fun s' hs' => ih hs'

/-! ### Entities -/

/-- Lines that do not close an entity leave the pass inside it. -/
theorem reaches_openEntity (e : OpenEntity) (hs : s.phase = .outside) :
    Reaches t s (e.first :: e.body) [] (.inEntity e.opening.name e.first) := by
  obtain ⟨o, first, body, opens, isEntity, waits⟩ := e
  simp only at waits ⊢
  induction body using List.reverseRecOn with
  | nil =>
      refine reaches_singleton ?_ ?_
      · simp [step, hs, outsideLine, opens, isEntity]
      · simp [step, hs, outsideLine, opens, isEntity]
  | append_singleton body l ih =>
      rw [List.map_append] at waits
      obtain ⟨hbody, hnot⟩ := waits.of_concat
      have hclosing := Construct.closing_eq_true_iff (.unit .entity) o.name
        (body.map CodeLine.place) l
      have hopen : ¬((Construct.unit .entity).closing o.name 0 l).1 = true :=
        fun hc => hnot (hclosing.1 hc)
      rw [← List.cons_append]
      refine (ih hbody).trans fun s' hs' => reaches_singleton ?_ ?_
      · simp [step, hs', entityLine, hopen]
      · simp [step, hs', entityLine, hopen]

/-- **An entity** is collected when its last line has been read. -/
theorem reaches_entityBlock (b : EntityBlock) (hs : s.phase = .outside) :
    Reaches t s (FileItem.entity b).lines ((FileItem.entity b).units t) .outside := by
  have hopen := reaches_openEntity (t := t)
    ⟨b.opening, b.first, b.body, b.opens, b.isEntity, b.waits⟩ hs
  refine hopen.trans fun s' hs' => ?_
  have hclosing := Construct.closing_eq_true_iff (.unit .entity) b.opening.name
    (b.body.map CodeLine.place) b.last
  have hclosed : ((Construct.unit .entity).closing b.opening.name 0 b.last).1 = true :=
    hclosing.2 b.closes
  refine reaches_singleton ?_ ?_
  · simp [step, hs', entityLine, hclosed, FileItem.units, EntityBlock.declaration]
  · simp [step, hs', entityLine, hclosed]

/-! ### Members -/

/-- A member is known from its lines. -/
theorem MemberBlock.eq_of_lines_eq {b b' : MemberBlock} (h : b.lines = b'.lines) : b = b' := by
  obtain ⟨o, before, last, opens, closes, waits⟩ := b
  obtain ⟨o', before', last', opens', closes', waits'⟩ := b'
  obtain ⟨rfl, hlast⟩ := List.append_inj' h rfl
  obtain rfl : last = last' := by simpa using hlast
  obtain rfl : o = o' := Option.some.inj (opens.symm.trans opens')
  rfl

/-- A line that does not close the member leaves the pass inside it. -/
theorem memberLine_waits {p : Package} {m : OpenMember} {before : List CodeLine}
    (hm : m.Accounts before) (hfirst : before.headD l = m.first)
    (hwaits : NoneCloses ((Construct.member m.opening.form).ClosedBy m.opening.name)
      ((before ++ [l]).map CodeLine.place)) :
    ∃ m', memberLine t s p m l = { s with phase := .inMember p m' } ∧ m'.first = m.first ∧
      m'.Accounts (before ++ [l]) := by
  rcases hm.feed hfirst with ⟨m', hfeed, hfirst', hm'⟩ | ⟨m', b, hfeed, hlines, -⟩
  · exact ⟨m', by simp [memberLine, hfeed], hfirst', hm'⟩
  · -- a block with these lines has been closed by the last of them
    exfalso
    obtain ⟨hbefore, hlast⟩ := List.append_inj' hlines rfl
    have hopens := b.opens
    have hcloses := b.closes
    rw [List.singleton_inj.1 hlast, hbefore] at hopens hcloses
    rw [hfirst, hm.opens, Option.some.injEq] at hopens
    rw [List.map_append] at hwaits
    exact hwaits.of_concat.2 (hopens ▸ hcloses)

/-- Where the pass is after members have been added to a package. -/
def Phase.ofAddition : Except Error Package → Phase
  | .ok p => .inPackage p
  | .error e => .failed e

/-- The closing line of a member adds what the member declares. -/
theorem memberLine_closes {p : Package} {m : OpenMember} (b : MemberBlock)
    (hm : m.Accounts b.before) (hfirst : b.before.headD b.last = m.first) :
    (memberLine t s p m b.last).phase = .ofAddition
      ((b.members t p.declaration.qualifiedName).foldlM Package.addMember p) := by
  rcases hm.feed hfirst with ⟨m', -, hfirst', hm'⟩ | ⟨m', b', hfeed, hlines, hmembers⟩
  · -- the member that waits on after its closing line would be the same one
    exfalso
    have hopens := b.opens
    rw [hfirst, ← hfirst', hm'.opens, Option.some.injEq] at hopens
    have hwaits := hm'.waits
    rw [List.map_append] at hwaits
    exact hwaits.of_concat.2 (hopens ▸ b.closes)
  · obtain rfl : b' = b := MemberBlock.eq_of_lines_eq hlines
    simp only [memberLine, hfeed, hmembers]
    split
    · next p' hadd => rw [hadd, Phase.ofAddition]
    · next e hadd => rw [hadd, Phase.ofAddition]

variable {p : Package}

/-- Lines that do not close a member leave the pass inside it. -/
theorem reaches_openBlock (b : OpenBlock) (hs : s.phase = .inPackage p) :
    ∃ m, Reaches t s b.lines [] (.inMember p m) ∧ m.first = b.first ∧ m.Accounts b.lines := by
  obtain ⟨o, first, rest, opens, waits⟩ := b
  simp only [OpenBlock.lines] at waits ⊢
  induction rest using List.reverseRecOn with
  | nil =>
      obtain ⟨m, hline, hfirst, hm⟩ := memberLine_waits (t := t) (s := s) (p := p) (l := first)
        (OpenMember.accounts_begin opens) rfl waits
      refine ⟨m, reaches_singleton ?_ ?_, hfirst, hm⟩
      · simp [step, hs, opens]
      · simp [step, hs, opens, hline]
  | append_singleton rest l ih =>
      rw [← List.cons_append] at waits ⊢
      have hbefore := waits
      rw [List.map_append] at hbefore
      obtain ⟨m, hreach, hfirst, hm⟩ := ih hbefore.of_concat.1
      have hopening : o = m.opening := by
        have hopens := hm.opens
        rw [hfirst, opens, Option.some.injEq] at hopens
        exact hopens
      have hline : ∀ s' : Progress, ∃ m', memberLine t s' p m l =
          { s' with phase := .inMember p m' } ∧ m'.first = m.first ∧
            m'.Accounts (first :: rest ++ [l]) := fun s' =>
        memberLine_waits hm hfirst.symm (hopening ▸ waits)
      obtain ⟨m', hline', hfirst', hm'⟩ := hline (run t s (first :: rest))
      refine ⟨m', ⟨?_, ?_⟩, hfirst'.trans hfirst, hm'⟩
      · rw [run_append, run_cons, run_nil, step, hreach.2]
        simp only [hline']
        exact hreach.1
      · rw [run_append, run_cons, run_nil, step, hreach.2]
        simp only [hline']

/-- **A member**: the pass adds what it declares to the package, or fails. -/
theorem reaches_memberBlock (b : MemberBlock) (hs : s.phase = .inPackage p) :
    Reaches t s b.lines [] (.ofAddition
      ((b.members t p.declaration.qualifiedName).foldlM Package.addMember p)) := by
  have hopens := b.opens
  have hwaits := b.waits
  cases hbefore : b.before with
  | nil =>
      rw [hbefore] at hopens
      have hm : (OpenMember.begin b.opening b.last).Accounts b.before := by
        rw [hbefore]
        exact OpenMember.accounts_begin hopens
      have hclose := memberLine_closes (t := t) (s := s) (p := p) b hm (by rw [hbefore]; rfl)
      have hopens' : memberOpening? b.last.line = some b.opening := hopens
      rw [MemberBlock.lines, hbefore]
      refine reaches_singleton ?_ ?_
      · simp [step, hs, hopens']
      · simp only [step, hs, hopens', hclose]
  | cons first rest =>
      rw [hbefore] at hopens hwaits
      obtain ⟨m, hreach, hfirst, hm⟩ := reaches_openBlock (t := t) (s := s)
        ⟨b.opening, first, rest, hopens, hwaits⟩ hs
      rw [MemberBlock.lines, hbefore]
      refine hreach.trans fun s' hs' => ?_
      have hm' : m.Accounts b.before := by
        rw [hbefore]
        exact hm
      have hclose := memberLine_closes (t := t) (s := s') (p := p) b hm'
        (by rw [hbefore, hfirst]; rfl)
      refine reaches_singleton ?_ ?_
      · simp [step, hs']
      · simp only [step, hs', hclose]

/-! ### Packages -/

/-- **The parts of a header** in which no key comes twice. -/
theorem reaches_headerItems {name : List Char} {d : Declaration} {ms : List Member}
    (items : List (HeaderItem name)) (hname : d.name.toList = name)
    (hkeys : ((ms ++ items.flatMap (HeaderItem.members t d.qualifiedName)).map Member.key).Nodup)
    (hs : s.phase = .inPackage (.ofMembers d ms)) :
    Reaches t s (items.flatMap HeaderItem.lines) [] (.inPackage (.ofMembers d
      (ms ++ items.flatMap (HeaderItem.members t d.qualifiedName)))) := by
  induction items generalizing ms s with
  | nil =>
      simp only [List.flatMap_nil, List.append_nil]
      exact .refl hs
  | cons item items ih =>
      simp only [List.flatMap_cons, ← List.append_assoc] at hkeys ⊢
      have hitem : Reaches t s item.lines [] (.inPackage (.ofMembers d
          (ms ++ item.members t d.qualifiedName))) := by
        cases item with
        | other l opens waits =>
            have hclosing := Construct.closing_eq_true_iff (.unit .package) name [] l
            have hopen : ¬((Construct.unit .package).closing name 0 l).1 = true :=
              fun hc => waits (hclosing.1 hc)
            rw [HeaderItem.members, List.append_nil]
            refine reaches_singleton ?_ ?_
            · simp [step, hs, opens, packageLine, hname, hopen]
            · simp [step, hs, opens, packageLine, hname, hopen]
        | member b =>
            have hreach := reaches_memberBlock (t := t) b hs
            have hnew : ((ms ++ b.members t d.qualifiedName).map Member.key).Nodup := by
              rw [List.map_append] at hkeys
              exact (List.nodup_append.1 hkeys).1
            rw [Package.declaration_ofMembers, Package.foldlM_addMember_eq_ok hnew] at hreach
            exact hreach
      exact hitem.trans fun s' hs' => ih hkeys hs'

/-- **A header** in which no key comes twice. -/
theorem reaches_header (h : Header) (hkeys : ((h.members t).map Member.key).Nodup)
    (hs : s.phase = .outside) :
    Reaches t s h.lines [] (.inPackage (h.package t h.first.stop)) := by
  have hfirst : Reaches t s [h.first] []
      (.inPackage (.ofMembers (h.declaration t h.first.stop) [])) := by
    refine reaches_singleton ?_ ?_
    · simp [step, hs, outsideLine, h.opens, h.isPackage]
    · simp only [step, hs, outsideLine, h.opens, h.isPackage]
      rfl
  refine hfirst.trans fun s' hs' => ?_
  exact reaches_headerItems h.items String.toList_ofList hkeys hs'

/-- No key comes twice in a package of the file. -/
def FileItem.KeysNodup (t : Target) : FileItem → Prop
  | other .. | entity _ => True
  | package b => ((b.toHeader.members t).map Member.key).Nodup

/-- **A part of a file** is left behind with its units collected. -/
theorem reaches_fileItem (item : FileItem) (hkeys : item.KeysNodup t) (hs : s.phase = .outside) :
    Reaches t s item.lines (item.units t) .outside := by
  cases item with
  | other l opens =>
      refine reaches_singleton ?_ ?_
      · simp [step, hs, outsideLine, opens, FileItem.units]
      · simp [step, hs, outsideLine, opens]
  | entity b => exact reaches_entityBlock b hs
  | package b =>
      refine (reaches_header b.toHeader hkeys hs).trans fun s' hs' => ?_
      have hclosing := Construct.closing_eq_true_iff (.unit .package) b.opening.name [] b.last
      have hclosed : ((Construct.unit .package).closing b.opening.name 0 b.last).1 = true :=
        hclosing.2 b.closes
      have hname : (b.toHeader.package t b.first.stop).declaration.name.toList = b.opening.name :=
        String.toList_ofList
      refine reaches_singleton ?_ ?_
      · simp only [step, hs', b.lastOpens, packageLine, hname, hclosed, if_true]
        rfl
      · simp only [step, hs', b.lastOpens, packageLine, hname, hclosed, if_true]

/-- **The parts of a file**, one after another. -/
theorem reaches_fileItems (items : List FileItem) (hkeys : ∀ item ∈ items, item.KeysNodup t)
    (hs : s.phase = .outside) :
    Reaches t s (items.flatMap FileItem.lines) (items.flatMap (FileItem.units t)) .outside := by
  induction items generalizing s with
  | nil => exact .refl hs
  | cons item items ih =>
      obtain ⟨hitem, hitems⟩ := List.forall_mem_cons.1 hkeys
      exact (reaches_fileItem item hitem hs).append fun s' hs' => ih hitems hs'

/-! ### Keys -/

/-- No declaration of the part repeats a name. -/
def HeaderItem.Distinct {name : List Char} : HeaderItem name → Prop
  | other .. => True
  | member b => b.opening.names.Nodup

/-- No declaration of the header repeats a name. -/
def Header.Distinct (h : Header) : Prop := ∀ item ∈ h.items, item.Distinct

/-- No declaration of the part repeats a name. -/
def FileItem.Distinct : FileItem → Prop
  | other .. | entity _ => True
  | package b => b.toHeader.Distinct

/-- No declaration that has been closed in the open unit repeats a name. -/
def OpenUnit.Distinct : OpenUnit → Prop
  | entity _ => True
  | package h | member h _ => h.Distinct

theorem MemberBlock.nodup_keys (b : MemberBlock) (scope : String) {names : List (List Char)}
    (h : names.Nodup) : ((names.map (b.member t scope)).map Member.key).Nodup := by
  rw [List.map_map]
  refine List.Nodup.map (fun n n' hkey => ?_) h
  have hname : String.ofList n = String.ofList n' :=
    congrArg (fun key : Category × SymbolId => key.2.name) hkey
  exact String.ofList_injective hname

/-- A member has the number of a line of its part. -/
theorem HeaderItem.exists_line {name : List Char} {scope : String} {item : HeaderItem name}
    {m : Member} (h : m ∈ item.members t scope) :
    ∃ l ∈ item.lines, m.declaration.line = l.number := by
  cases item with
  | other l _ _ => simp [members] at h
  | member b =>
      obtain ⟨n, -, rfl⟩ := List.mem_map.1 h
      exact ⟨b.first, by rw [lines, b.lines_eq_cons]; simp, rfl⟩

/-- Members that come from lines with different numbers have different keys. -/
theorem key_ne_key {m m' : Member} {a b : CodeLine} (hm : m.declaration.line = a.number)
    (hm' : m'.declaration.line = b.number) (hlt : a.number < b.number) : m.key ≠ m'.key := by
  intro hkey
  have hline : m.declaration.line = m'.declaration.line :=
    congrArg (fun key : Category × SymbolId => key.2.line) hkey
  omega

/-- **No key comes twice** in a header whose declarations do not repeat names. -/
theorem nodup_keys {name : List Char} {scope : String} {items : List (HeaderItem name)}
    (hnames : ∀ item ∈ items, item.Distinct)
    (hlines : Numbered (items.flatMap HeaderItem.lines)) :
    ((items.flatMap (HeaderItem.members t scope)).map Member.key).Nodup := by
  induction items with
  | nil => simp
  | cons item items ih =>
      obtain ⟨hitem, hitems⟩ := List.forall_mem_cons.1 hnames
      rw [List.flatMap_cons] at hlines
      obtain ⟨-, hrest, hlt⟩ := numbered_append.1 hlines
      rw [List.flatMap_cons, List.map_append]
      refine List.nodup_append.2 ⟨?_, ih hitems hrest, ?_⟩
      · cases item with
        | other l _ _ => simp [HeaderItem.members]
        | member b => exact b.nodup_keys scope hitem
      · intro k hk k' hk'
        obtain ⟨m, hm, rfl⟩ := List.mem_map.1 hk
        obtain ⟨m', hm', rfl⟩ := List.mem_map.1 hk'
        obtain ⟨item', hitem', hm'⟩ := List.mem_flatMap.1 hm'
        obtain ⟨a, ha, hline⟩ := HeaderItem.exists_line hm
        obtain ⟨b, hb, hline'⟩ := HeaderItem.exists_line hm'
        exact key_ne_key hline hline' (hlt a ha b (List.mem_flatMap.2 ⟨item', hitem', hb⟩))

theorem Header.nodup_keys {h : Header} (hnames : h.Distinct) (hlines : Numbered h.lines) :
    ((h.members t).map Member.key).Nodup :=
  Scan.nodup_keys hnames (List.pairwise_cons.1 hlines).2

theorem FileItem.keysNodup {item : FileItem} (hnames : item.Distinct)
    (hlines : Numbered item.lines) : item.KeysNodup t := by
  cases item with
  | other l _ => trivial
  | entity b => trivial
  | package b => exact Header.nodup_keys hnames (numbered_append.1 hlines).1

/-- The lines of a file whose declarations do not repeat names lead outside, with all units
collected. -/
theorem reaches_of_distinct {items : List FileItem} (hnames : ∀ item ∈ items, item.Distinct)
    (hlines : Numbered (items.flatMap FileItem.lines)) (hs : s.phase = .outside) :
    Reaches t s (items.flatMap FileItem.lines) (items.flatMap (FileItem.units t)) .outside := by
  refine reaches_fileItems items (fun item hitem => ?_) hs
  refine FileItem.keysNodup (hnames item hitem) ?_
  obtain ⟨as, bs, rfl⟩ := List.append_of_mem hitem
  rw [List.flatMap_append, List.flatMap_cons] at hlines
  exact (numbered_append.1 (numbered_append.1 hlines).2.1).1

end Scan

/-! ### Files -/

/-- The outcome of a scan is that of the pass over the code lines. -/
theorem result_scanSource (filepath library : String) (data : Bytes) :
    (scanSource filepath library data).result =
      (Scan.run (.ofFile filepath library) .start (codeLines data)).result
        (.ofFile filepath library) := by
  simp only [scanSource, Scan.Target.ofFile]
  split
  · next file h => exact h.symm
  · next e h => exact h.symm

end VhdlCatalog
