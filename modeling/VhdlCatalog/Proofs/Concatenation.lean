import VhdlCatalog.Proofs.BlockRun

/-!
**Scanning one source after another.**

Two sources one after the other are scanned like each of them alone, with everything that is found
in the second one moved down by the first.  The first source must be cut off cleanly: at the end of
a line, outside every declaration, before any body, and not under a comment that would document what
comes next.  Then the cursor and the pass are in the state in which they began, except for where
they stand, and where they stand only goes into what they report.

Main definitions:

* `VhdlCatalog.Shift` — how far something is moved: a number of lines and a number of bytes;
* `VhdlCatalog.Declaration.shift`, `VhdlCatalog.Symbol.shift`, `VhdlCatalog.Error.shift` — what is
  found, moved;
* `VhdlCatalog.Scan.Progress.Shifted` — a pass that has done the same as another one further up.

Main results:

* `VhdlCatalog.Source.lines_append_of_divides` — the lines of two sources;
* `VhdlCatalog.Source.codeLines_append` — **the code lines of two sources**;
* `VhdlCatalog.Scan.Progress.Shifted.step`, `VhdlCatalog.Scan.Progress.Shifted.run` — one line of
  the two passes, and all lines;
* `VhdlCatalog.scanSource_append` — **one source after another**.
-/

set_option relaxedAutoImplicit false
set_option autoImplicit false

namespace VhdlCatalog

open Source

/-! ### Moving down -/

/-- How far something is moved down. -/
structure Shift where
  /-- The number of lines. -/
  lines : Nat
  /-- The number of bytes. -/
  bytes : Nat

/-- The code line moved down. -/
def Source.CodeLine.shift (k : Shift) (l : CodeLine) : CodeLine where
  number := l.number + k.lines
  start := l.start + k.bytes
  stop := l.stop + k.bytes
  docStart := l.docStart + k.bytes
  docStop := l.docStop + k.bytes
  text := l.text

/-- The key moved down. -/
def SymbolId.shift (k : Shift) (id : SymbolId) : SymbolId := { id with line := id.line + k.lines }

/-- The declaration moved down. -/
def Declaration.shift (k : Shift) (d : Declaration) : Declaration :=
  { d with
    line := d.line + k.lines
    docStart := d.docStart + k.bytes
    docStop := d.docStop + k.bytes
    codeStart := d.codeStart + k.bytes
    codeStop := d.codeStop + k.bytes }

/-- The member moved down. -/
def Member.shift (k : Shift) (m : Member) : Member :=
  { m with declaration := m.declaration.shift k }

/-- The members of a category moved down. -/
def Table.shift (k : Shift) (t : Table SymbolId Member) : Table SymbolId Member :=
  ⟨t.entries.map fun e => (e.1.shift k, e.2.shift k)⟩

/-- The package moved down with its members. -/
def Package.shift (k : Shift) (p : Package) : Package where
  declaration := p.declaration.shift k
  constants := p.constants.shift k
  functions := p.functions.shift k
  procedures := p.procedures.shift k
  types := p.types.shift k
  subtypes := p.subtypes.shift k

/-- The symbol moved down. -/
def Symbol.shift (k : Shift) : Symbol → Symbol
  | entity d => entity (d.shift k)
  | package p => package (p.shift k)
  | member m => member (m.shift k)

/-- The error at a line further down. -/
def Error.shift (k : Shift) : Error → Error
  | unterminated filepath construct name line =>
      unterminated filepath construct name (line + k.lines)
  | duplicate filepath name line scope => duplicate filepath name (line + k.lines) scope
  | e => e

/-! ### Lines -/

namespace Source

theorem extendLines_append {b : UInt8} {ls ms : List Bytes} (h : ls ≠ []) :
    extendLines b (ls ++ ms) = extendLines b ls ++ ms := by
  obtain ⟨line, more, rfl⟩ := List.exists_cons_of_ne_nil h
  simp only [List.cons_append, extendLines]
  split
  · rfl
  · split
    · split <;> rfl
    · rfl

/-- A terminator that nothing carries on is a line of its own. -/
theorem extendLines_of_divides {b : UInt8} {data : Bytes} (h : Divides [b] data) :
    extendLines b (lines data) = [b] :: lines data := by
  cases hlines : lines data with
  | nil => rfl
  | cons line more =>
      simp only [extendLines]
      rcases h with hlf | ⟨hcr, hhead⟩
      · obtain rfl : b = lf := by simpa using hlf
        rw [if_pos rfl]
      · obtain rfl : b = cr := by simpa using hcr
        have hline : line ≠ [lf] := by
          rintro rfl
          have hflat := flatten_lines data
          rw [hlines] at hflat
          rw [← hflat] at hhead
          exact hhead rfl
        rw [if_neg (by decide), if_pos rfl, if_neg hline]

theorem lines_ne_nil {data : Bytes} (h : data ≠ []) : lines data ≠ [] := by
  intro hnil
  have hflat := flatten_lines data
  rw [hnil] at hflat
  exact h hflat.symm

/-- **The lines of two sources**, when the first one ends with a line. -/
theorem lines_append_of_divides {a b : Bytes} (h : a = [] ∨ Divides a b) :
    lines (a ++ b) = lines a ++ lines b := by
  induction a with
  | nil => rfl
  | cons x a ih =>
      have hdivides : Divides (x :: a) b := h.resolve_left (List.cons_ne_nil x a)
      cases a with
      | nil => exact extendLines_of_divides hdivides
      | cons y a =>
          have hrest : Divides (y :: a) b := by
            simpa only [Divides, List.getLast?_cons_cons] using hdivides
          rw [List.cons_append, lines_cons, ih (Or.inr hrest), lines_cons x (y :: a),
            extendLines_append (lines_ne_nil (List.cons_ne_nil y a))]

theorem rdropWhile_append {α : Type} {p : α → Bool} {as : List α} (h : as.rdropWhile p = as)
    (bs : List α) : (as ++ bs).rdropWhile p = as ++ bs.rdropWhile p := by
  induction bs using List.reverseRecOn with
  | nil => simpa using h
  | append_singleton bs b ih =>
      rw [← List.append_assoc]
      by_cases hb : p b = true
      · rw [List.rdropWhile_concat_pos _ _ _ hb, List.rdropWhile_concat_pos _ _ _ hb, ih]
      · rw [List.rdropWhile_concat_neg _ _ _ hb, List.rdropWhile_concat_neg _ _ _ hb,
          List.append_assoc]

/-- How far lines move what comes after them. -/
def shiftOf (before : List Bytes) : Shift := ⟨before.length, before.flatten.length⟩

/-- A code line after more lines, the last of which is no comment line. -/
theorem CodeLine.following_append {as : List Bytes} (h : as.rdropWhile isCommentBytes = as)
    (before : List Bytes) (raw : Bytes) :
    following (as ++ before) raw = (following before raw).shift (shiftOf as) := by
  simp only [following, CodeLine.shift, shiftOf, rdropWhile_append h, List.flatten_append,
    List.length_append, CodeLine.mk.injEq, and_true]
  omega

/-- The code lines, up to the first body, among lines that come after the lines `before`. -/
def codeAfter (before : List Bytes) : List Bytes → List CodeLine
  | [] => []
  | raw :: rest =>
      match (SourceLine.following before raw).kind with
      | .body => []
      | .code => .following before raw :: codeAfter (before ++ [raw]) rest
      | .blank | .comment => codeAfter (before ++ [raw]) rest

/-- A cursor hands out the code lines after those it has seen. -/
theorem Cursor.Tracks.codeLines_eq {before : List Bytes} {c : Cursor} (h : c.Tracks before)
    (rest : List Bytes) : c.codeLines rest = codeAfter before rest := by
  induction rest generalizing before c with
  | nil => rfl
  | cons raw rest ih =>
      rw [Cursor.codeLines, codeAfter]
      obtain ⟨c', hv, ht, hbody, hcode⟩ | ⟨c', hv, hbody⟩ | ⟨c', hv, ht, hcode⟩ := h.visit raw
      · simp only [hv, ih ht]
        cases hk : (SourceLine.following before raw).kind with
        | body => exact absurd hk hbody
        | code => exact absurd hk hcode
        | blank => rfl
        | comment => rfl
      · rw [hv, hbody]
      · simp only [hv, hcode, ih ht]

theorem codeLines_eq (data : Bytes) : codeLines data = codeAfter [] (lines data) :=
  Cursor.tracks_atStart.codeLines_eq (lines data)

/-- Lines without a body, and lines after them. -/
theorem codeAfter_append {before as : List Bytes}
    (h : ∀ l ∈ linesFollowing before as, l.kind ≠ .body) (bs : List Bytes) :
    codeAfter before (as ++ bs) = codeAfter before as ++ codeAfter (before ++ as) bs := by
  induction as generalizing before with
  | nil => simp [codeAfter]
  | cons raw as ih =>
      rw [linesFollowing, List.forall_mem_cons] at h
      rw [List.cons_append, codeAfter, codeAfter, ih h.2, List.append_assoc, List.singleton_append]
      cases hk : (SourceLine.following before raw).kind with
      | body => exact absurd hk h.1
      | code => rfl
      | blank => rfl
      | comment => rfl

/-- **Lines further down**: their code lines are the same, moved down. -/
theorem codeAfter_shift {as : List Bytes} (h : as.rdropWhile isCommentBytes = as)
    (before rest : List Bytes) :
    codeAfter (as ++ before) rest = (codeAfter before rest).map (CodeLine.shift (shiftOf as)) := by
  induction rest generalizing before with
  | nil => rfl
  | cons raw rest ih =>
      -- the kind of a line does not depend on its place
      have hkind : (SourceLine.following (as ++ before) raw).kind =
          (SourceLine.following before raw).kind := rfl
      rw [codeAfter, codeAfter, hkind, List.append_assoc, ih]
      cases (SourceLine.following before raw).kind with
      | body => rfl
      | code => rw [List.map_cons, CodeLine.following_append h]
      | blank => rfl
      | comment => rfl

theorem rdropWhile_lines {data : Bytes}
    (h : ∀ l, (sourceLines data).getLast? = some l → l.kind ≠ .comment) :
    (lines data).rdropWhile isCommentBytes = lines data := by
  rw [sourceLines] at h
  rcases List.eq_nil_or_concat' (lines data) with hnil | ⟨ls, raw, hlines⟩
  · rw [hnil]
    rfl
  · rw [hlines, linesFollowing_append, List.nil_append, linesFollowing, linesFollowing] at h
    have hkind := h (.following ls raw) (by simp)
    rw [hlines, List.rdropWhile_concat_neg]
    simp [isCommentBytes_eq_false hkind]

/-- **The code lines of two sources**, when the first one has no body and ends with a line that is
no comment line. -/
theorem codeLines_append {a b : Bytes} (hcut : a = [] ∨ Divides a b)
    (hbody : ∀ l ∈ sourceLines a, l.kind ≠ .body)
    (hlast : ∀ l, (sourceLines a).getLast? = some l → l.kind ≠ .comment) :
    codeLines (a ++ b) = codeLines a ++ (codeLines b).map (CodeLine.shift (shiftOf (lines a))) := by
  have hrun := rdropWhile_lines hlast
  rw [codeLines_eq, codeLines_eq, codeLines_eq, lines_append_of_divides hcut,
    codeAfter_append hbody, ← codeAfter_shift hrun, List.append_nil, List.nil_append]

end Source

/-! ### Packages -/

section Packages

variable {k : Shift}

theorem SymbolId.shift_injective : Function.Injective (SymbolId.shift k) := by
  rintro ⟨name, line⟩ ⟨name', line'⟩ h
  simpa [SymbolId.shift] using h

theorem Table.contains_shift {t : Table SymbolId Member} {id : SymbolId} :
    (t.shift k).contains (id.shift k) = t.contains id := by
  have hkeys : (t.shift k).keys = t.keys.map (SymbolId.shift k) := by
    simp [Table.keys, Table.shift]
  rw [Table.contains, Table.contains, hkeys]
  exact decide_eq_decide.2 (List.mem_map_of_injective SymbolId.shift_injective)

theorem Table.push_shift {t : Table SymbolId Member} {id : SymbolId} {m : Member} :
    (t.shift k).push (id.shift k) (m.shift k) = (t.push id m).shift k := by
  simp [Table.push, Table.shift]

namespace Package

theorem table_shift (p : Package) (c : Category) : (p.shift k).table c = (p.table c).shift k := by
  cases c <;> rfl

theorem setTable_shift (p : Package) (c : Category) (t : Table SymbolId Member) :
    (p.shift k).setTable c (t.shift k) = (p.setTable c t).shift k := by
  cases c <;> rfl

/-- What adding to a package comes to, moved down. -/
def shiftResult (k : Shift) : Except Error Package → Except Error Package
  | .ok p => .ok (p.shift k)
  | .error e => .error (e.shift k)

/-- **One member** is added further down, or refused there. -/
theorem addMember_shift (p : Package) (m : Member) :
    (p.shift k).addMember (m.shift k) = shiftResult k (p.addMember m) := by
  have hid : (m.shift k).declaration.id = m.declaration.id.shift k := rfl
  have hcategory : (m.shift k).category = m.category := rfl
  simp only [addMember, hcategory, table_shift, hid, Table.contains_shift]
  split
  · rfl
  · rw [Table.push_shift, setTable_shift]
    rfl

/-- **Several members** are added further down, or the same one is refused there. -/
theorem foldlM_addMember_shift (p : Package) (ms : List Member) :
    (ms.map (Member.shift k)).foldlM addMember (p.shift k) =
      shiftResult k (ms.foldlM addMember p) := by
  induction ms generalizing p with
  | nil => rfl
  | cons m ms ih =>
      rw [List.map_cons, List.foldlM_cons, List.foldlM_cons, addMember_shift]
      cases p.addMember m with
      | ok p' => exact ih p'
      | error e => rfl

end Package

end Packages

/-! ### One line -/

namespace Scan

variable {k : Shift} {t : Target}

theorem closing_shift (construct : Construct) (name : List Char) (depth : Int) (l : CodeLine) :
    construct.closing name depth (l.shift k) = construct.closing name depth l :=
  rfl

theorem declare_shift (scope : String) (name : List Char) (first : CodeLine) (stop : Nat)
    (summary : List Char) :
    declare t scope name (first.shift k) (stop + k.bytes) summary =
      (declare t scope name first stop summary).shift k := by
  simp [declare, Declaration.shift, CodeLine.shift, CodeLine.signature]

namespace OpenMember

/-- The open member moved down. -/
def shift (k : Shift) (m : OpenMember) : OpenMember := { m with first := m.first.shift k }

theorem feed_shift (m : OpenMember) (l : CodeLine) :
    (m.shift k).feed (l.shift k) = ((m.feed l).1, (m.feed l).2.shift k) :=
  rfl

theorem members_shift (m : OpenMember) (scope : String) (stop : Nat) :
    (m.shift k).members t scope (stop + k.bytes) =
      (m.members t scope stop).map (Member.shift k) := by
  simp only [members, shift, declare_shift, List.map_map]
  rfl

end OpenMember

/-- The phase of a pass further down. -/
def Phase.shift (k : Shift) : Phase → Phase
  | outside => outside
  | inEntity name first => inEntity name (first.shift k)
  | inPackage p => inPackage (p.shift k)
  | inMember p m => inMember (p.shift k) (m.shift k)
  | failed e => failed (e.shift k)

/-- The pass at `s'` has done the same as the one at `s`, further down and after the units `us`. -/
structure Progress.Shifted (k : Shift) (us : List Symbol) (s s' : Progress) : Prop where
  units : s'.units = us ++ s.units.map (Symbol.shift k)
  phase : s'.phase = s.phase.shift k

namespace Progress.Shifted

variable {us : List Symbol} {s s' : Progress}

theorem memberLine (h : s.Shifted k us s') (p : Package) (m : OpenMember) (l : CodeLine) :
    (memberLine t s p m l).Shifted k us
      (memberLine t s' (p.shift k) (m.shift k) (l.shift k)) := by
  simp only [Scan.memberLine, OpenMember.feed_shift]
  generalize m.feed l = x
  obtain ⟨closed, m'⟩ := x
  cases closed with
  | false => exact ⟨h.units, rfl⟩
  | true =>
      have hname : (p.shift k).declaration.qualifiedName = p.declaration.qualifiedName := rfl
      have hstop : (l.shift k).stop = l.stop + k.bytes := rfl
      simp only [hname, hstop, OpenMember.members_shift, Package.foldlM_addMember_shift]
      cases List.foldlM Package.addMember p (m'.members t p.declaration.qualifiedName l.stop) with
      | ok p' => exact ⟨h.units, rfl⟩
      | error e => exact ⟨h.units, rfl⟩

/-- One more unit. -/
theorem concat (h : s.Shifted k us s') (u : Symbol) (log log' : List Event) :
    Shifted k us ⟨s.units ++ [u], log, .outside⟩ ⟨s'.units ++ [u.shift k], log', .outside⟩ :=
  ⟨by simp [h.units], rfl⟩

theorem packageLine (h : s.Shifted k us s') (p : Package) (l : CodeLine) :
    (packageLine s p l).Shifted k us (packageLine s' (p.shift k) (l.shift k)) := by
  have hname : (p.shift k).declaration.name = p.declaration.name := rfl
  simp only [Scan.packageLine, closing_shift, hname]
  split
  · exact h.concat
      (.package { p with declaration := { p.declaration with codeStop := l.stop } }) _ _
  · exact h

theorem entityLine (h : s.Shifted k us s') (name : List Char) (first l : CodeLine) :
    (entityLine t s name first l).Shifted k us
      (entityLine t s' name (first.shift k) (l.shift k)) := by
  have hstop : (l.shift k).stop = l.stop + k.bytes := rfl
  simp only [Scan.entityLine, closing_shift, hstop, declare_shift]
  split
  · exact h.concat (.entity (declare t t.library name first l.stop [])) _ _
  · exact h

theorem outsideLine (h : s.Shifted k us s') (l : CodeLine) :
    (outsideLine t s l).Shifted k us (outsideLine t s' (l.shift k)) := by
  have hline : (l.shift k).line = l.line := rfl
  have hstop : (l.shift k).stop = l.stop + k.bytes := rfl
  simp only [Scan.outsideLine, hline, hstop, declare_shift]
  split
  · exact h
  · split
    · exact ⟨h.units, rfl⟩
    · exact ⟨h.units, rfl⟩

/-- **One line** of both passes. -/
theorem step (h : s.Shifted k us s') (l : CodeLine) :
    (step t s l).Shifted k us (step t s' (l.shift k)) := by
  have hline : (l.shift k).line = l.line := rfl
  simp only [Scan.step, h.phase]
  cases hphase : s.phase with
  | outside => exact h.outsideLine l
  | inEntity name first => exact h.entityLine name first l
  | inPackage p =>
      simp only [Phase.shift, hline]
      split
      · next o _ => exact h.memberLine p (.begin o l) l
      · exact h.packageLine p l
  | inMember p m => exact h.memberLine p m l
  | failed e => exact h

/-- **All lines** of both passes. -/
theorem run (h : s.Shifted k us s') (ls : List CodeLine) :
    (run t s ls).Shifted k us (run t s' (ls.map (CodeLine.shift k))) := by
  induction ls generalizing s s' with
  | nil => exact h
  | cons l ls ih => exact ih (h.step l)

end Progress.Shifted

end Scan

/-- What a scan of a file comes to further down and after the units `us`. -/
def FileScan.shift (k : Shift) (us : List Symbol) (file : FileScan) : FileScan :=
  { file with units := us ++ file.units.map (Symbol.shift k) }

/-- What the passes return when the lines run out. -/
theorem Scan.Progress.Shifted.result {k : Shift} {t : Target} {us : List Symbol} {s s' : Progress}
    (h : s.Shifted k us s') :
    (∀ file, s.result t = .ok file → s'.result t = .ok (file.shift k us)) ∧
    ∀ e, s.result t = .error e → s'.result t = .error (e.shift k) := by
  simp only [Progress.result, h.phase, h.units]
  cases s.phase with
  | outside =>
      refine ⟨fun file hfile => ?_, fun e he => ?_⟩
      · cases hfile
        rfl
      · cases he
  | inEntity name first =>
      refine ⟨fun file hfile => ?_, fun e he => ?_⟩
      · cases hfile
      · cases he
        simp [Phase.shift, CodeLine.shift, Error.shift]
  | inPackage p =>
      refine ⟨fun file hfile => ?_, fun e he => ?_⟩
      · cases hfile
      · cases he
        rfl
  | inMember p m =>
      refine ⟨fun file hfile => ?_, fun e he => ?_⟩
      · cases hfile
      · cases he
        simp [Phase.shift, OpenMember.shift, CodeLine.shift, Error.shift]
  | failed e =>
      refine ⟨fun file hfile => ?_, fun e he => ?_⟩
      · cases hfile
      · cases he
        rfl

/-! ### Two sources -/

/-- **One source after another.**  Let `a` be empty or end with a line terminator that `b` does not
carry on, have no line that begins a body and no comment line at its end, and let its scan succeed.
Then the scan of both, one after the other, succeeds exactly when the scan of `b` does.  It returns
the units of `a` and after them those of `b`, with every line moved by the number of lines of `a`
and every offset by its length; or the error of `b`, with its line moved likewise. -/
theorem scanSource_append (filepath library : String) {a b : Bytes} {file : FileScan}
    (hcut : a = [] ∨ Divides a b) (hbody : ∀ l ∈ sourceLines a, l.kind ≠ .body)
    (hlast : ∀ l, (sourceLines a).getLast? = some l → l.kind ≠ .comment)
    (ha : (scanSource filepath library a).result = .ok file) :
    ((∃ f, (scanSource filepath library (a ++ b)).result = .ok f) ↔
      ∃ f, (scanSource filepath library b).result = .ok f) ∧
    (∀ f, (scanSource filepath library b).result = .ok f →
      (scanSource filepath library (a ++ b)).result = .ok ⟨f.filepath, f.library,
        file.units ++ f.units.map (Symbol.shift ⟨(lines a).length, a.length⟩)⟩) ∧
    ∀ e, (scanSource filepath library b).result = .error e →
      (scanSource filepath library (a ++ b)).result =
        .error (e.shift ⟨(lines a).length, a.length⟩) := by
  obtain ⟨hphase, hunits⟩ := run_of_scanSource ha
  have hstart : Scan.Progress.start.Shifted (shiftOf (lines a)) file.units
      (Scan.run (.ofFile filepath library) .start (codeLines a)) :=
    ⟨by simp [hunits, Scan.Progress.start], hphase⟩
  have hrun := hstart.run (t := .ofFile filepath library) (codeLines b)
  rw [← Scan.run_append, ← codeLines_append hcut hbody hlast] at hrun
  obtain ⟨hok, herror⟩ := hrun.result (t := .ofFile filepath library)
  rw [← result_scanSource, ← result_scanSource, shiftOf, flatten_lines] at hok herror
  refine ⟨⟨?_, fun ⟨f, hf⟩ => ⟨_, hok f hf⟩⟩, hok, herror⟩
  rintro ⟨f, hf⟩
  cases hb : (scanSource filepath library b).result with
  | ok f' => exact ⟨f', rfl⟩
  | error e =>
      rw [herror e hb] at hf
      cases hf

/-- The error of a result that is one. -/
def failure? {ε α : Type} : Except ε α → Option ε
  | .error e => some e
  | .ok _ => none

theorem eq_error_of_failure? {ε α : Type} {x : Except ε α} {e : ε} (h : failure? x = some e) :
    x = .error e := by
  cases x with
  | error e' => rw [Option.some.inj h]
  | ok a => cases h

/-- A package that ends with a carriage return. -/
def upperSample : Bytes := "package p is\n  constant c : t := 1;\nend p;\r".toUTF8.data.toList

/-- A documented entity. -/
def lowerSample : Bytes := "-- about e\nentity e is\nend;\n".toUTF8.data.toList

/-- The documented entity goes to line five of the whole, after the package; and where it is cut off
instead, the error says that it begins on line four. -/
theorem scanSource_append_samples :
    Divides upperSample lowerSample ∧ (∀ l ∈ sourceLines upperSample, l.kind ≠ .body) ∧
    (∀ l, (sourceLines upperSample).getLast? = some l → l.kind ≠ .comment) ∧
    (∃ file f, (scanSource "f.vhd" "Work" upperSample).result = .ok file ∧
      (scanSource "f.vhd" "Work" lowerSample).result = .ok f ∧
      (f.units.map fun u => (u.declaration.line, u.declaration.docStart)) = [(2, 0)] ∧
      (scanSource "f.vhd" "Work" (upperSample ++ lowerSample)).result =
        .ok ⟨f.filepath, f.library, file.units ++ f.units.map (Symbol.shift ⟨3, 43⟩)⟩) ∧
    (scanSource "f.vhd" "Work" "entity e is".toUTF8.data.toList).result =
      .error (.unterminated "f.vhd" (.unit .entity) "e" 1) ∧
    (scanSource "f.vhd" "Work" (upperSample ++ "entity e is".toUTF8.data.toList)).result =
      .error (.unterminated "f.vhd" (.unit .entity) "e" 4) := by
  have hcut : Divides upperSample lowerSample := Or.inr ⟨by decide +kernel, by decide +kernel⟩
  have hcut' : Divides upperSample "entity e is".toUTF8.data.toList :=
    Or.inr ⟨by decide +kernel, by decide +kernel⟩
  have hbody : ∀ l ∈ sourceLines upperSample, l.kind ≠ .body := by decide +kernel
  have hlast : ∀ l, (sourceLines upperSample).getLast? = some l → l.kind ≠ .comment := by
    intro l hl
    have hkind : (sourceLines upperSample).getLast?.map SourceLine.kind = some .code := by
      decide +kernel
    rw [hl, Option.map_some, Option.some.injEq] at hkind
    simp [hkind]
  have hshift : (lines upperSample).length = 3 ∧ upperSample.length = 43 := by decide +kernel
  obtain ⟨file, hfile, -⟩ := exists_ok_of_toOption (f := fun file => file.units.length) (b := 1)
    (x := (scanSource "f.vhd" "Work" upperSample).result) (by decide +kernel)
  obtain ⟨f, hf, hplaces⟩ := exists_ok_of_toOption
    (f := fun file => file.units.map fun u => (u.declaration.line, u.declaration.docStart))
    (b := [(2, 0)]) (x := (scanSource "f.vhd" "Work" lowerSample).result) (by decide +kernel)
  have herror : (scanSource "f.vhd" "Work" "entity e is".toUTF8.data.toList).result =
      .error (.unterminated "f.vhd" (.unit .entity) "e" 1) :=
    eq_error_of_failure? (by decide +kernel)
  obtain ⟨-, hok, -⟩ := scanSource_append "f.vhd" "Work" (Or.inr hcut) hbody hlast hfile
  obtain ⟨-, -, herrors⟩ := scanSource_append "f.vhd" "Work" (Or.inr hcut') hbody hlast hfile
  rw [hshift.1, hshift.2] at hok herrors
  exact ⟨hcut, hbody, hlast, ⟨file, f, hfile, hf, hplaces, hok f hf⟩, herror, herrors _ herror⟩

end VhdlCatalog
