import VhdlCatalog.Proofs.BlockRun
import VhdlCatalog.Proofs.BodyCutoff
import VhdlCatalog.Proofs.Classification
import VhdlCatalog.Proofs.DeclaredNames
import VhdlCatalog.Proofs.MemberLines
import VhdlCatalog.Proofs.Ranges

/-!
**Members on one line.**

A declaration may be complete on the line it opens on.  What that means is different for every form
of member, and is stated here for the characters of the line, apart from the signs that the pass
looks for.  For all forms but one the two are the same: such a member ends with its opening line
exactly when that line is complete.  The exception is the record type.  Its end is looked for at the
beginning of a line only, and the line it opens on begins with another word; so a record type that
is complete on one line goes on, and takes in the lines after it.

Main definitions:

* `VhdlCatalog.SemicolonLast`, `VhdlCatalog.ReturnsMark`, `VhdlCatalog.EndsRecord` — how lines end a
  declaration;
* `VhdlCatalog.MemberForm.Complete` — code that is a complete declaration of a form;
* `VhdlCatalog.Opening.membersOn` — the members that a complete line declares.

Main results:

* `VhdlCatalog.endsInSemicolon_eq_true_iff`, `VhdlCatalog.returnsType_eq_true_iff` — what the signs
  find;
* `VhdlCatalog.closedBy_opening_iff` — **which opening lines close**;
* `VhdlCatalog.one_line_members` — **what becomes of members on one line**;
* `VhdlCatalog.one_line_record_goes_on` — a record type that does not end with its line.
-/

set_option relaxedAutoImplicit false
set_option autoImplicit false

namespace VhdlCatalog

open Source Scan

/-! ### Complete declarations -/

/-- A semicolon is the last character of the code that is not white space. -/
def SemicolonLast (code : List Char) : Prop :=
  ∃ body gap, code = body ++ ';' :: gap ∧ ∀ c ∈ gap, isBlank c = true

/-- The text begins with `return`, white space, a type mark and a semicolon. -/
def IsReturn (cs : List Char) : Prop :=
  ∃ gap mark gap' after, cs = "return".toList ++ (gap ++ (mark ++ (gap' ++ ';' :: after))) ∧
    gap ≠ [] ∧ (∀ c ∈ gap, isBlank c = true) ∧ mark ≠ [] ∧ (∀ c ∈ mark, isTypeMark c = true) ∧
    ∀ c ∈ gap', isBlank c = true

/-- The word `return` with its type mark and semicolon stands somewhere in the code. -/
def ReturnsMark (code : List Char) : Prop :=
  ∃ before rest, code = before ++ rest ∧ (∀ c ∈ before.getLast?, isWord c = false) ∧ IsReturn rest

/-- The code ends in `end record;` or in `end record name;`. -/
def EndsRecord (name code : List Char) : Prop :=
  ∃ fields gap closing gap', code = fields ++ ("end".toList ++ (gap ++ ("record".toList ++
      (closing ++ ';' :: gap')))) ∧
    (∀ c ∈ fields.getLast?, isWord c = false) ∧
    gap ≠ [] ∧ (∀ c ∈ gap, isBlank c = true) ∧ (∀ c ∈ gap', isBlank c = true) ∧
    ((∀ c ∈ closing, isBlank c = true) ∨
      ∃ left right, closing = left ++ name ++ right ∧ left ≠ [] ∧
        (∀ c ∈ left, isBlank c = true) ∧ ∀ c ∈ right, isBlank c = true)

theorem endsRecord_append (name fields : List Char) :
    EndsRecord name (fields ++ " end record;".toList) := by
  refine ⟨fields ++ [' '], [' '], [], [], by simp, ?_, by simp, ?_, by simp, Or.inl (by simp)⟩
  · intro c hc
    obtain rfl : ' ' = c := by simpa using hc
    decide
  · intro c hc
    rw [List.mem_singleton.1 hc]
    decide

/-- The code is by itself a complete declaration of the given form and name. -/
def MemberForm.Complete (name code : List Char) : MemberForm → Prop
  | constant | arrayType | enumType | subtype => SemicolonLast code
  | function => ReturnsMark code
  | procedure => ∃ as bs, code = as ++ ';' :: bs ∧ depthFrom 0 as = 0
  | recordType => EndsRecord name code

/-! ### What the signs find -/

theorem endsInSemicolon_eq_true_iff (code : List Char) :
    endsInSemicolon code = true ↔ SemicolonLast code := by
  rw [endsInSemicolon, beq_iff_eq]
  constructor
  · intro h
    obtain ⟨rest, hrest⟩ := List.head?_eq_some_iff.1 h
    refine ⟨rest.reverse, (code.reverse.takeWhile isBlank).reverse, ?_, ?_⟩
    · calc code = (code.reverse.takeWhile isBlank ++ code.reverse.dropWhile isBlank).reverse := by
            rw [List.takeWhile_append_dropWhile, List.reverse_reverse]
        _ = rest.reverse ++ ';' :: (code.reverse.takeWhile isBlank).reverse := by
            rw [hrest]
            simp
    · intro c hc
      exact List.mem_takeWhile_imp (List.mem_reverse.1 hc)
  · rintro ⟨body, gap, rfl, hgap⟩
    have hblank : ∀ c ∈ gap.reverse, isBlank c = true := fun c hc => hgap c (List.mem_reverse.1 hc)
    have hsemicolon : ∀ c ∈ (';' :: body.reverse).head?, isBlank c = false := by
      intro c hc
      obtain rfl : ';' = c := by simpa using hc
      decide
    rw [List.reverse_append, List.reverse_cons, List.append_assoc, List.singleton_append,
      dropWhile_append_of_head? hblank hsemicolon, List.head?_cons]

theorem isBlank_of_isTypeMark {c : Char} (h : isTypeMark c = true) : isBlank c = false := by
  rw [isTypeMark, Bool.or_eq_true, beq_iff_eq] at h
  rcases h with hword | rfl
  · exact isBlank_of_isWord hword
  · decide

theorem isTypeMark_of_isBlank {c : Char} (h : isBlank c = true) : isTypeMark c = false := by
  refine Bool.eq_false_iff.2 fun hmark => ?_
  rw [isBlank_of_isTypeMark hmark] at h
  cases h

theorem isReturn_of_returnsHere {cs : List Char} (h : returnsHere cs = true) : IsReturn cs := by
  rw [returnsHere] at h
  split at h
  · cases h
  · next rest hrest =>
      simp only [Bool.and_eq_true, Bool.not_eq_true'] at h
      obtain ⟨⟨hstarts, hmark⟩, hafter⟩ := h
      obtain ⟨gap', after, hgap', hblank'⟩ := (Token.isSome_mark?_iff (by decide) _).1 hafter
      have hgap := List.takeWhile_append_dropWhile (p := isBlank) (l := rest)
      have hsplit := List.takeWhile_append_dropWhile (p := isTypeMark) (l := Text.skipBlanks rest)
      refine ⟨rest.takeWhile isBlank, (Text.skipBlanks rest).takeWhile isTypeMark, gap', after,
        ?_, ?_, fun c hc => List.mem_takeWhile_imp hc, ?_, fun c hc => List.mem_takeWhile_imp hc,
        hblank'⟩
      · rw [← hgap', hsplit, Text.skipBlanks, hgap]
        exact (Text.afterLiteral?_eq_some_iff _ _ _).1 hrest
      · cases rest with
        | nil => cases hstarts
        | cons c rest =>
            have hc : isBlank c = true := hstarts
            simp [hc]
      · simpa using hmark

theorem returnsHere_of_isReturn {cs : List Char} (h : IsReturn cs) : returnsHere cs = true := by
  obtain ⟨gap, mark, gap', after, rfl, hgap, hblank, hmark, htype, hblank'⟩ := h
  have hliteral : Text.afterLiteral? "return".toList ("return".toList ++
      (gap ++ (mark ++ (gap' ++ ';' :: after)))) =
      some (gap ++ (mark ++ (gap' ++ ';' :: after))) :=
    (Text.afterLiteral?_eq_some_iff _ _ _).2 rfl
  have hstarts : Token.startsBlank (gap ++ (mark ++ (gap' ++ ';' :: after))) = true := by
    obtain ⟨g, gap, rfl⟩ := List.exists_cons_of_ne_nil hgap
    exact hblank g (List.mem_cons_self ..)
  -- white space ends at the type mark, and the type mark at white space or at the semicolon
  have hfirst : ∀ c ∈ (mark ++ (gap' ++ ';' :: after)).head?, isBlank c = false := by
    intro c hc
    obtain ⟨m, mark, rfl⟩ := List.exists_cons_of_ne_nil hmark
    obtain rfl : m = c := by simpa using hc
    exact isBlank_of_isTypeMark (htype m (List.mem_cons_self ..))
  have hend : ∀ c ∈ (gap' ++ ';' :: after).head?, isTypeMark c = false := by
    intro c hc
    cases gap' with
    | nil =>
        obtain rfl : ';' = c := by simpa using hc
        decide
    | cons x xs =>
        obtain rfl : x = c := by simpa using hc
        exact isTypeMark_of_isBlank (hblank' x (List.mem_cons_self ..))
  have hskip : Text.skipBlanks (gap ++ (mark ++ (gap' ++ ';' :: after))) =
      mark ++ (gap' ++ ';' :: after) :=
    dropWhile_append_of_head? hblank hfirst
  have hsemicolon : (Token.mark? ';' (gap' ++ ';' :: after)).isSome = true :=
    (Token.isSome_mark?_iff (by decide) _).2 ⟨gap', after, rfl, hblank'⟩
  rw [returnsHere, hliteral]
  simp only [hstarts, hskip, takeWhile_append_of_head? htype hend,
    dropWhile_append_of_head? htype hend, hsemicolon]
  simpa using hmark

theorem returnsFrom_eq_true_iff (inWord : Bool) (cs : List Char) :
    returnsFrom inWord cs = true ↔ ∃ before rest, cs = before ++ rest ∧
      (before = [] → inWord = false) ∧ (∀ c ∈ before.getLast?, isWord c = false) ∧
      returnsHere rest = true := by
  -- nothing is returned at the end of a text
  have hend : ∀ stuck : Bool, returnsFrom stuck [] = (!stuck && returnsHere []) := fun stuck => by
    cases stuck <;> rfl
  exact search_eq_true_iff hend (fun _ _ _ => rfl) inWord cs

theorem returnsType_eq_true_iff (code : List Char) :
    returnsType code = true ↔ ReturnsMark code := by
  rw [returnsType, returnsFrom_eq_true_iff, ReturnsMark]
  have hhere : ∀ rest, returnsHere rest = true ↔ IsReturn rest :=
    fun rest => ⟨isReturn_of_returnsHere, returnsHere_of_isReturn⟩
  simp only [hhere, implies_true, true_and]

/-! ### Opening lines that close -/

/-- No record type closes at a line that begins with `type`. -/
theorem startsEnd_of_recordType {line : List Char} {o : Opening MemberForm}
    (h : memberOpening? line = some o) (_hform : o.form = .recordType) : startsEnd line = false :=
  (opensMember_of_memberOpening? h).startsEnd_eq_false

variable {l : CodeLine} {o : Opening MemberForm}

/-- **Which opening lines close**: those that are complete, unless they open a record type. -/
theorem closedBy_opening_iff (h : memberOpening? l.line = some o) :
    (Construct.member o.form).ClosedBy o.name [] l.place ↔
      o.form ≠ .recordType ∧ o.form.Complete o.name l.code := by
  cases hform : o.form with
  | recordType =>
      refine iff_of_false ?_ (by simp)
      rintro ⟨hend, -⟩
      rw [CodeLine.place_line, startsEnd_of_recordType h hform] at hend
      cases hend
  | function =>
      simp only [Construct.ClosedBy, MemberForm.Complete, CodeLine.place_code,
        returnsType_eq_true_iff]
      simp
  | procedure => simp [Construct.ClosedBy, MemberForm.Complete]
  | _ =>
      simp only [Construct.ClosedBy, MemberForm.Complete, CodeLine.place_code,
        endsInSemicolon_eq_true_iff]
      simp

/-! ### Blocks of one line -/

namespace Scan.MemberBlock

variable {b : MemberBlock}

theorem first_eq_last (h : b.before = []) : b.first = b.last := by
  rw [first, h]
  rfl

theorem first_eq_of_before {x : CodeLine} {rest : List CodeLine} (h : b.before = x :: rest) :
    b.first = x := by
  rw [first, h]
  rfl

/-- A member has one line exactly when it is no record type and its opening line is complete. -/
theorem before_eq_nil_iff (b : MemberBlock) :
    b.before = [] ↔ b.opening.form ≠ .recordType ∧
      b.opening.form.Complete b.opening.name b.first.code := by
  have hopens : memberOpening? b.first.line = some b.opening := b.opens
  rw [← closedBy_opening_iff hopens]
  constructor
  · intro hbefore
    have hcloses := b.closes
    rw [hbefore] at hcloses
    rw [first_eq_last hbefore]
    exact hcloses
  · intro hclosed
    cases hbefore : b.before with
    | nil => rfl
    | cons x rest =>
        -- the first line would have closed the member
        have hwaits := b.waits
        rw [hbefore, List.map_cons] at hwaits
        rw [first_eq_of_before hbefore] at hclosed
        exact absurd hclosed (hwaits [] x.place (rest.map CodeLine.place) rfl)

/-- A block of more than one line ends after its first line. -/
theorem stop_eq_iff {data : Bytes} {as bs : List CodeLine} (b : MemberBlock)
    (h : codeLines data = as ++ (b.lines ++ bs)) :
    b.last.stop = b.first.stop ↔ b.before = [] := by
  constructor
  · intro hstop
    cases hbefore : b.before with
    | nil => rfl
    | cons x rest =>
        have hord := ordered_codeLines data
        rw [h, lines, hbefore] at hord
        have hblock := (ordered_append.1 (ordered_append.1 hord).2.1).1
        obtain ⟨-, hrest, hle⟩ := hblock.cons
        have hafter := hle b.last (by simp)
        have hpos := hrest.start_lt_stop b.last (by simp)
        rw [first_eq_of_before hbefore] at hstop
        omega
  · intro hbefore
    rw [first_eq_last hbefore]

end Scan.MemberBlock

namespace Opening

/-- The members that are declared on the line `l`, when it is their only line. -/
def membersOn (t : Target) (scope : String) (o : Opening MemberForm) (l : CodeLine) :
    List Member :=
  o.names.map fun name =>
    { category := o.form.category
      declaration := declare t scope name l l.stop
        (if o.form.isSubprogram then joinLines [l.signature] else [])
      form := o.form.typeForm }

theorem spans_of_mem_membersOn {t : Target} {scope : String} {o : Opening MemberForm}
    {l : CodeLine} {m : Member} (h : m ∈ o.membersOn t scope l) : m.declaration.Spans l l := by
  obtain ⟨name, -, rfl⟩ := List.mem_map.1 h
  exact spans_declare t scope name l l _

end Opening

variable {t : Target} {s : Progress} {p : Package}

/-- A complete opening line adds what it declares, and the pass is between members again. -/
theorem reaches_of_complete (hs : s.phase = .inPackage p) (h : memberOpening? l.line = some o)
    (hform : o.form ≠ .recordType) (hcomplete : o.form.Complete o.name l.code) :
    Reaches t s [l] [] (.ofAddition
      ((o.membersOn t p.declaration.qualifiedName l).foldlM Package.addMember p)) := by
  have hcloses := (closedBy_opening_iff h).2 ⟨hform, hcomplete⟩
  exact reaches_memberBlock ⟨o, [], l, h, hcloses, noneCloses_nil _⟩ hs

/-- Lines that do not close a member leave the pass inside the one that their first line opens. -/
theorem exists_reaches_inMember (hs : s.phase = .inPackage p) (h : memberOpening? l.line = some o)
    {rest : List CodeLine} (hwaits : NoneCloses ((Construct.member o.form).ClosedBy o.name)
      ((l :: rest).map CodeLine.place)) :
    ∃ m, Reaches t s (l :: rest) [] (.inMember p m) ∧ m.opening = o ∧ m.first = l := by
  obtain ⟨m, hreach, hfirst, hm⟩ := reaches_openBlock (t := t) ⟨o, l, rest, h, hwaits⟩ hs
  refine ⟨m, hreach, ?_, hfirst⟩
  have hopens := hm.opens
  rw [hfirst, h, Option.some.injEq] at hopens
  exact hopens.symm

/-- **What becomes of members on one line.**  Let a line open a member of a package.  If the line is
complete and opens no record type, then the members it declares are added, each with exactly that
line as its range, and the pass goes on between members.  If it is not complete, the member goes on.
A record type goes on in any case, and takes in all lines up to one that begins with `end`.  So in
the scan of a file a member ends with its opening line exactly when it is no record type and its
opening line is complete. -/
theorem one_line_members (filepath library : String) (data : Bytes) :
    (∀ (t : Target) (s : Progress) (p : Package) (l : CodeLine) (o : Opening MemberForm),
      s.phase = .inPackage p → memberOpening? l.line = some o →
      (o.form ≠ .recordType → o.form.Complete o.name l.code →
        Reaches t s [l] [] (.ofAddition
          ((o.membersOn t p.declaration.qualifiedName l).foldlM Package.addMember p)) ∧
        ∀ m ∈ o.membersOn t p.declaration.qualifiedName l,
          m.declaration.codeStart = l.start ∧ m.declaration.codeStop = l.stop) ∧
      (o.form ≠ .recordType → ¬o.form.Complete o.name l.code →
        ∃ m, Reaches t s [l] [] (.inMember p m) ∧ m.opening = o ∧ m.first = l) ∧
      (o.form = .recordType → ∀ rest : List CodeLine, (∀ x ∈ rest, startsEnd x.line = false) →
        ∃ m, Reaches t s (l :: rest) [] (.inMember p m) ∧ m.opening = o ∧ m.first = l)) ∧
    ∀ file, (scanSource filepath library data).result = .ok file →
      ∀ p, Symbol.package p ∈ file.units → ∀ m ∈ p.members, ∃ first ∈ codePlaces data, ∃ o,
        memberOpening? first.line = some o ∧ m.declaration.name.toList ∈ o.names ∧
        m.declaration.codeStart = first.start ∧
        (m.declaration.codeStop = first.stop ↔
          o.form ≠ .recordType ∧ o.form.Complete o.name first.code) := by
  refine ⟨?_, ?_⟩
  · intro t s p l o hs ho
    refine ⟨fun hform hcomplete => ?_, fun hform hcomplete => ?_, fun hform rest hrest => ?_⟩
    · refine ⟨reaches_of_complete hs ho hform hcomplete, fun m hm => ?_⟩
      have hspans := Opening.spans_of_mem_membersOn hm
      exact ⟨hspans.codeStart, hspans.codeStop⟩
    · refine exists_reaches_inMember hs ho ((noneCloses_nil _).concat ?_)
      rw [closedBy_opening_iff ho]
      exact fun hclosed => hcomplete hclosed.2
    · refine exists_reaches_inMember hs ho (noneCloses_of_forall ?_)
      intro x hx before hclosed
      rw [hform] at hclosed
      obtain ⟨y, hy, rfl⟩ := List.mem_map.1 hx
      have hend : startsEnd y.line = false := by
        rcases List.mem_cons.1 hy with rfl | hy
        · exact startsEnd_of_recordType ho hform
        · exact hrest y hy
      have hstarts : startsEnd y.line = true := hclosed.1
      rw [hend] at hstarts
      cases hstarts
  · intro file h p hp m hm
    obtain ⟨b, as, bs, hlines, name, hname, rfl⟩ := exists_memberBlock_of_scanSource h hp hm
    have hspans := b.spans_member (.ofFile filepath library) p.declaration.qualifiedName name
    refine ⟨b.first.place, ?_, b.opening, b.opens, ?_, hspans.codeStart, ?_⟩
    · rw [← map_place_codeLines, hlines]
      exact List.mem_map_of_mem (by simp [b.first_mem_lines])
    · simpa [MemberBlock.member, declare] using hname
    · rw [hspans.codeStop, CodeLine.place_stop, CodeLine.place_code, ← b.before_eq_nil_iff,
        ← b.stop_eq_iff hlines]
      exact Int.natCast_inj

/-- A function that is complete on its line, a record type that is complete as well and goes on over
the constant behind it, and the members of the sample. -/
theorem one_line_members_samples :
    let t : Target := ⟨"f.vhd", "work"⟩
    let p : Package := .ofDeclaration ⟨"f.vhd", "p", 1, "work", 0, 0, 0, 0, "", ""⟩
    let s : Progress := ⟨[], [], .inPackage p⟩
    let function : CodeLine :=
      ⟨2, 13, 54, 13, 13, "  pure function F (x : t) return work.u ; -- f".toList⟩
    let record : CodeLine := ⟨3, 54, 93, 54, 54, "  type R is record a : bit; end record;".toList⟩
    let constant : CodeLine := ⟨4, 93, 115, 93, 93, "  constant c : t := 1;".toList⟩
    ReturnsMark function.code ∧
    Reaches t s [function] [] (.ofAddition
      (((⟨.function, ['f'], []⟩ : Opening MemberForm).membersOn t "work.p" function).foldlM
        Package.addMember p)) ∧
    EndsRecord ['r'] record.code ∧
    (∃ m, Reaches t s [record, constant] [] (.inMember p m) ∧
      m.opening = ⟨.recordType, ['r'], []⟩ ∧ m.first = record) ∧
    ∃ file, (scanSource "sample.vhd" "Work" sample).result = .ok file ∧
      file.declarations.length = 6 ∧
      ∀ p, Symbol.package p ∈ file.units → ∀ m ∈ p.members, ∃ first ∈ codePlaces sample, ∃ o,
        memberOpening? first.line = some o ∧ m.declaration.name.toList ∈ o.names ∧
        m.declaration.codeStart = first.start ∧
        (m.declaration.codeStop = first.stop ↔
          o.form ≠ .recordType ∧ o.form.Complete o.name first.code) := by
  intro t p s function record constant
  have hreturns : ReturnsMark function.code :=
    (returnsType_eq_true_iff _).1 (by decide +kernel)
  have hcode : record.code = "  type r is record a : bit;".toList ++ " end record;".toList := by
    decide +kernel
  have hrecord : EndsRecord ['r'] record.code := hcode ▸ endsRecord_append _ _
  have hcount : (scanSource "sample.vhd" "Work" sample).result.toOption.map
      (fun file => file.declarations.length) = some 6 := by
    decide +kernel
  obtain ⟨file, h, hcount⟩ := exists_file_sample hcount
  obtain ⟨hlines, hmembers⟩ := one_line_members "sample.vhd" "Work" sample
  obtain ⟨hfunction, -, -⟩ := hlines t s p function ⟨.function, ['f'], []⟩ rfl (by decide +kernel)
  obtain ⟨-, -, hopen⟩ := hlines t s p record ⟨.recordType, ['r'], []⟩ rfl (by decide +kernel)
  refine ⟨hreturns, (hfunction (by decide) hreturns).1, hrecord, hopen rfl [constant] ?_, file, h,
    hcount, hmembers file h⟩
  intro x hx
  rw [List.mem_singleton.1 hx]
  decide +kernel

/-- A package in which a record type is complete on one line.  The scan looks for its end on the
lines after it, finds none, and gives the file up. -/
theorem one_line_record_goes_on :
    let line := "  type r is record a : bit; end record;"
    let source := "package p is\n" ++ line ++ "\n  constant c : integer := 1;\nend p;\n"
    memberOpening? line.toList = some ⟨.recordType, ['r'], []⟩ ∧
    MemberForm.recordType.Complete ['r'] (stripComment line.toList) ∧
    (scanSource "f.vhd" "work" source.toUTF8.data.toList).result =
      .error (.unterminated "f.vhd" (.member .recordType) "r" 2) := by
  intro line source
  have hcode : stripComment line.toList =
      "  type r is record a : bit;".toList ++ " end record;".toList := by
    decide +kernel
  refine ⟨by decide +kernel, hcode ▸ endsRecord_append _ _, ?_⟩
  exact eq_error_of_failure? (by decide +kernel)

end VhdlCatalog
