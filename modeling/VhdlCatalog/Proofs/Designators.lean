import VhdlCatalog.Proofs.Classification
import VhdlCatalog.Proofs.Concatenation
import VhdlCatalog.Proofs.Failures
import VhdlCatalog.Proofs.MemberOrder
import VhdlCatalog.Proofs.Openings

/-!
**Designators.**

Only constants are declared with several names.  A function, procedure, type or subtype has one
designator, which stands as a whole after the words that open the declaration.  It is a name or, in
the case of a function, an operator in double quotes.  All designators are cut at their commas, as
if they were lists of names.  This leaves a name as it is, but not an operator with a comma between
its quotes: a function with such a designator is declared once for each part.  If two parts are the
same, then the file is given up.

Main definitions:

* `VhdlCatalog.IsOperator` — operators in double quotes;
* `VhdlCatalog.LeadIn`, `VhdlCatalog.DesignatorAt` — a designator where it stands in its line;
* `VhdlCatalog.Opening.DeclaredBy` — what is declared by a designator;
* `VhdlCatalog.Package.openLines`, `VhdlCatalog.Package.declaredOn` — the lines that declare the
  members of a package, and the members declared on one of them.

Main results:

* `VhdlCatalog.DesignatorAt.unique`, `VhdlCatalog.OpensMember.exists_declaredBy` — **every opening
  line has one designator**;
* `VhdlCatalog.headings_declaredOn` — the members that a line of a scanned file declares;
* `VhdlCatalog.designators_declared` — **what declarations other than constants contribute**;
* `VhdlCatalog.operator_cut_at_comma` — an operator that is not one name.
-/

set_option relaxedAutoImplicit false
set_option autoImplicit false

namespace VhdlCatalog

open Source Text

/-! ### Designators in their lines -/

/-- An operator: characters in double quotes, at least one of them, and no double quote. -/
def IsOperator (d : List Char) : Prop := ∃ w, d = '"' :: (w ++ ['"']) ∧ w ≠ [] ∧ '"' ∉ w

/-- The text is the words, each with white space after it, and white space or nothing before
them. -/
inductive LeadIn : List String → List Char → Prop
  /-- Before the first word. -/
  | indent {gap : List Char} (hgap : AllBlank gap) : LeadIn [] gap
  /-- One more word. -/
  | word {words : List String} {word : String} {front gap : List Char} (h : LeadIn words front)
      (hgap : AllBlank gap) (hne : gap ≠ []) :
      LeadIn (words ++ [word]) (front ++ (word.toList ++ gap))

/-- The words that come before the designator of a declaration. -/
def MemberForm.leadIns : MemberForm → List (List String)
  | constant => [["constant"]]
  | arrayType | enumType | recordType => [["type"]]
  | function => [["function"], ["pure", "function"], ["impure", "function"]]
  | procedure => [["procedure"]]
  | subtype => [["subtype"]]

/-- The designator `d` stands in the line, as a whole and after the words of the form.  Only
functions have operators. -/
def DesignatorAt (form : MemberForm) (line d : List Char) : Prop :=
  ∃ words front rest, words ∈ form.leadIns ∧ LeadIn words front ∧ line = front ++ (d ++ rest) ∧
    (IsName d ∧ atWordEnd rest = true ∨ form = .function ∧ IsOperator d)

/-- The opening declares the parts into which the designator `d` of the line is cut at its commas.
This is the designator itself exactly if it has no comma.  The line has no other designator. -/
structure Opening.DeclaredBy (o : Opening MemberForm) (line d : List Char) : Prop where
  stands : DesignatorAt o.form line d
  only : ∀ d', DesignatorAt o.form line d' → d' = d
  cut : o.names = (pieces (· == ',') d).map strip
  length : o.names.length = d.count ',' + 1
  whole : o.names = [d] ↔ ',' ∉ d
  operator : ',' ∈ d → o.form = .function ∧ IsOperator d

/-! ### One designator only -/

/-- What comes after the first `n` words of a text and the white space after them. -/
def afterWords : Nat → List Char → List Char
  | 0, cs => skipBlanks cs
  | n + 1, cs => skipBlanks ((afterWords n cs).dropWhile isWord)

section Only

variable {words : List String} {front cs d d' rest rest' : List Char}

/-- After the words comes what begins with another character than white space. -/
theorem LeadIn.afterWords_eq (h : LeadIn words front) (hwords : ∀ w ∈ words, IsName w.toList)
    (hcs : ∀ c ∈ cs.head?, isBlank c = false) : afterWords words.length (front ++ cs) = cs := by
  induction h generalizing cs with
  | indent hgap => exact dropWhile_append_of_head? hgap hcs
  | @word words word front gap _ hgap hne ih =>
      have hword : IsName word.toList := hwords word (by simp)
      have hbefore := ih (fun w hw => hwords w (by simp [hw]))
        (hword.isBlank_of_head? (gap ++ cs))
      have heq : front ++ (word.toList ++ gap) ++ cs = front ++ (word.toList ++ (gap ++ cs)) := by
        simp
      rw [List.length_append, List.length_singleton, afterWords, heq, hbefore,
        Canonical.dropWhile_isWord hword.isWord (atWordEnd_gap hgap hne cs)]
      exact dropWhile_append_of_head? hgap hcs

/-- The first of the words is the first word of the line. -/
theorem LeadIn.firstWord_eq (h : LeadIn words front) (hwords : ∀ w ∈ words, IsName w.toList)
    {first : String} (hfirst : words.head? = some first)
    (hcs : ∀ c ∈ cs.head?, isBlank c = false) : firstWord (front ++ cs) = first := by
  induction h generalizing cs with
  | indent _ => cases hfirst
  | @word words word front gap h hgap hne ih =>
      have hword : IsName word.toList := hwords word (by simp)
      have hstart := hword.isBlank_of_head? (gap ++ cs)
      have heq : front ++ (word.toList ++ gap) ++ cs = front ++ (word.toList ++ (gap ++ cs)) := by
        simp
      rw [heq]
      cases words with
      | nil =>
          obtain rfl : word = first := by simpa using hfirst
          have hskip : skipBlanks (front ++ (word.toList ++ (gap ++ cs))) =
              word.toList ++ (gap ++ cs) :=
            h.afterWords_eq (by simp) hstart
          rw [firstWord, hskip,
            Canonical.takeWhile_isWord hword.isWord (atWordEnd_gap hgap hne cs),
            String.ofList_toList]
      | cons w more =>
          exact ih (fun x hx => hwords x (List.mem_append_left _ hx)) (by simpa using hfirst) hstart

/-- Neither a name nor an operator begins with white space. -/
theorem isBlank_of_designator (h : IsName d ∨ IsOperator d) (rest : List Char) :
    ∀ c ∈ (d ++ rest).head?, isBlank c = false := by
  rcases h with hname | ⟨w, rfl, -, -⟩
  · exact hname.isBlank_of_head? rest
  · intro c hc
    obtain rfl : '"' = c := by simpa using hc
    decide

/-- A name or an operator at the beginning of a text is the only one there. -/
theorem designator_eq (heq : d ++ rest = d' ++ rest')
    (h : IsName d ∧ atWordEnd rest = true ∨ IsOperator d)
    (h' : IsName d' ∧ atWordEnd rest' = true ∨ IsOperator d') : d = d' := by
  have hquote : ∀ {name w after after' : List Char}, IsName name →
      name ++ after ≠ '"' :: w ++ after' := by
    intro name w after after' hname hboth
    obtain ⟨c, name, rfl⟩ := List.exists_cons_of_ne_nil hname.nonempty
    obtain ⟨rfl, -⟩ := List.cons.inj hboth
    have hword := hname.isWord '"' (List.mem_cons_self ..)
    revert hword
    decide
  rcases h with ⟨hname, hend⟩ | ⟨w, rfl, -, hw⟩
  · rcases h' with ⟨hname', hend'⟩ | ⟨w', rfl, -, -⟩
    · exact (append_inj_of_head? heq hname.isWord ((atWordEnd_iff _).1 hend) hname'.isWord
        ((atWordEnd_iff _).1 hend')).1
    · exact absurd heq (hquote hname)
  · rcases h' with ⟨hname', -⟩ | ⟨w', rfl, -, hw'⟩
    · exact absurd heq.symm (hquote hname')
    · -- both operators end with the next quote
      have hinner : ∀ {v : List Char}, '"' ∉ v → ∀ c ∈ v, (c != '"') = true := by
        intro v hv c hc
        rw [bne_iff_ne]
        rintro rfl
        exact hv hc
      have htail : w ++ '"' :: rest = w' ++ '"' :: rest' := by simpa using heq
      rw [(append_inj_of_head? htail (hinner hw) (by simp) (hinner hw') (by simp)).1]

theorem isName_of_mem_leadIns {form : MemberForm} {words : List String}
    (hmem : words ∈ form.leadIns) : ∀ w ∈ words, IsName w.toList := by
  have hplain : ∀ w ∈ words, Canonical.isPlainWord w.toList = true := by
    revert words
    cases form <;> decide
  exact fun w hw => isName_of_isPlainWord (hplain w hw)

theorem exists_first_of_mem_leadIns {form : MemberForm} {words : List String}
    (hmem : words ∈ form.leadIns) : ∃ first, words.head? = some first := by
  have hne : ∀ words ∈ form.leadIns, words ≠ [] := by
    cases form <;> decide
  obtain ⟨first, more, rfl⟩ := List.exists_cons_of_ne_nil (hne words hmem)
  exact ⟨first, rfl⟩

/-- The words before a designator are told by the first of them. -/
theorem eq_of_mem_leadIns (form : MemberForm) :
    ∀ words ∈ form.leadIns, ∀ words' ∈ form.leadIns, words.head? = words'.head? →
      words = words' := by
  cases form <;> decide

/-- **A line has one designator** at most. -/
theorem DesignatorAt.unique {form : MemberForm} {line : List Char} (h : DesignatorAt form line d)
    (h' : DesignatorAt form line d') : d = d' := by
  obtain ⟨words, front, rest, hmem, hlead, rfl, hkind⟩ := h
  obtain ⟨words', front', rest', hmem', hlead', heq, hkind'⟩ := h'
  have hkind := hkind.imp_right And.right
  have hkind' := hkind'.imp_right And.right
  have hnames := isName_of_mem_leadIns hmem
  have hnames' := isName_of_mem_leadIns hmem'
  have hstart := isBlank_of_designator (hkind.imp_left And.left) rest
  have hstart' := isBlank_of_designator (hkind'.imp_left And.left) rest'
  obtain ⟨first, hfirst⟩ := exists_first_of_mem_leadIns hmem
  obtain ⟨first', hfirst'⟩ := exists_first_of_mem_leadIns hmem'
  -- both have the same first word, hence the same words before them
  obtain rfl : first = first' := by
    rw [← hlead.firstWord_eq hnames hfirst hstart, heq,
      hlead'.firstWord_eq hnames' hfirst' hstart']
  obtain rfl := eq_of_mem_leadIns form words hmem words' hmem' (hfirst.trans hfirst'.symm)
  have hrest : d ++ rest = d' ++ rest' := by
    rw [← hlead.afterWords_eq hnames hstart, heq, hlead'.afterWords_eq hnames' hstart']
  exact designator_eq hrest hkind hkind'

end Only

section Cutting

variable {φ : Type}

theorem length_pieces (p : Char → Bool) (cs : List Char) :
    (pieces p cs).length = cs.countP p + 1 := by
  induction cs with
  | nil => rfl
  | cons c cs ih =>
      rw [pieces_cons, List.countP_cons]
      cases hpieces : pieces p cs with
      | nil => exact absurd hpieces (pieces_ne_nil p cs)
      | cons piece more =>
          rw [hpieces] at ih
          rw [extendPieces]
          split <;> simp_all

theorem Opening.names_ofDesignator (form : φ) (d : List Char) :
    (ofDesignator form d).names = (pieces (· == ',') d).map strip := by
  rw [ofDesignator]
  split
  · next hnil => exact absurd (List.map_eq_nil_iff.1 hnil) (pieces_ne_nil _ _)
  · next heq => exact heq.symm

theorem comma_not_mem_of_isName {d : List Char} (h : IsName d) : ',' ∉ d := by
  intro hmem
  have hcomma := h.isComma_eq_false ',' hmem
  simp at hcomma

/-- Neither names nor operators begin or end with white space. -/
theorem strip_designator {d : List Char} (h : IsName d ∨ IsOperator d) : strip d = d := by
  rcases h with hname | ⟨w, rfl, -, -⟩
  · have hstrip := strip_gap_name allBlank_nil hname allBlank_nil
    simpa using hstrip
  · have hquote : isBlank '"' = false := by decide
    rw [strip, skipBlanks, List.dropWhile_cons_of_neg (by simp [hquote]), trimEnd,
      List.reverse_cons, List.reverse_append, List.reverse_singleton, List.singleton_append,
      List.cons_append, List.dropWhile_cons_of_neg (by simp [hquote])]
    simp

/-- **A designator** is cut at its commas. -/
theorem declaredBy_ofDesignator {form : MemberForm} {line d : List Char}
    (h : DesignatorAt form line d) : (Opening.ofDesignator form d).DeclaredBy line d := by
  have hlength : (Opening.ofDesignator form d).names.length = d.count ',' + 1 := by
    rw [Opening.names_ofDesignator, List.length_map, length_pieces, List.count]
  obtain ⟨words, front, rest, -, -, -, hkind⟩ := id h
  rw [← Opening.form_ofDesignator form d] at h
  refine ⟨h, fun d' h' => h'.unique h, Opening.names_ofDesignator _ _, hlength, ?_, ?_⟩
  · constructor
    · intro hwhole
      rw [hwhole, List.length_singleton] at hlength
      exact List.count_eq_zero.1 (by omega)
    · intro hcomma
      have hnone : ∀ c ∈ d, (c == ',') = false := by
        intro c hc
        rw [beq_eq_false_iff_ne]
        rintro rfl
        exact hcomma hc
      rw [Opening.names_ofDesignator, Canonical.pieces_of_forall hnone, List.map_singleton,
        strip_designator (hkind.imp And.left And.right)]
  · intro hcomma
    rw [Opening.form_ofDesignator]
    rcases hkind with ⟨hname, -⟩ | hoperator
    · exact absurd hcomma (comma_not_mem_of_isName hname)
    · exact hoperator

end Cutting

/-! ### Every line has one -/

section Lines

variable {word : String} {line cs name d rest : List Char}

/-- A name after a word that opens a declaration. -/
theorem designatorAt_of_identifier? {form : MemberForm} (hmem : [word] ∈ form.leadIns)
    (hword : Canonical.isPlainWord word.toList = true)
    (hkeyword : Token.keyword? word line = some cs)
    (hidentifier : Token.identifier? cs = some (name, rest)) : DesignatorAt form line name := by
  obtain ⟨hend, indent, hindent, rfl⟩ :=
    (Token.keyword?_eq_some_iff (isName_of_isPlainWord hword)).1 hkeyword
  obtain ⟨hname, hend', gap, hgap, rfl⟩ := Token.identifier?_eq_some_iff.1 hidentifier
  have hlead : LeadIn [word] (indent ++ (word.toList ++ gap)) :=
    (LeadIn.indent hindent).word hgap (gap_ne_nil hend hname)
  exact ⟨[word], _, rest, hmem, hlead, by simp, Or.inl ⟨hname, hend'⟩⟩

theorem designatorAt_of_headed? {form : MemberForm} (hmem : [word] ∈ form.leadIns)
    (hword : Canonical.isPlainWord word.toList = true) (h : headed? word line = some (name, cs)) :
    DesignatorAt form line name := by
  obtain ⟨before, after, hkeyword, hname, -⟩ := exists_of_headed? h
  exact designatorAt_of_identifier? hmem hword hkeyword hname

/-- An operator is taken off with both quotes. -/
theorem exists_of_operator? (h : operator? cs = some (d, rest)) :
    IsOperator d ∧ ∃ gap, AllBlank gap ∧ cs = gap ++ (d ++ rest) := by
  obtain ⟨gap, hgap, hcs⟩ := exists_gap cs
  rw [operator?] at h
  split at h
  · next tail htail =>
      have hsplit := List.takeWhile_append_dropWhile (p := (· != '"')) (l := tail)
      split at h
      · next c w after htake hdrop =>
          obtain ⟨rfl, rfl⟩ := Prod.mk.inj (Option.some.inj h)
          rw [htake, hdrop] at hsplit
          refine ⟨⟨c :: w, rfl, by simp, fun hmem => ?_⟩, gap, hgap, ?_⟩
          · rw [← htake] at hmem
            simpa using List.mem_takeWhile_imp hmem
          · rw [hcs, htail, ← hsplit]
            simp
      · cases h
  · cases h

/-- A name or an operator, with white space before it. -/
theorem exists_of_designator? (h : designator? cs = some (d, rest)) :
    ∃ gap, AllBlank gap ∧ gap ≠ [] ∧ cs = gap ++ (d ++ rest) ∧
      (IsName d ∧ atWordEnd rest = true ∨ IsOperator d) := by
  rw [designator?] at h
  split at h
  · next hblank =>
      have hne : ∀ {gap c tail}, cs = gap ++ c :: tail → isBlank c = false → gap ≠ [] := by
        rintro gap c tail rfl hc rfl
        rw [List.nil_append, Token.startsBlank, hc] at hblank
        cases hblank
      rcases Option.or_eq_some_iff.1 h with hname | ⟨-, hoperator⟩
      · obtain ⟨hname, hend, gap, hgap, hcs⟩ := Token.identifier?_eq_some_iff.1 hname
        obtain ⟨c, name, rfl⟩ := List.exists_cons_of_ne_nil hname.nonempty
        exact ⟨gap, hgap, hne hcs (isBlank_of_isWord (hname.isWord c (List.mem_cons_self ..))), hcs,
          Or.inl ⟨hname, hend⟩⟩
      · obtain ⟨hd, gap, hgap, hcs⟩ := exists_of_operator? hoperator
        refine ⟨gap, hgap, ?_, hcs, Or.inr hd⟩
        obtain ⟨w, rfl, -, -⟩ := hd
        exact hne hcs (by decide)
  · cases h

/-- After `pure` or `impure` the word `function` has white space before it. -/
theorem exists_leadIn_of_purity {purity : String} (hpurity : Canonical.isPlainWord purity.toList)
    (hkeyword : Token.keyword? purity line = some rest)
    (h : Token.keyword? "function" rest = some cs) :
    ∃ front, LeadIn [purity] front ∧ line = front ++ ("function".toList ++ cs) := by
  have hfunction : IsName "function".toList := isName_of_isPlainWord (by decide)
  obtain ⟨hend, indent, hindent, rfl⟩ :=
    (Token.keyword?_eq_some_iff (isName_of_isPlainWord hpurity)).1 hkeyword
  obtain ⟨-, gap, hgap, rfl⟩ := (Token.keyword?_eq_some_iff hfunction).1 h
  exact ⟨_, (LeadIn.indent hindent).word hgap (gap_ne_nil hend hfunction), by simp⟩

/-- The words before the designator of a function. -/
theorem exists_leadIn_of_function (h : Token.keyword? "function" (skipPurity line) = some cs) :
    ∃ words front, words ++ ["function"] ∈ MemberForm.function.leadIns ∧ LeadIn words front ∧
      line = front ++ ("function".toList ++ cs) := by
  rcases skipPurity_cases line with hline | hpure | himpure
  · rw [hline] at h
    obtain ⟨-, indent, hindent, rfl⟩ :=
      (Token.keyword?_eq_some_iff (isName_of_isPlainWord (by decide))).1 h
    exact ⟨[], indent, by decide, .indent hindent, rfl⟩
  · obtain ⟨front, hlead, hline⟩ := exists_leadIn_of_purity (by decide) hpure h
    exact ⟨["pure"], front, by decide, hlead, hline⟩
  · obtain ⟨front, hlead, hline⟩ := exists_leadIn_of_purity (by decide) himpure h
    exact ⟨["impure"], front, by decide, hlead, hline⟩

/-- **Every line that opens a member** has a designator, and all members but constants are declared
by it. -/
theorem OpensMember.exists_declaredBy {o : Opening MemberForm} (h : OpensMember line o)
    (hform : o.form ≠ .constant) : ∃ d, o.DeclaredBy line d := by
  cases h with
  | constant _ _ => exact absurd rfl hform
  | arrayType hhead _ | enumType hhead _ | recordType hhead _ | subtype hhead =>
      exact ⟨_, declaredBy_ofDesignator (designatorAt_of_headed? (by decide) (by decide) hhead)⟩
  | function hkeyword hdesignator _ =>
      obtain ⟨words, front, hmem, hlead, hline⟩ := exists_leadIn_of_function hkeyword
      obtain ⟨gap, hgap, hne, hcs, hkind⟩ := exists_of_designator? hdesignator
      refine ⟨_, declaredBy_ofDesignator ⟨_, _, _, hmem, hlead.word hgap hne, ?_,
        hkind.imp_right fun hd => ⟨rfl, hd⟩⟩⟩
      rw [hline, hcs]
      simp
  | procedure hkeyword hname _ =>
      exact ⟨_, declaredBy_ofDesignator
        (designatorAt_of_identifier? (by decide) (by decide) hkeyword hname)⟩

end Lines

/-! ### Members of one line -/

/-- The lines of the header of a package that no member encloses. -/
def Package.openLines (p : Package) (data : Bytes) : List SourceLine :=
  (p.headerLines data).filter fun l => p.members.all fun m => !m.declaration.encloses l

/-- The members of a package that are declared on the line. -/
def Package.declaredOn (p : Package) (l : SourceLine) : List Member :=
  p.members.filter fun m => m.declaration.codeStart = l.start

section Lines

variable {filepath library : String} {data : Bytes} {file : FileScan} {p : Package}

theorem Package.pairwise_openLines (p : Package) (data : Bytes) :
    (p.openLines data).Pairwise fun a b => a.start < b.start := by
  have hcode : (codeLines data).Pairwise fun a b => a.start < b.start := by
    refine (pairwise_codeLines data).imp_of_mem fun {a b} ha _ hle => ?_
    have hlt := start_lt_stop_of_mem_codeLines ha
    omega
  have hplaces : (codePlaces data).Pairwise fun a b => a.start < b.start := by
    rw [← map_place_codeLines, List.pairwise_map]
    exact hcode
  exact (hplaces.filter _).filter _

/-- **The members** of a package are those that these lines open. -/
theorem headings_openLines (h : (scanSource filepath library data).result = .ok file)
    (hp : Symbol.package p ∈ file.units) :
    (p.members.map Member.heading).Perm
      ((p.openLines data).flatMap (memberHeadings p.declaration.qualifiedName)) := by
  obtain ⟨items, hlines, hunits⟩ := exists_items_of_scanSource h
  have hord := ordered_codeLines data
  rw [hlines] at hord
  rw [hunits] at hp
  obtain ⟨b, hb, rfl⟩ := Scan.FileItem.exists_package_of_mem hp
  obtain ⟨as, bs, hsplit⟩ := Scan.FileItem.exists_split_of_package hb
  rw [hsplit] at hord
  have hitems := (ordered_append.1 (ordered_append.1 hord).1).2.1.cons.2.1
  rw [Package.openLines, headerLines_package _ hlines hb]
  simp only [Scan.Header.package, Package.all_members_ofMembers, Package.declaration_ofMembers]
  rw [show (b.toHeader.declaration (.ofFile filepath library) b.last.stop).qualifiedName =
    (b.toHeader.declaration (.ofFile filepath library) b.first.stop).qualifiedName from rfl,
    ← headings_members _ hitems]
  exact (Package.members_ofMembers_perm _ _).map _

theorem codeStart_of_mem_memberHeadings {scope : String} {l : SourceLine} {x : Heading}
    (h : x ∈ memberHeadings scope l) : x.codeStart = l.start := by
  rw [memberHeadings] at h
  split at h
  · cases h
  · obtain ⟨name, -, rfl⟩ := List.mem_map.1 h
    rfl

/-- Where lines begin at different places, the headings of one of them can be picked out. -/
theorem filter_memberHeadings {ls : List SourceLine} {l : SourceLine} (scope : String)
    (hls : ls.Pairwise fun a b => a.start < b.start) (hl : l ∈ ls) :
    ((ls.flatMap (memberHeadings scope)).filter fun x : Heading => x.codeStart = l.start) =
      memberHeadings scope l := by
  obtain ⟨as, bs, rfl⟩ := List.append_of_mem hl
  obtain ⟨-, hbs, has⟩ := List.pairwise_append.1 hls
  have hother : ∀ ls : List SourceLine, (∀ x ∈ ls, x.start ≠ l.start) →
      ((ls.flatMap (memberHeadings scope)).filter fun x : Heading => x.codeStart = l.start) =
        [] := by
    intro ls hne
    rw [List.filter_eq_nil_iff]
    intro x hx
    obtain ⟨a, ha, hx⟩ := List.mem_flatMap.1 hx
    rw [codeStart_of_mem_memberHeadings hx]
    simpa using hne a ha
  have hself : ((memberHeadings scope l).filter fun x : Heading => x.codeStart = l.start) =
      memberHeadings scope l := by
    rw [List.filter_eq_self]
    intro x hx
    simpa using codeStart_of_mem_memberHeadings hx
  rw [List.flatMap_append, List.flatMap_cons, List.filter_append, List.filter_append, hself,
    hother as fun a ha => (has a ha l (List.mem_cons_self ..)).ne,
    hother bs fun b hb => ((List.pairwise_cons.1 hbs).1 b hb).ne', List.nil_append,
    List.append_nil]

/-- **The members that a line declares** in a scanned file are one for each name. -/
theorem headings_declaredOn (h : (scanSource filepath library data).result = .ok file)
    (hp : Symbol.package p ∈ file.units) {l : SourceLine} (hl : l ∈ p.openLines data) :
    ((p.declaredOn l).map Member.heading).Perm
      (memberHeadings p.declaration.qualifiedName l) := by
  have hfilter := (headings_openLines h hp).filter fun x : Heading => x.codeStart = l.start
  rwa [filter_memberHeadings _ (p.pairwise_openLines data) hl, List.filter_map] at hfilter

/-! ### Repeated names -/

/-- A file with a repeated name has a line that repeats it. -/
theorem exists_line_of_duplicate {path name scope : String} {number : Int}
    (h : (scanSource filepath library data).result = .error (.duplicate path name number scope)) :
    ∃ l ∈ codePlaces data, ∃ o, (l.number : Int) = number ∧ memberOpening? l.line = some o ∧
      FirstRepeat o.names name.toList := by
  have hn := numbered_codeLines data
  rw [result_scanSource] at h
  rcases Scan.complete_or_cutOff_or_repeats (codeLines data) with hc | ⟨u, hu⟩ | ⟨g, b, x, hr⟩
  · obtain ⟨file, hfile⟩ := Scan.result_of_complete (t := .ofFile filepath library) hc hn
    rw [hfile] at h
    cases h
  · rw [Scan.result_of_cutOff hu hn] at h
    cases h
  · rw [Scan.result_of_repeats hr hn, Scan.MemberBlock.error] at h
    obtain ⟨-, rfl, rfl, -⟩ := Error.duplicate.inj (Except.error.inj h)
    obtain ⟨items, rest, hlines, -, -, hrepeat⟩ := hr
    refine ⟨b.first.place, ?_, b.opening, rfl, b.opens, by rwa [String.toList_ofList]⟩
    rw [← map_place_codeLines, hlines]
    exact List.mem_map_of_mem (by simp [b.first_mem_lines])

/-- A declaration that repeats a name has a comma in its designator. -/
theorem Opening.DeclaredBy.comma_of_firstRepeat {o : Opening MemberForm} {line d x : List Char}
    (h : o.DeclaredBy line d) (hx : FirstRepeat o.names x) : ',' ∈ d := by
  by_contra hcomma
  obtain ⟨as, bs, hnames, -, hmem⟩ := hx
  rw [h.whole.2 hcomma] at hnames
  have hlength := congrArg List.length hnames
  obtain ⟨a, as, rfl⟩ := List.exists_cons_of_ne_nil (List.ne_nil_of_mem hmem)
  simp at hlength

end Lines

/-- **What declarations other than constants contribute.**  A line that opens such a member has one
designator, which is a name or, in a function, an operator in double quotes.  What is declared are
the parts between the commas of the designator.  So it is the designator as a whole exactly if there
is no comma in it, which can fail for operators only.  In a file that is scanned, the line adds one
member more to its package than its designator has commas; without a comma, this is one member with
the designator as its name.  If a file is given up for a repeated name, then the line that repeats
it declares constants, or a function by an operator with a comma. -/
theorem designators_declared (line : List Char) (filepath library : String) (data : Bytes) :
    (∀ o, memberOpening? line = some o → o.form ≠ .constant → ∃ d, o.DeclaredBy line d) ∧
    (∀ file, (scanSource filepath library data).result = .ok file →
      ∀ p, Symbol.package p ∈ file.units → ∀ l ∈ p.openLines data, ∀ o,
      memberOpening? l.line = some o → o.form ≠ .constant →
      ∃ d, o.DeclaredBy l.line d ∧ (p.declaredOn l).length = d.count ',' + 1 ∧
        (',' ∉ d → (p.declaredOn l).map Member.heading =
          [l.heading o.form.category.kind o.form.typeForm p.declaration.qualifiedName d])) ∧
    ∀ path name number scope,
      (scanSource filepath library data).result = .error (.duplicate path name number scope) →
      ∃ l ∈ codePlaces data, ∃ o, (l.number : Int) = number ∧ memberOpening? l.line = some o ∧
        FirstRepeat o.names name.toList ∧
        (o.form ≠ .constant →
          ∃ d, o.DeclaredBy l.line d ∧ o.form = .function ∧ IsOperator d ∧ ',' ∈ d) := by
  refine ⟨fun o ho hform => ?_, ?_, ?_⟩
  · exact (opensMember_of_memberOpening? ho).exists_declaredBy hform
  · intro file h p hp l hl o ho hform
    obtain ⟨d, hd⟩ := (opensMember_of_memberOpening? ho).exists_declaredBy hform
    have hheadings := headings_declaredOn h hp hl
    simp only [memberHeadings, ho] at hheadings
    refine ⟨d, hd, ?_, fun hcomma => ?_⟩
    · have hlength := hheadings.length_eq
      rwa [List.length_map, List.length_map, hd.length] at hlength
    · rw [hd.whole.2 hcomma, List.map_singleton] at hheadings
      exact hheadings.eq_singleton
  · intro path name number scope h
    obtain ⟨l, hl, o, hnumber, ho, hrepeat⟩ := exists_line_of_duplicate h
    refine ⟨l, hl, o, hnumber, ho, hrepeat, fun hform => ?_⟩
    obtain ⟨d, hd⟩ := (opensMember_of_memberOpening? ho).exists_declaredBy hform
    have hcomma := hd.comma_of_firstRepeat hrepeat
    exact ⟨d, hd, (hd.operator hcomma).1, (hd.operator hcomma).2, hcomma⟩

/-- A function with an operator, in a file that is scanned, and a file that is given up for a
constant that is declared twice. -/
theorem designators_declared_sample :
    let line := "  impure function \"+\" (a, b : t) return t;".toList
    let scanned := ("package p is\n  function \"*\" (a, b : t) return t;\n" ++
      "  constant c, d : t;\nend p;\n").toUTF8.data.toList
    let refused := "package p is\n  constant c, d, c : t;\n".toUTF8.data.toList
    (∃ d, (⟨.function, ['"', '+', '"'], []⟩ : Opening MemberForm).DeclaredBy line d) ∧
    (∃ file, (scanSource "f.vhd" "work" scanned).result = .ok file ∧
      file.declarations.length = 4 ∧
      ∀ p, Symbol.package p ∈ file.units → ∀ l ∈ p.openLines scanned, ∀ o,
        memberOpening? l.line = some o → o.form ≠ .constant →
        ∃ d, o.DeclaredBy l.line d ∧ (p.declaredOn l).length = d.count ',' + 1) ∧
    (scanSource "f.vhd" "work" refused).result = .error (.duplicate "f.vhd" "c" 2 "work.p") ∧
    ∃ l ∈ codePlaces refused, ∃ o, (l.number : Int) = 2 ∧ memberOpening? l.line = some o ∧
      FirstRepeat o.names "c".toList := by
  intro line scanned refused
  obtain ⟨hline, hscanned, -⟩ := designators_declared line "f.vhd" "work" scanned
  obtain ⟨-, -, hduplicate⟩ := designators_declared line "f.vhd" "work" refused
  have hcount : (scanSource "f.vhd" "work" scanned).result.toOption.map
      (fun file => file.declarations.length) = some 4 := by
    decide +kernel
  obtain ⟨file, h, hcount⟩ := exists_ok_of_toOption hcount
  have hrefused : (scanSource "f.vhd" "work" refused).result =
      .error (.duplicate "f.vhd" "c" 2 "work.p") :=
    eq_error_of_failure? (by decide +kernel)
  refine ⟨hline _ (by decide +kernel) (by decide), ⟨file, h, hcount, ?_⟩, hrefused, ?_⟩
  · intro p hp l hl o ho hform
    obtain ⟨d, hd, hlength, -⟩ := hscanned file h p hp l hl o ho hform
    exact ⟨d, hd, hlength⟩
  · obtain ⟨l, hl, o, hnumber, ho, hrepeat, -⟩ := hduplicate _ _ _ _ hrefused
    exact ⟨l, hl, o, hnumber, ho, hrepeat⟩

/-- An operator with a comma between its quotes is not declared as one name.  If the parts on both
sides of the comma are the same, the file is given up. -/
theorem operator_cut_at_comma :
    let line := "  function \",\" (a, b : t) return t;"
    let d := ['"', ',', '"']
    let source := "package p is\n" ++ line ++ "\nend p;\n"
    IsOperator d ∧ DesignatorAt .function line.toList d ∧
    memberOpening? line.toList = some ⟨.function, ['"'], [['"']]⟩ ∧
    (scanSource "f.vhd" "work" source.toUTF8.data.toList).result =
      .error (.duplicate "f.vhd" (String.ofList ['"']) 2 "work.p") := by
  intro line d source
  have hd : IsOperator d := ⟨[','], rfl, by simp, by decide⟩
  have hindent : AllBlank [' ', ' '] := List.all_eq_true.1 (by decide)
  have hgap : AllBlank [' '] := List.all_eq_true.1 (by decide)
  have hlead : LeadIn ["function"] ([' ', ' '] ++ ("function".toList ++ [' '])) :=
    (LeadIn.indent hindent).word hgap (by simp)
  refine ⟨hd, ⟨_, _, " (a, b : t) return t;".toList, by decide, hlead, by decide +kernel,
    Or.inr ⟨rfl, hd⟩⟩, by decide +kernel, ?_⟩
  exact eq_error_of_failure? (by decide +kernel)

end VhdlCatalog
