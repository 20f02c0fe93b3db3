import VhdlCatalog.Proofs.ClosingRule
import VhdlCatalog.Proofs.Readers

/-!
**Every line is of one kind.**

Opening lines are looked for one form after another, and the first form that fits is taken.  The
order does not matter, since a line fits one form at most.  It is told by the words it begins with:
its first word and, for a type, the first word after `type name is`.  No form shares these words
with another, and none of them begins with `end`.  So a line that closes a package is never taken
for a member, although members are looked for first.

A constant is the only member with a list of names.  The list is as long as it can be where it
stands.

Main definitions:

* `VhdlCatalog.openingWords` — the words that a line is told by;
* `VhdlCatalog.MemberForm.leads`, `VhdlCatalog.UnitForm.leads` — the words that lines of a form
  begin with.

Main results:

* `VhdlCatalog.OpensMember.openingWords_mem`, `VhdlCatalog.OpensUnit.openingWords_mem` — a line that
  opens a form begins with its words;
* `VhdlCatalog.findSome?_eq_of_perm` — readers that exclude each other may be tried in any order;
* `VhdlCatalog.memberOpening?_constant_iff` — **the lines that declare constants**;
* `VhdlCatalog.opening_lines_told_apart` — **no line fits two forms**.
-/

set_option relaxedAutoImplicit false
set_option autoImplicit false

namespace VhdlCatalog

open Source Text

/-! ### Words that lines begin with -/

/-- The first word after white space, or nothing if another character comes there. -/
def firstWord (cs : List Char) : String := String.ofList ((skipBlanks cs).takeWhile isWord)

/-- The first word of a line and, in a type declaration, the first word after its head. -/
def openingWords (line : List Char) : List String :=
  firstWord line :: ((headed? "type" line).map fun head => firstWord head.2).toList

section Words

variable {word : String} {line cs rest : List Char}

theorem firstWord_of_keyword? (hword : Canonical.isPlainWord word.toList = true)
    (h : Token.keyword? word cs = some rest) : firstWord cs = word := by
  have hname := isName_of_isPlainWord hword
  obtain ⟨hend, gap, hgap, rfl⟩ := (Token.keyword?_eq_some_iff hname).1 h
  rw [firstWord, skipBlanks_gap_name hgap hname,
    Canonical.takeWhile_isWord hname.isWord hend, String.ofList_toList]

theorem firstWord_of_hasKeyword (hword : Canonical.isPlainWord word.toList = true)
    (h : Token.hasKeyword word cs = true) : firstWord cs = word := by
  obtain ⟨rest, hrest⟩ := Option.isSome_iff_exists.1 h
  exact firstWord_of_keyword? hword hrest

theorem firstWord_of_mark? {c : Char} (hblank : isBlank c = false) (hword : isWord c = false)
    (h : Token.mark? c cs = some rest) : firstWord cs = "" := by
  obtain ⟨gap, hgap, rfl⟩ := (Token.mark?_eq_some_iff hblank).1 h
  have hskip : skipBlanks (gap ++ c :: rest) = c :: rest :=
    dropWhile_append_of_head? hgap (by simpa using hblank)
  rw [firstWord, hskip, List.takeWhile_cons_of_neg (by simp [hword]), String.ofList_nil]

/-- A line that does not begin with `type` is told by its first word alone. -/
theorem openingWords_of_keyword? (hword : Canonical.isPlainWord word.toList = true)
    (hne : word ≠ "type") (h : Token.keyword? word line = some rest) :
    openingWords line = [word] := by
  have hfirst := firstWord_of_keyword? hword h
  have hnone : headed? "type" line = none := by
    refine Option.eq_none_iff_forall_ne_some.2 fun head hhead => ?_
    obtain ⟨before, after, hkeyword, -, -⟩ := exists_of_headed? hhead
    rw [firstWord_of_keyword? (by decide) hkeyword] at hfirst
    exact hne hfirst.symm
  rw [openingWords, hfirst, hnone]
  rfl

/-- A line with the head of a type is told by what comes after it, too. -/
theorem openingWords_of_type {name : List Char} (h : headed? "type" line = some (name, cs)) :
    openingWords line = ["type", firstWord cs] := by
  obtain ⟨before, after, hkeyword, -, -⟩ := exists_of_headed? h
  rw [openingWords, firstWord_of_keyword? (by decide) hkeyword, h]
  rfl

theorem openingWords_of_headed? {name : List Char}
    (hword : Canonical.isPlainWord word.toList = true) (hne : word ≠ "type")
    (h : headed? word line = some (name, cs)) : openingWords line = [word] := by
  obtain ⟨before, after, hkeyword, -, -⟩ := exists_of_headed? h
  exact openingWords_of_keyword? hword hne hkeyword

theorem openingWords_of_startsEnd (h : startsEnd line = true) : openingWords line = ["end"] := by
  obtain ⟨rest, hrest⟩ := Option.isSome_iff_exists.1 h
  exact openingWords_of_keyword? (by decide) (by decide) hrest

end Words

/-! ### Forms -/

/-- The words that a line can be told by if it opens a unit of the form. -/
def UnitForm.leads : UnitForm → List (List String)
  | entity => [["entity"]]
  | package => [["package"]]

/-- The words that a line can be told by if it opens a member of the form.  An enumeration goes on
with a parenthesis where other types have a word. -/
def MemberForm.leads : MemberForm → List (List String)
  | constant => [["constant"]]
  | arrayType => [["type", "array"]]
  | enumType => [["type", ""]]
  | recordType => [["type", "record"]]
  | function => [["function"], ["pure"], ["impure"]]
  | procedure => [["procedure"]]
  | subtype => [["subtype"]]

theorem UnitForm.eq_of_mem_leads {form form' : UnitForm} {words : List String}
    (h : words ∈ form.leads) (h' : words ∈ form'.leads) : form = form' := by
  cases form <;> cases form' <;> simp_all [leads]

theorem MemberForm.eq_of_mem_leads {form form' : MemberForm} {words : List String}
    (h : words ∈ form.leads) (h' : words ∈ form'.leads) : form = form' := by
  cases form <;> cases form' <;> simp_all [leads]

theorem MemberForm.end_not_mem_leads (form : MemberForm) : ["end"] ∉ form.leads := by
  cases form <;> decide

section Forms

variable {line : List Char}

/-- **A line that opens a unit** begins with the words of its form. -/
theorem OpensUnit.openingWords_mem {o : Opening UnitForm} (h : OpensUnit line o) :
    openingWords line ∈ o.form.leads := by
  cases h with
  | entity hhead | package hhead _ =>
      rw [openingWords_of_headed? (by decide) (by decide) hhead, Opening.form_ofDesignator]
      exact List.mem_singleton.2 rfl

theorem openingWords_mem_of_function {cs : List Char}
    (h : Token.keyword? "function" (skipPurity line) = some cs) :
    openingWords line ∈ MemberForm.function.leads := by
  rcases skipPurity_cases line with hline | hpure | himpure
  · rw [hline] at h
    rw [openingWords_of_keyword? (by decide) (by decide) h]
    decide
  · rw [openingWords_of_keyword? (by decide) (by decide) hpure]
    decide
  · rw [openingWords_of_keyword? (by decide) (by decide) himpure]
    decide

/-- **A line that opens a member** begins with the words of its form. -/
theorem OpensMember.openingWords_mem {o : Opening MemberForm} (h : OpensMember line o) :
    openingWords line ∈ o.form.leads := by
  cases h with
  | constant hkeyword _ =>
      rw [openingWords_of_keyword? (by decide) (by decide) hkeyword]
      exact List.mem_singleton.2 rfl
  | arrayType hhead hsign | recordType hhead hsign =>
      rw [openingWords_of_type hhead, firstWord_of_hasKeyword (by decide) hsign,
        Opening.form_ofDesignator]
      exact List.mem_singleton.2 rfl
  | enumType hhead hsign =>
      obtain ⟨rest, hrest⟩ := Option.isSome_iff_exists.1 hsign
      rw [openingWords_of_type hhead, firstWord_of_mark? (by decide) (by decide) hrest,
        Opening.form_ofDesignator]
      exact List.mem_singleton.2 rfl
  | function hkeyword _ _ =>
      rw [Opening.form_ofDesignator]
      exact openingWords_mem_of_function hkeyword
  | procedure hkeyword _ _ =>
      rw [openingWords_of_keyword? (by decide) (by decide) hkeyword, Opening.form_ofDesignator]
      exact List.mem_singleton.2 rfl
  | subtype hhead =>
      rw [openingWords_of_headed? (by decide) (by decide) hhead, Opening.form_ofDesignator]
      exact List.mem_singleton.2 rfl

/-- No line that opens a member begins with `end`. -/
theorem OpensMember.startsEnd_eq_false {o : Opening MemberForm} (h : OpensMember line o) :
    startsEnd line = false := by
  refine Bool.eq_false_iff.2 fun hend => o.form.end_not_mem_leads ?_
  rw [← openingWords_of_startsEnd hend]
  exact h.openingWords_mem

theorem memberOpening?_of_startsEnd (h : startsEnd line = true) : memberOpening? line = none := by
  refine Option.eq_none_iff_forall_ne_some.2 fun o ho => ?_
  rw [(opensMember_of_memberOpening? ho).startsEnd_eq_false] at h
  cases h

end Forms

/-! ### Any order -/

section Order

variable {α β : Type} {f : α → Option β} {l l' : List α} {a : α} {b : β}

/-- Distinct readers exclude each other if no two of them accept. -/
theorem pairwise_eq_none_or (hnodup : l.Nodup)
    (h : ∀ a a' b b', f a = some b → f a' = some b' → a = a') :
    l.Pairwise fun a a' => f a = none ∨ f a' = none := by
  refine hnodup.imp fun {a a'} hne => ?_
  cases hb : f a with
  | none => exact Or.inl rfl
  | some b =>
      cases hb' : f a' with
      | none => exact Or.inr rfl
      | some b' => exact absurd (h a a' b b' hb hb') hne

/-- **Readers that exclude each other** find the same in every order. -/
theorem findSome?_eq_of_perm (hperm : l.Perm l')
    (h : l.Pairwise fun a a' => f a = none ∨ f a' = none) : l.findSome? f = l'.findSome? f := by
  induction hperm with
  | nil => rfl
  | cons a _ ih => rw [List.findSome?_cons, List.findSome?_cons, ih (List.pairwise_cons.1 h).2]
  | swap a a' l =>
      have hexcludes : f a' = none ∨ f a = none :=
        (List.pairwise_cons.1 h).1 a (List.mem_cons_self ..)
      simp only [List.findSome?_cons]
      rcases hexcludes with hnone | hnone
      · rw [hnone]
      · rw [hnone]
  | trans hperm _ ih ih' =>
      have h' := (hperm.pairwise_iff fun hexcludes => hexcludes.symm).1 h
      rw [ih h, ih' h']

/-- The one reader that accepts is found. -/
theorem findSome?_eq_some_of_pairwise (h : l.Pairwise fun a a' => f a = none ∨ f a' = none)
    (ha : a ∈ l) (hb : f a = some b) : l.findSome? f = some b := by
  -- it may as well be the first one
  obtain ⟨before, after, rfl⟩ := List.append_of_mem ha
  rw [findSome?_eq_of_perm List.perm_middle h, List.findSome?_cons, hb]

end Order

section Openings

variable {line : List Char}

/-- **No line opens two units.** -/
theorem unitOpenings_pairwise (line : List Char) :
    unitOpenings.Pairwise fun opening opening' => opening line = none ∨ opening' line = none := by
  rw [UnitForm.unitOpenings_eq, List.pairwise_map]
  refine pairwise_eq_none_or (f := fun form : UnitForm => form.opening? line) (by decide) ?_
  intro form form' o o' ho ho'
  obtain ⟨hopens, rfl⟩ := UnitForm.opening?_eq_some_iff.1 ho
  obtain ⟨hopens', rfl⟩ := UnitForm.opening?_eq_some_iff.1 ho'
  exact UnitForm.eq_of_mem_leads hopens.openingWords_mem hopens'.openingWords_mem

/-- **No line opens two members.** -/
theorem memberOpenings_pairwise (line : List Char) :
    memberOpenings.Pairwise fun opening opening' => opening line = none ∨ opening' line = none := by
  rw [MemberForm.memberOpenings_eq, List.pairwise_map]
  refine pairwise_eq_none_or (f := fun form : MemberForm => form.opening? line) (by decide) ?_
  intro form form' o o' ho ho'
  obtain ⟨hopens, rfl⟩ := MemberForm.opening?_eq_some_iff.1 ho
  obtain ⟨hopens', rfl⟩ := MemberForm.opening?_eq_some_iff.1 ho'
  exact MemberForm.eq_of_mem_leads hopens.openingWords_mem hopens'.openingWords_mem

/-- What is found is what the rules say. -/
theorem memberOpening?_eq_some_iff {o : Opening MemberForm} :
    memberOpening? line = some o ↔ OpensMember line o := by
  refine ⟨opensMember_of_memberOpening?, fun h => ?_⟩
  have hmem : o.form.opening? ∈ memberOpenings := by
    rw [MemberForm.memberOpenings_eq]
    exact List.mem_map_of_mem (by cases o.form <;> decide)
  exact findSome?_eq_some_of_pairwise (memberOpenings_pairwise line) hmem
    (MemberForm.opening?_eq_some_iff.2 ⟨h, rfl⟩)

/-! ### Constants -/

/-- Only the word `constant` opens constants. -/
theorem OpensMember.exists_of_constant {o : Opening MemberForm} (h : OpensMember line o)
    (hform : o.form = .constant) :
    ∃ cs name rest, Token.keyword? "constant" line = some cs ∧
      Token.identifier? cs = some (name, rest) ∧
      o = ⟨.constant, name, Token.moreIdentifiers rest⟩ := by
  cases h with
  | constant hkeyword hname => exact ⟨_, _, _, hkeyword, hname, rfl⟩
  | _ =>
      rw [Opening.form_ofDesignator] at hform
      cases hform

/-- **The lines that declare constants**: their names are the longest list after the word
`constant`. -/
theorem memberOpening?_constant_iff {name : List Char} {others : List (List Char)} :
    memberOpening? line = some ⟨.constant, name, others⟩ ↔
      ∃ indent gap text rest, line = indent ++ ("constant".toList ++ (gap ++ (text ++ rest))) ∧
        AllBlank indent ∧ AllBlank gap ∧ gap ≠ [] ∧ LongestList (name :: others) text rest := by
  have hconstant : IsName "constant".toList := isName_of_isPlainWord (by decide)
  rw [memberOpening?_eq_some_iff]
  constructor
  · intro h
    obtain ⟨cs, name', rest', hkeyword, hidentifier, ho⟩ := h.exists_of_constant rfl
    obtain ⟨-, rfl, rfl⟩ := Opening.mk.inj ho
    obtain ⟨hend, indent, hindent, rfl⟩ := (Token.keyword?_eq_some_iff hconstant).1 hkeyword
    obtain ⟨hname, hend', gap, hgap, rfl⟩ := Token.identifier?_eq_some_iff.1 hidentifier
    obtain ⟨text, rest, heq, hlongest⟩ := Token.exists_longestList hname hend'
    exact ⟨indent, gap, text, rest, by rw [heq], hindent, hgap, gap_ne_nil hend hname, hlongest⟩
  · rintro ⟨indent, gap, text, rest, rfl, hindent, hgap, hne, hlongest⟩
    obtain ⟨first, more, hfirst, htext⟩ := hlongest.list.exists_name
    have hend : atWordEnd (gap ++ (text ++ rest)) = true := atWordEnd_gap hgap hne _
    have hkeyword : Token.keyword? "constant"
        (indent ++ ("constant".toList ++ (gap ++ (text ++ rest)))) = some (gap ++ (text ++ rest)) :=
      (Token.keyword?_eq_some_iff hconstant).2 ⟨hend, indent, hindent, rfl⟩
    obtain ⟨name', rest', hname⟩ := Token.exists_identifier? hgap hfirst (more ++ rest)
    rw [← List.append_assoc first, ← htext] at hname
    obtain ⟨hname', hend', gap', hgap', heq⟩ := Token.identifier?_eq_some_iff.1 hname
    obtain ⟨text', rest'', heq', hlongest'⟩ := Token.exists_longestList hname' hend'
    obtain ⟨rfl, htail⟩ := append_inj_of_head? heq hgap (hlongest.list.isBlank_of_head? rest) hgap'
      (hname'.isBlank_of_head? rest')
    obtain ⟨rfl, rfl⟩ := List.cons.inj (hlongest.names_eq hlongest' (htail.trans heq'))
    exact .constant hkeyword hname

end Openings

/-! ### Lines told apart -/

/-- The line is told apart from all lines of other forms. -/
structure ToldApart (line : List Char) : Prop where
  /-- The line opens a unit in one way at most. -/
  units : unitOpenings.Pairwise fun opening opening' => opening line = none ∨ opening' line = none
  /-- The line opens a member in one way at most. -/
  members : memberOpenings.Pairwise fun opening opening' =>
    opening line = none ∨ opening' line = none
  /-- The ways in which a unit can open may be tried in any order. -/
  unitOrder : ∀ table : List (List Char → Option (Opening UnitForm)), table.Perm unitOpenings →
    (table.findSome? fun opening => opening line) = unitOpening? line
  /-- The ways in which a member can open may be tried in any order. -/
  memberOrder : ∀ table : List (List Char → Option (Opening MemberForm)),
    table.Perm memberOpenings → (table.findSome? fun opening => opening line) = memberOpening? line
  /-- No way in which a member can open accepts a line that begins with `end`. -/
  notEnd : ∀ opening ∈ memberOpenings, (opening line).isSome = true → startsEnd line = false
  /-- A line that closes a package is not taken for a member: the package ends with it. -/
  closes : ∀ (t : Scan.Target) (s : Scan.Progress) (p : Package) (l : CodeLine), l.line = line →
    s.phase = .inPackage p → closesPackage p.declaration.name.toList l = true →
    (Scan.step t s l).phase = .outside ∧
    (Scan.step t s l).units = s.units ++
      [.package { p with declaration := { p.declaration with codeStop := l.stop } }]
  /-- Names of constants are words. -/
  names : ∀ o, memberOpening? line = some o → o.form = .constant → ∀ name ∈ o.names, IsName name
  /-- A constant is declared where the word `constant` comes first, then white space and a name.
  Its names are the longest list that stands there. -/
  constant : ∀ name others, memberOpening? line = some ⟨.constant, name, others⟩ ↔
    ∃ indent gap text rest, line = indent ++ ("constant".toList ++ (gap ++ (text ++ rest))) ∧
      AllBlank indent ∧ AllBlank gap ∧ gap ≠ [] ∧ LongestList (name :: others) text rest

theorem startsEnd_eq_false_of_mem {opening : List Char → Option (Opening MemberForm)}
    {line : List Char} (hmem : opening ∈ memberOpenings) (h : (opening line).isSome = true) :
    startsEnd line = false := by
  rw [MemberForm.memberOpenings_eq] at hmem
  obtain ⟨form, -, rfl⟩ := List.mem_map.1 hmem
  obtain ⟨o, ho⟩ := Option.isSome_iff_exists.1 h
  exact (MemberForm.opensMember_of_opening? ho).1.startsEnd_eq_false

/-- A package ends with a line that closes it. -/
theorem Scan.step_of_closesPackage (t : Target) {s : Progress} {p : Package} {l : CodeLine}
    (hphase : s.phase = .inPackage p)
    (hcloses : closesPackage p.declaration.name.toList l = true) :
    (step t s l).phase = .outside ∧
    (step t s l).units = s.units ++
      [.package { p with declaration := { p.declaration with codeStop := l.stop } }] := by
  have hend : startsEnd l.line = true := by
    rw [closesPackage, Bool.and_eq_true] at hcloses
    exact hcloses.1
  have hnone : memberOpening? l.line = none := memberOpening?_of_startsEnd hend
  have hstep : step t s l = packageLine s p l := by
    simp only [step, hphase, hnone]
  rw [hstep, packageLine, if_pos (by simpa [Construct.closing] using hcloses)]
  exact ⟨rfl, rfl⟩

/-- **No line fits two forms.**  Of the ways in which a unit can open at most one accepts a line,
and so of the ways in which a member can; so they may be tried in any order.  A line that closes a
package is never taken for a member.  The names of a constant are those of the longest list of names
after its first word. -/
theorem opening_lines_told_apart (line : List Char) : ToldApart line where
  units := unitOpenings_pairwise line
  members := memberOpenings_pairwise line
  unitOrder := by
    intro table hperm
    exact (findSome?_eq_of_perm hperm.symm (unitOpenings_pairwise line)).symm
  memberOrder := by
    intro table hperm
    exact (findSome?_eq_of_perm hperm.symm (memberOpenings_pairwise line)).symm
  notEnd := fun opening hmem h => startsEnd_eq_false_of_mem hmem h
  closes := by
    rintro t s p l rfl hphase hcloses
    exact Scan.step_of_closesPackage t hphase hcloses
  names := by
    rintro ⟨form, name, others⟩ ho rfl
    obtain ⟨-, -, text, rest, -, -, -, -, hlongest⟩ := memberOpening?_constant_iff.1 ho
    exact fun name hname => hlongest.list.isName_of_mem hname
  constant := fun name others => memberOpening?_constant_iff

/-- A line with three constants, looked for in the opposite order, and a line that closes a
package. -/
theorem opening_lines_told_apart_sample :
    let line := "  constant a, b_2 ,c : t;".toList
    let o : Opening MemberForm := ⟨.constant, "a".toList, ["b_2".toList, "c".toList]⟩
    let t : Scan.Target := ⟨"p.vhd", "work"⟩
    let l : CodeLine := ⟨3, 40, 47, 40, 40, "end p;".toList⟩
    let p : Package := .ofDeclaration (Scan.declare t "work" "p".toList l l.stop [])
    memberOpening? line = some o ∧
    (memberOpenings.reverse.findSome? fun opening => opening line) = some o ∧
    (∀ name ∈ o.names, IsName name) ∧
    closesPackage p.declaration.name.toList l = true ∧
    (Scan.step t ⟨[], [], .inPackage p⟩ l).phase = .outside := by
  intro line o t l p
  have hopens : memberOpening? line = some o := by decide +kernel
  have hcloses : closesPackage p.declaration.name.toList l = true := by decide +kernel
  have hline := opening_lines_told_apart line
  refine ⟨hopens, ?_, hline.names o hopens rfl, hcloses, ?_⟩
  · rw [hline.memberOrder _ (List.reverse_perm _), hopens]
  · exact ((opening_lines_told_apart l.line).closes t _ p l rfl rfl hcloses).1

end VhdlCatalog
