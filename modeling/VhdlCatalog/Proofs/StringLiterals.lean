import VhdlCatalog.Proofs.BlockRun
import VhdlCatalog.Proofs.Classification
import VhdlCatalog.Proofs.DeclaredNames
import VhdlCatalog.Proofs.Ranges

/-!
**String literals.**

The comment of a line is taken to begin at its first `--`, even if that stands in a string literal.
The cut is right whenever the quotes before it are paired.  A constant whose value holds a `--`
loses the semicolon behind its value together with the rest of the line.  Then its declaration goes
on, and takes in the lines after it up to one that ends with a semicolon.

Main definitions:

* `VhdlCatalog.Source.beforeComment` — the part of a line before a comment that is not in a string;
* `VhdlCatalog.stringConstant` — the line that declares a string constant;
* `VhdlCatalog.Spares` — the cut leaves a semicolon at the end of a string constant.

Main results:

* `VhdlCatalog.Source.stripComment_eq_beforeComment_iff` — **when the cut is right**;
* `VhdlCatalog.endsInSemicolon_stringConstant` — when a string constant ends with its line;
* `VhdlCatalog.string_constants_in_package` — **what becomes of a string constant** and of the
  members after it;
* `VhdlCatalog.string_constant_hides_member` — a constant that takes in the next one.
-/

set_option relaxedAutoImplicit false
set_option autoImplicit false

namespace VhdlCatalog

open Source Scan

/-! ### Comments outside strings -/

namespace Source

/-- The part of a line before the first `--` that is not in a string literal, or all of it; the line
begins in a string if `quoted`.  Every double quote begins or ends a string, also the one in the
character literal `'"'`. -/
def beforeComment (quoted : Bool) : List Char → List Char
  | [] => []
  | c :: cs =>
      if c = '"' then c :: beforeComment (!quoted) cs
      else if quoted = false ∧ c = '-' ∧ cs.head? = some '-' then []
      else c :: beforeComment quoted cs

theorem beforeComment_quote (quoted : Bool) (cs : List Char) :
    beforeComment quoted ('"' :: cs) = '"' :: beforeComment (!quoted) cs := by
  rw [beforeComment, if_pos rfl]

theorem beforeComment_quoted {c : Char} (hc : c ≠ '"') (cs : List Char) :
    beforeComment true (c :: cs) = c :: beforeComment true cs := by
  rw [beforeComment, if_neg hc, if_neg (by simp)]

theorem beforeComment_cons {c : Char} {cs : List Char} (hc : c ≠ '"')
    (h : ¬(c = '-' ∧ cs.head? = some '-')) (quoted : Bool) :
    beforeComment quoted (c :: cs) = c :: beforeComment quoted cs := by
  rw [beforeComment, if_neg hc, if_neg fun hboth => h hboth.2]

/-- **When the cut is right**, as far as double quotes tell strings: there is nothing to cut, or the
quotes before the cut, together with one if the line begins in a string, are paired. -/
theorem stripComment_eq_beforeComment_iff (quoted : Bool) (cs : List Char) :
    stripComment cs = beforeComment quoted cs ↔
      stripComment cs = cs ∨ (Even ((stripComment cs).count '"') ↔ quoted = false) := by
  fun_induction stripComment cs generalizing quoted with
  | case1 => simp [beforeComment]
  | case2 cs =>
      cases quoted with
      | false => simp [beforeComment]
      | true => simp [beforeComment_quoted]
  | case3 c cs hne ih =>
      by_cases hc : c = '"'
      · subst hc
        rw [beforeComment_quote, List.cons.injEq, List.cons.injEq, List.count_cons_self,
          Nat.even_add_one]
        simp only [true_and, ih]
        cases quoted <;> simp
      · have hcomment : ¬(c = '-' ∧ cs.head? = some '-') := by
          rintro ⟨rfl, hhead⟩
          obtain ⟨rest, rfl⟩ := List.head?_eq_some_iff.1 hhead
          exact hne rest rfl rfl
        rw [beforeComment_cons hc hcomment, List.cons.injEq, List.cons.injEq,
          List.count_cons_of_ne hc]
        simp only [true_and, ih]

/-- A text that goes on after a character which is no hyphen is cut where it was, if it was. -/
theorem stripComment_append_cons {c : Char} (hc : c ≠ '-') (as bs : List Char) :
    (stripComment as = as → stripComment (as ++ c :: bs) = as ++ stripComment (c :: bs)) ∧
      (stripComment as ≠ as → stripComment (as ++ c :: bs) = stripComment as) := by
  fun_induction stripComment as with
  | case1 => simp
  | case2 cs => simp [stripComment]
  | case3 a cs hne ih =>
      have hcut : stripComment (a :: cs ++ c :: bs) = a :: stripComment (cs ++ c :: bs) := by
        refine stripComment.eq_3 _ _ fun rest ha hrest => ?_
        cases cs with
        | nil => exact hc (List.cons.inj hrest).1
        | cons d cs => exact hne cs ha (by rw [(List.cons.inj hrest).1])
      rw [hcut, List.cons_append]
      refine ⟨fun h => ?_, fun h => ?_⟩
      · rw [ih.1 (List.cons.inj h).2]
      · rw [ih.2 fun heq => h (by rw [heq])]

end Source

/-! ### Lower-casing word by word -/

namespace Text

/-- The character divides words when a text is lower-cased, and is its own lower case. -/
structure DividesWords (c : Char) : Prop where
  isCased_eq : isCased c = false
  isCaseIgnorable_eq : isCaseIgnorable c = false
  image_eq : ∀ afterCased cs, image afterCased c cs = [c]

theorem dividesWords_space : DividesWords ' ' := ⟨by decide, by decide, fun _ _ => rfl⟩

theorem dividesWords_quote : DividesWords '"' := ⟨by decide, by decide, fun _ _ => rfl⟩

variable {c : Char}

theorem DividesWords.startsCased_append (hc : DividesWords c) (as bs : List Char) :
    startsCased (as ++ c :: bs) = startsCased as := by
  induction as with
  | nil =>
      rw [List.nil_append, startsCased,
        List.dropWhile_cons_of_neg (by simp [hc.isCaseIgnorable_eq])]
      exact hc.isCased_eq
  | cons a as ih =>
      rw [startsCased, startsCased] at ih ⊢
      rw [List.cons_append]
      cases ha : isCaseIgnorable a with
      | true => rw [List.dropWhile_cons_of_pos ha, List.dropWhile_cons_of_pos ha, ih]
      | false =>
          rw [List.dropWhile_cons_of_neg (by simp [ha]), List.dropWhile_cons_of_neg (by simp [ha])]

/-- **A text is lower-cased word by word.** -/
theorem DividesWords.lower_append (hc : DividesWords c) (as bs : List Char) :
    lower (as ++ c :: bs) = lower as ++ c :: lower bs := by
  have hfrom : ∀ afterCased, lowerFrom afterCased (as ++ c :: bs) =
      lowerFrom afterCased as ++ c :: lowerFrom false bs := by
    induction as with
    | nil =>
        intro afterCased
        rw [List.nil_append, lowerFrom_cons, hc.image_eq, hc.isCaseIgnorable_eq, hc.isCased_eq]
        rfl
    | cons a as ih =>
        intro afterCased
        have himage : image afterCased a (as ++ c :: bs) = image afterCased a as := by
          rw [image, image, hc.startsCased_append]
        rw [List.cons_append, lowerFrom_cons, lowerFrom_cons, ih, himage, List.append_assoc]
  exact hfrom false

end Text

/-! ### String constants -/

/-- The declaration of a string constant on one line. -/
def stringConstant (indent : Nat) (name value : List Char) : List Char :=
  List.replicate indent ' ' ++
    ("constant".toList ++ ' ' :: (name ++ ' ' :: (": string :=".toList ++ ' ' :: '"' ::
      (value ++ '"' :: [';']))))

/-- There is nothing to cut in the value, or what is left of it ends with a semicolon. -/
def Spares (value : List Char) : Prop :=
  stripComment value = value ∨ endsInSemicolon (stripComment value) = true

instance (value : List Char) : Decidable (Spares value) :=
  inferInstanceAs (Decidable (stripComment value = value ∨
    endsInSemicolon (stripComment value) = true))

theorem lower_replicate_append (k : Nat) (cs : List Char) :
    Text.lower (List.replicate k ' ' ++ cs) = List.replicate k ' ' ++ Text.lower cs := by
  induction k with
  | zero => rfl
  | succ k ih =>
      have hspace := Text.dividesWords_space.lower_append [] (List.replicate k ' ' ++ cs)
      rw [List.replicate_succ, List.cons_append, List.cons_append, ← ih]
      exact hspace

/-- A string constant is lower-cased to a string constant. -/
theorem lower_stringConstant (indent : Nat) (name value : List Char) :
    Text.lower (stringConstant indent name value) =
      stringConstant indent (Text.lower name) (Text.lower value) := by
  have hquote := Text.dividesWords_quote.lower_append [] (value ++ '"' :: [';'])
  rw [List.nil_append] at hquote
  have hspace := Text.dividesWords_space.lower_append [] ('"' :: (value ++ '"' :: [';']))
  rw [stringConstant, lower_replicate_append, Text.dividesWords_space.lower_append,
    Text.dividesWords_space.lower_append, Text.dividesWords_space.lower_append, hquote,
    Text.dividesWords_quote.lower_append]
  rfl

/-- A string constant opens a declaration of a constant. -/
theorem memberOpening?_stringConstant {name : List Char} (hne : name ≠ [])
    (hword : ∀ c ∈ name, isWord c = true) (indent : Nat) (value : List Char) :
    memberOpening? (stringConstant indent name value) = some ⟨.constant, name, []⟩ := by
  generalize htail : ": string :=".toList ++ ' ' :: '"' :: (value ++ '"' :: [';']) = tail
  have hconstant : Text.IsName "constant".toList := Text.isName_of_isPlainWord (by decide)
  have hindent : Text.AllBlank (List.replicate indent ' ') := by
    intro c hc
    rw [List.eq_of_mem_replicate hc]
    decide
  have hspace : Text.AllBlank [' '] := List.all_eq_true.1 (by decide)
  have hkeyword : Token.keyword? "constant" (stringConstant indent name value) =
      some (' ' :: (name ++ ' ' :: tail)) := by
    rw [stringConstant, htail]
    exact (Token.keyword?_eq_some_iff hconstant).2 ⟨rfl, _, hindent, rfl⟩
  have hname : Token.identifier? (' ' :: (name ++ ' ' :: tail)) = some (name, ' ' :: tail) :=
    Token.identifier?_eq_some_iff.2 ⟨⟨hne, hword⟩, rfl, [' '], hspace, rfl⟩
  have hmore : Token.moreIdentifiers (' ' :: tail) = [] := by
    refine Token.moreIdentifiers_of_none ?_
    rw [← htail]
    rfl
  rw [← hmore]
  exact memberOpening?_eq_some_iff.2 (.constant hkeyword hname)

theorem endsInSemicolon_append (as : List Char) {c : Char} (hblank : isBlank c = false)
    (hc : c ≠ ';') (bs : List Char) : endsInSemicolon (as ++ c :: bs) = endsInSemicolon bs := by
  rw [endsInSemicolon, endsInSemicolon, List.reverse_append, List.reverse_cons, List.append_assoc,
    List.dropWhile_append]
  split
  · next hempty =>
      rw [List.singleton_append, List.dropWhile_cons_of_neg (by simp [hblank]),
        List.isEmpty_iff.1 hempty]
      simp [hc]
  · next hempty =>
      rw [List.head?_append_of_ne_nil _ (by simpa using hempty)]

/-- **A string constant ends with its line** if the cut spares its value. -/
theorem endsInSemicolon_stringConstant {name : List Char} (hword : ∀ c ∈ name, isWord c = true)
    (indent : Nat) (value : List Char) :
    endsInSemicolon (stripComment (stringConstant indent name value)) = true ↔ Spares value := by
  -- up to the quote there is no hyphen
  obtain ⟨before, hbefore, hline⟩ : ∃ before : List Char, '-' ∉ before ∧
      stringConstant indent name value = before ++ '"' :: (value ++ '"' :: [';']) := by
    refine ⟨List.replicate indent ' ' ++ ("constant".toList ++ ' ' :: (name ++ ' ' ::
      (": string :=".toList ++ [' ']))), ?_, by simp [stringConstant]⟩
    have hname : '-' ∉ name := by
      intro hmem
      cases (hword '-' hmem).symm.trans isWord_hyphen
    simp [List.mem_replicate, hname]
  have hquote : '"' ≠ '-' := by decide
  obtain ⟨hwhole, hcut⟩ := stripComment_append_cons hquote value [';']
  have hstrip : stripComment ('"' :: (value ++ '"' :: [';'])) =
      '"' :: stripComment (value ++ '"' :: [';']) :=
    stripComment.eq_3 _ _ fun _ heq => absurd heq hquote
  rw [hline, stripComment_append_of_not_mem hbefore, hstrip,
    endsInSemicolon_append before (by decide) (by decide), Spares]
  by_cases hvalue : stripComment value = value
  · have hend : stripComment ('"' :: [';']) = '"' :: [';'] := by decide
    rw [hwhole hvalue, hend, endsInSemicolon_append value (by decide) (by decide)]
    exact iff_of_true (by decide) (Or.inl hvalue)
  · rw [hcut hvalue]
    simp [hvalue]

/-! ### In a package -/

variable {t : Target} {s : Progress} {d : Declaration} {ms : List Member} {l : CodeLine}

/-- The constant that is declared from the line `first` up to the offset `stop`. -/
def constantMember (t : Target) (scope : String) (name : List Char) (first : CodeLine)
    (stop : Nat) : Member where
  category := .constant
  declaration := declare t scope (Text.lower name) first stop []
  form := ""

/-- The lines from a string constant up to the first one that ends with a semicolon. -/
theorem reaches_stringConstant {indent : Nat} {name value : List Char} (hne : name ≠ [])
    (hword : ∀ c ∈ Text.lower name, isWord c = true)
    (htext : l.text = stringConstant indent name value) (before : List CodeLine) {last : CodeLine}
    (hfirst : before.headD last = l) (hbefore : ∀ x ∈ before, endsInSemicolon x.code = false)
    (hlast : endsInSemicolon last.code = true)
    (items : List (HeaderItem d.name.toList))
    (hkeys : ((ms ++ constantMember t d.qualifiedName name l last.stop ::
      items.flatMap (HeaderItem.members t d.qualifiedName)).map Member.key).Nodup)
    (hs : s.phase = .inPackage (.ofMembers d ms)) :
    Reaches t s (before ++ last :: items.flatMap HeaderItem.lines) []
      (.inPackage (.ofMembers d (ms ++ constantMember t d.qualifiedName name l last.stop ::
        items.flatMap (HeaderItem.members t d.qualifiedName)))) := by
  have hopens : memberOpening? l.line = some ⟨.constant, Text.lower name, []⟩ := by
    have hne' : Text.lower name ≠ [] := by
      obtain ⟨c, cs, rfl⟩ := List.exists_cons_of_ne_nil hne
      rw [Text.lower, Text.lowerFrom_cons]
      simp [Text.image_ne_nil]
    rw [CodeLine.line, htext, lower_stringConstant]
    exact memberOpening?_stringConstant hne' hword indent _
  have hwaits : NoneCloses ((Construct.member .constant).ClosedBy (Text.lower name))
      (before.map CodeLine.place) := by
    intro as x bs heq hcloses
    have hx : x ∈ before.map CodeLine.place := by simp [heq]
    obtain ⟨y, hy, rfl⟩ := List.mem_map.1 hx
    cases (hbefore y hy).symm.trans hcloses
  let block : MemberBlock :=
    ⟨⟨.constant, Text.lower name, []⟩, before, last, hfirst ▸ hopens, hlast, hwaits⟩
  have hlines : (HeaderItem.member block :: items).flatMap HeaderItem.lines =
      before ++ last :: items.flatMap HeaderItem.lines := by
    simp [HeaderItem.lines, MemberBlock.lines, block]
  have hmembers : (HeaderItem.member block :: items).flatMap
      (HeaderItem.members t d.qualifiedName) = constantMember t d.qualifiedName name l last.stop ::
        items.flatMap (HeaderItem.members t d.qualifiedName) := by
    rw [← hfirst]
    rfl
  rw [← hlines]
  rw [← hmembers] at hkeys ⊢
  exact reaches_headerItems _ rfl hkeys hs

/-- **What becomes of a string constant.**  The cut of a line is right when there is nothing to cut,
or when the quotes before the cut are paired.  Right is what `beforeComment` says, for which a
double quote in a character literal counts like any other.  A constant whose value the cut spares
ends with its line, and the members after it are found.  Otherwise the constant goes on to the first
later line that ends with a semicolon, and nothing between is found, whatever it declares. -/
theorem string_constants_in_package {indent : Nat} {name value : List Char} (hne : name ≠ [])
    (hword : ∀ c ∈ Text.lower name, isWord c = true)
    (htext : l.text = stringConstant indent name value)
    (hs : s.phase = .inPackage (.ofMembers d ms)) (items : List (HeaderItem d.name.toList)) :
    (∀ line : List Char, stripComment line = beforeComment false line ↔
      stripComment line = line ∨ Even ((stripComment line).count '"')) ∧
    (Spares (Text.lower value) →
      ((ms ++ constantMember t d.qualifiedName name l l.stop ::
        items.flatMap (HeaderItem.members t d.qualifiedName)).map Member.key).Nodup →
      Reaches t s (l :: items.flatMap HeaderItem.lines) []
        (.inPackage (.ofMembers d (ms ++ constantMember t d.qualifiedName name l l.stop ::
          items.flatMap (HeaderItem.members t d.qualifiedName))))) ∧
    (¬Spares (Text.lower value) → ∀ (between : List CodeLine) (last : CodeLine),
      (∀ x ∈ between, endsInSemicolon x.code = false) → endsInSemicolon last.code = true →
      ((ms ++ constantMember t d.qualifiedName name l last.stop ::
        items.flatMap (HeaderItem.members t d.qualifiedName)).map Member.key).Nodup →
      Reaches t s (l :: between ++ last :: items.flatMap HeaderItem.lines) []
        (.inPackage (.ofMembers d (ms ++ constantMember t d.qualifiedName name l last.stop ::
          items.flatMap (HeaderItem.members t d.qualifiedName))))) := by
  have hcode : endsInSemicolon l.code = true ↔ Spares (Text.lower value) := by
    rw [CodeLine.code, CodeLine.line, htext, lower_stringConstant]
    exact endsInSemicolon_stringConstant hword indent _
  refine ⟨fun line => ?_, ?_, ?_⟩
  · simpa using stripComment_eq_beforeComment_iff false line
  · intro hspares hkeys
    exact reaches_stringConstant hne hword htext [] rfl (by simp) (hcode.2 hspares) items hkeys hs
  · intro hspares between last hbetween hlast hkeys
    have hopen : endsInSemicolon l.code = false := by
      rw [← Bool.not_eq_true, hcode]
      exact hspares
    exact reaches_stringConstant hne hword htext (l :: between) rfl
      (List.forall_mem_cons.2 ⟨hopen, hbetween⟩) hlast items hkeys hs

/-- After a value with one hyphen the constant on the next line is found.  After a value with two it
is part of the first constant. -/
theorem string_constants_in_package_samples :
    let t : Target := ⟨"f.vhd", "work"⟩
    let d : Declaration := ⟨"f.vhd", "p", 1, "work", 0, 0, 0, 0, "", ""⟩
    let s : Progress := ⟨[], [], .inPackage (.ofMembers d [])⟩
    let whole : CodeLine := ⟨2, 13, 45, 13, 13, stringConstant 2 ['N'] "a-b".toList⟩
    let cut : CodeLine := ⟨2, 13, 46, 13, 13, stringConstant 2 ['N'] "a--b".toList⟩
    let next : CodeLine := ⟨3, 46, 69, 46, 46, "  constant m : t := 1;".toList⟩
    Spares (Text.lower "a-b".toList) ∧
    Reaches t s [whole, next] [] (.inPackage (.ofMembers d
      [constantMember t "work.p" ['N'] whole 45, constantMember t "work.p" ['m'] next 69])) ∧
    ¬Spares (Text.lower "a--b".toList) ∧
    Reaches t s [cut, next] [] (.inPackage (.ofMembers d
      [constantMember t "work.p" ['N'] cut 69])) := by
  intro t d s whole cut next
  have hword : ∀ c ∈ Text.lower ['N'], isWord c = true := by
    have hlower : Text.lower ['N'] = ['n'] := by decide
    simp only [hlower, List.mem_singleton, forall_eq]
    decide
  have hnext : endsInSemicolon next.code = true := by decide +kernel
  let block : MemberBlock :=
    ⟨⟨.constant, ['m'], []⟩, [], next, by decide +kernel, hnext, noneCloses_nil _⟩
  have hspares : Spares (Text.lower "a-b".toList) := by decide +kernel
  have hcut : ¬Spares (Text.lower "a--b".toList) := by decide +kernel
  have hs : s.phase = .inPackage (.ofMembers d []) := rfl
  obtain ⟨-, hwhole, -⟩ := string_constants_in_package (t := t) (l := whole)
    (List.cons_ne_nil _ _) hword rfl hs [.member block]
  obtain ⟨-, -, hhidden⟩ := string_constants_in_package (t := t) (l := cut)
    (List.cons_ne_nil _ _) hword rfl hs []
  refine ⟨hspares, ?_, hcut, ?_⟩
  · have hkeys : ([constantMember t "work.p" ['N'] whole 45,
        constantMember t "work.p" ['m'] next 69].map Member.key).Nodup := by
      decide +kernel
    exact hwhole hspares hkeys
  · exact hhidden hcut [] next (by simp) hnext (by decide +kernel)

/-- A string in which the scan takes two hyphens for the beginning of a comment: the line is cut in
the string, its constant goes on to the end of the next line, and the constant there is missing. -/
theorem string_constant_hides_member :
    let line := "  constant n : string := \"a--b\";"
    let source := "package p is\n" ++ line ++ "\n  constant m : integer := 1;\nend p;\n"
    beforeComment false line.toList = line.toList ∧
    stripComment line.toList = "  constant n : string := \"a".toList ∧
    ∃ file, (scanSource "f.vhd" "work" source.toUTF8.data.toList).result = .ok file ∧
      (file.declarations.map fun d => (d.name, d.codeStart, d.codeStop)) =
        [("p", 0, 82), ("n", 13, 75)] := by
  intro line source
  refine ⟨by decide +kernel, by decide +kernel, ?_⟩
  exact exists_ok_of_toOption
    (f := fun file : FileScan => file.declarations.map fun d => (d.name, d.codeStart, d.codeStop))
    (b := [("p", 0, 82), ("n", 13, 75)])
    (x := (scanSource "f.vhd" "work" source.toUTF8.data.toList).result) (by decide +kernel)

end VhdlCatalog
