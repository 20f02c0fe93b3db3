import Mathlib
import VhdlCatalog.Scan.Closing
import VhdlCatalog.Scan.Opening

/-!
**Readers stop at a comment.**

Openings and leading `end`s are looked for in whole lines, comments included, while other signs are
looked for in the part before the comment.  This module shows that it makes no difference: no
reader gets past the `--` with which a comment begins, so that a line with a comment is read like
the line without it.  The one exception is an operator in double quotes, which a reader follows
into a comment.

Main definitions:

* `VhdlCatalog.Source.IsTail` — nothing, or a comment.

Main results:

* `VhdlCatalog.Token.keyword?_append`, `VhdlCatalog.Token.identifier?_append`,
  `VhdlCatalog.Token.mark?_append`, `VhdlCatalog.Token.moreIdentifiers_append` — the readers;
* `VhdlCatalog.unitOpening?_append`, `VhdlCatalog.memberOpening?_append` — **openings** are the same
  with and without a comment;
* `VhdlCatalog.Source.exists_lower_eq`, `VhdlCatalog.Source.stripComment_lower` — lower-casing
  keeps the comment where it is.
-/

set_option relaxedAutoImplicit false
set_option autoImplicit false

namespace VhdlCatalog

/-! ### Tails of lines -/

namespace Source

/-- Nothing, or a comment. -/
def IsTail (d : List Char) : Prop := d = [] ∨ ∃ cs, d = '-' :: '-' :: cs

theorem exists_tail (cs : List Char) : ∃ d, IsTail d ∧ cs = stripComment cs ++ d := by
  fun_induction stripComment cs with
  | case1 => exact ⟨[], Or.inl rfl, rfl⟩
  | case2 cs => exact ⟨'-' :: '-' :: cs, Or.inr ⟨cs, rfl⟩, rfl⟩
  | case3 c cs _ ih =>
      obtain ⟨d, hd, heq⟩ := ih
      exact ⟨d, hd, by rw [List.cons_append, ← heq]⟩

variable {d : List Char} {p : Char → Bool}

theorem IsTail.dropWhile_append (hd : IsTail d) (hp : p '-' = false) (cs : List Char) :
    (cs ++ d).dropWhile p = cs.dropWhile p ++ d := by
  induction cs with
  | nil => rcases hd with rfl | ⟨r, rfl⟩ <;> simp [hp]
  | cons c cs ih => cases hc : p c <;> simp [hc, ih]

theorem IsTail.takeWhile_append (hd : IsTail d) (hp : p '-' = false) (cs : List Char) :
    (cs ++ d).takeWhile p = cs.takeWhile p := by
  induction cs with
  | nil => rcases hd with rfl | ⟨r, rfl⟩ <;> simp [hp]
  | cons c cs ih => cases hc : p c <;> simp [hc, ih]

end Source

open Source

/-! ### Readers -/

theorem isBlank_hyphen : isBlank '-' = false := by decide

theorem isWord_hyphen : isWord '-' = false := by decide

namespace Text

variable {d : List Char}

theorem skipBlanks_append (hd : IsTail d) (cs : List Char) :
    skipBlanks (cs ++ d) = skipBlanks cs ++ d :=
  hd.dropWhile_append isBlank_hyphen cs

theorem afterLiteral?_append (hd : IsTail d) {lit : List Char} (hlit : '-' ∉ lit)
    (cs : List Char) : afterLiteral? lit (cs ++ d) = (afterLiteral? lit cs).map (· ++ d) := by
  induction lit generalizing cs with
  | nil => simp
  | cons a lit ih =>
      obtain ⟨ha, hlit⟩ : '-' ≠ a ∧ '-' ∉ lit := by simpa using hlit
      cases cs with
      | nil => rcases hd with rfl | ⟨r, rfl⟩ <;> simp [afterLiteral?, ha.symm]
      | cons c cs =>
          by_cases hc : a = c
          · simp [afterLiteral?, hc, ih hlit]
          · simp [afterLiteral?, hc]

theorem atWordEnd_append (hd : IsTail d) (cs : List Char) :
    atWordEnd (cs ++ d) = atWordEnd cs := by
  cases cs with
  | nil => rcases hd with rfl | ⟨r, rfl⟩ <;> simp [isWord_hyphen]
  | cons c cs => rfl

theorem suffix_of_afterLiteral? {lit cs rest : List Char} (h : afterLiteral? lit cs = some rest) :
    rest <:+ cs :=
  ⟨lit, ((afterLiteral?_eq_some_iff _ _ _).1 h).symm⟩

end Text

namespace Token

variable {d : List Char}

theorem keyword?_append (hd : IsTail d) {word : String} (hword : '-' ∉ word.toList)
    (cs : List Char) : keyword? word (cs ++ d) = (keyword? word cs).map (· ++ d) := by
  simp only [keyword?, Text.skipBlanks_append hd, Text.afterLiteral?_append hd hword]
  cases Text.afterLiteral? word.toList (Text.skipBlanks cs) with
  | none => rfl
  | some rest =>
      cases h : Text.atWordEnd rest <;> simp [Text.atWordEnd_append hd, h]

theorem suffix_of_keyword? {word : String} {cs rest : List Char}
    (h : keyword? word cs = some rest) : rest <:+ cs := by
  simp only [keyword?, Option.bind_eq_bind, Option.bind_eq_some_iff] at h
  obtain ⟨after, hafter, h⟩ := h
  split at h
  · rw [← Option.some.inj h]
    exact (Text.suffix_of_afterLiteral? hafter).trans (List.dropWhile_suffix _)
  · cases h

theorem hasKeyword_append (hd : IsTail d) {word : String} (hword : '-' ∉ word.toList)
    (cs : List Char) : hasKeyword word (cs ++ d) = hasKeyword word cs := by
  simp [hasKeyword, keyword?_append hd hword]

theorem identifier?_append (hd : IsTail d) (cs : List Char) :
    identifier? (cs ++ d) = (identifier? cs).map fun r => (r.1, r.2 ++ d) := by
  simp only [identifier?, Text.skipBlanks_append hd, hd.takeWhile_append isWord_hyphen,
    hd.dropWhile_append isWord_hyphen]
  cases (Text.skipBlanks cs).takeWhile isWord <;> rfl

theorem mark?_append (hd : IsTail d) {c : Char} (hc : c ≠ '-') (cs : List Char) :
    mark? c (cs ++ d) = (mark? c cs).map (· ++ d) := by
  simp only [mark?, Text.skipBlanks_append hd]
  cases Text.skipBlanks cs with
  | nil => rcases hd with rfl | ⟨r, rfl⟩ <;> simp [Ne.symm hc]
  | cons x rest => by_cases hx : x = c <;> simp [hx]

theorem startsBlank_append (hd : IsTail d) (cs : List Char) :
    startsBlank (cs ++ d) = startsBlank cs := by
  cases cs with
  | nil => rcases hd with rfl | ⟨r, rfl⟩ <;> simp [startsBlank, isBlank_hyphen]
  | cons c cs => rfl

theorem nextIdentifier?_append (hd : IsTail d) (cs : List Char) :
    nextIdentifier? (cs ++ d) = (nextIdentifier? cs).map fun r => (r.1, r.2 ++ d) := by
  simp only [nextIdentifier?, mark?_append hd (show ',' ≠ '-' by decide)]
  cases mark? ',' cs with
  | none => rfl
  | some rest => exact identifier?_append hd rest

theorem moreIdentifiers_of_none {cs : List Char} (h : nextIdentifier? cs = none) :
    moreIdentifiers cs = [] := by
  rw [moreIdentifiers]
  split
  · rfl
  · next heq => simp [h] at heq

theorem moreIdentifiers_of_some {cs name rest : List Char}
    (h : nextIdentifier? cs = some (name, rest)) :
    moreIdentifiers cs = name :: moreIdentifiers rest := by
  rw [moreIdentifiers]
  split
  · next heq => simp [h] at heq
  · next name' rest' heq =>
      simp only [h, Option.some.injEq, Prod.mk.injEq] at heq
      rw [heq.1, heq.2]

theorem moreIdentifiers_append (hd : IsTail d) (cs : List Char) :
    moreIdentifiers (cs ++ d) = moreIdentifiers cs := by
  fun_induction moreIdentifiers cs with
  | case1 cs h =>
      refine moreIdentifiers_of_none ?_
      rw [nextIdentifier?_append hd, h]
      rfl
  | case2 cs name rest h ih =>
      have hsome : nextIdentifier? (cs ++ d) = some (name, rest ++ d) := by
        rw [nextIdentifier?_append hd, h]
        rfl
      rw [moreIdentifiers_of_some hsome, ih]

end Token

/-! ### Openings -/

section Openings

variable {d : List Char}

theorem headed?_append (hd : IsTail d) {word : String} (hword : '-' ∉ word.toList)
    (cs : List Char) :
    headed? word (cs ++ d) = (headed? word cs).map fun r => (r.1, r.2 ++ d) := by
  simp only [headed?, Token.keyword?_append hd hword]
  cases Token.keyword? word cs with
  | none => rfl
  | some rest =>
      simp only [Option.map_some, Option.bind_eq_bind, Option.bind_some,
        Token.identifier?_append hd]
      cases Token.identifier? rest with
      | none => rfl
      | some r =>
          simp only [Option.map_some, Option.bind_some,
            Token.keyword?_append hd (show '-' ∉ "is".toList by decide)]
          cases Token.keyword? "is" r.2 <;> rfl

theorem isInstantiation_append (hd : IsTail d) (cs : List Char) :
    isInstantiation (cs ++ d) = isInstantiation cs := by
  simp only [isInstantiation, Token.startsBlank_append hd,
    Token.keyword?_append hd (show '-' ∉ "is".toList by decide)]
  cases Token.keyword? "is" cs with
  | none => rfl
  | some rest => simp [Token.hasKeyword_append hd (show '-' ∉ "new".toList by decide)]

/-- Where there is no double quote, no operator begins. -/
theorem operator?_eq_none {cs : List Char} (hcs : '"' ∉ cs) (hd : IsTail d) :
    operator? (cs ++ d) = none := by
  have hsuffix : Text.skipBlanks cs <:+ cs := List.dropWhile_suffix _
  simp only [operator?, Text.skipBlanks_append hd]
  cases hskip : Text.skipBlanks cs with
  | nil => rcases hd with rfl | ⟨r, rfl⟩ <;> rfl
  | cons c rest =>
      have hc : c ≠ '"' := by
        rintro rfl
        exact hcs (hsuffix.mem (by simp [hskip]))
      rw [List.cons_append]
      split
      · next heq => exact absurd (List.cons.inj heq).1 hc
      · rfl

theorem designator?_append (hd : IsTail d) {cs : List Char} (hcs : '"' ∉ cs) :
    designator? (cs ++ d) = (designator? cs).map fun r => (r.1, r.2 ++ d) := by
  have hnone : operator? cs = none := by
    have h := operator?_eq_none hcs (d := []) (Or.inl rfl)
    rwa [List.append_nil] at h
  simp only [designator?, Token.startsBlank_append hd, Token.identifier?_append hd, hnone,
    operator?_eq_none hcs hd, Option.or_none]
  cases Token.startsBlank cs <;> rfl

theorem skipPurity_append (hd : IsTail d) (cs : List Char) :
    skipPurity (cs ++ d) = skipPurity cs ++ d := by
  simp only [skipPurity, Token.keyword?_append hd (show '-' ∉ "pure".toList by decide),
    Token.keyword?_append hd (show '-' ∉ "impure".toList by decide)]
  cases Token.keyword? "pure" cs with
  | some rest => rfl
  | none => cases Token.keyword? "impure" cs <;> rfl

theorem suffix_skipPurity (cs : List Char) : skipPurity cs <:+ cs := by
  simp only [skipPurity]
  cases hp : Token.keyword? "pure" cs with
  | some rest => exact Token.suffix_of_keyword? hp
  | none =>
      cases hi : Token.keyword? "impure" cs with
      | some rest => exact Token.suffix_of_keyword? hi
      | none => exact List.suffix_rfl

theorem functionOpening?_append (hd : IsTail d) {cs : List Char} (hcs : '"' ∉ cs) :
    functionOpening? (cs ++ d) = functionOpening? cs := by
  simp only [functionOpening?, skipPurity_append hd,
    Token.keyword?_append hd (show '-' ∉ "function".toList by decide)]
  cases hk : Token.keyword? "function" (skipPurity cs) with
  | none => rfl
  | some rest =>
      have hrest : '"' ∉ rest := fun h =>
        hcs (((Token.suffix_of_keyword? hk).trans (suffix_skipPurity cs)).mem h)
      simp only [Option.map_some, Option.bind_eq_bind, Option.bind_some,
        designator?_append hd hrest]
      cases designator? rest with
      | none => rfl
      | some r => simp [isInstantiation_append hd]

theorem procedureOpening?_append (hd : IsTail d) (cs : List Char) :
    procedureOpening? (cs ++ d) = procedureOpening? cs := by
  simp only [procedureOpening?, Token.keyword?_append hd (show '-' ∉ "procedure".toList by decide)]
  cases Token.keyword? "procedure" cs with
  | none => rfl
  | some rest =>
      simp only [Option.map_some, Option.bind_eq_bind, Option.bind_some,
        Token.identifier?_append hd]
      cases Token.identifier? rest with
      | none => rfl
      | some r => simp [isInstantiation_append hd]

theorem constantOpening?_append (hd : IsTail d) (cs : List Char) :
    constantOpening? (cs ++ d) = constantOpening? cs := by
  simp only [constantOpening?, Token.keyword?_append hd (show '-' ∉ "constant".toList by decide)]
  cases Token.keyword? "constant" cs with
  | none => rfl
  | some rest =>
      simp only [Option.map_some, Option.bind_eq_bind, Option.bind_some,
        Token.identifier?_append hd]
      cases Token.identifier? rest with
      | none => rfl
      | some r => simp [Token.moreIdentifiers_append hd]

/-- The three forms of types differ in what they look for after `type name is`. -/
theorem typeOpening?_append (hd : IsTail d) (cs : List Char) :
    arrayOpening? (cs ++ d) = arrayOpening? cs ∧ enumOpening? (cs ++ d) = enumOpening? cs ∧
      recordOpening? (cs ++ d) = recordOpening? cs := by
  simp only [arrayOpening?, enumOpening?, recordOpening?,
    headed?_append hd (show '-' ∉ "type".toList by decide)]
  cases headed? "type" cs with
  | none => exact ⟨rfl, rfl, rfl⟩
  | some r =>
      simp [Token.hasKeyword_append hd (show '-' ∉ "array".toList by decide),
        Token.hasKeyword_append hd (show '-' ∉ "record".toList by decide),
        Token.mark?_append hd (show '(' ≠ '-' by decide)]

theorem subtypeOpening?_append (hd : IsTail d) (cs : List Char) :
    subtypeOpening? (cs ++ d) = subtypeOpening? cs := by
  simp only [subtypeOpening?, headed?_append hd (show '-' ∉ "subtype".toList by decide)]
  cases headed? "subtype" cs <;> rfl

/-- **Members** open in the same way with a comment behind the line. -/
theorem memberOpening?_append (hd : IsTail d) {cs : List Char} (hcs : '"' ∉ cs) :
    memberOpening? (cs ++ d) = memberOpening? cs := by
  obtain ⟨harray, henum, hrecord⟩ := typeOpening?_append hd cs
  simp only [memberOpening?, memberOpenings, List.findSome?_cons, constantOpening?_append hd,
    List.findSome?_nil, harray, henum, hrecord, functionOpening?_append hd hcs,
    procedureOpening?_append hd, subtypeOpening?_append hd]

/-- **Units** open in the same way with a comment behind the line. -/
theorem unitOpening?_append (hd : IsTail d) (cs : List Char) :
    unitOpening? (cs ++ d) = unitOpening? cs := by
  have hentity : entityOpening? (cs ++ d) = entityOpening? cs := by
    simp only [entityOpening?, headed?_append hd (show '-' ∉ "entity".toList by decide)]
    cases headed? "entity" cs <;> rfl
  have hpackage : packageOpening? (cs ++ d) = packageOpening? cs := by
    simp only [packageOpening?, headed?_append hd (show '-' ∉ "package".toList by decide)]
    cases headed? "package" cs with
    | none => rfl
    | some r => simp [Token.hasKeyword_append hd (show '-' ∉ "new".toList by decide)]
  simp only [unitOpening?, unitOpenings, List.findSome?_cons, List.findSome?_nil, hentity, hpackage]

/-! ### Closings -/

theorem startsEnd_append (hd : IsTail d) (cs : List Char) : startsEnd (cs ++ d) = startsEnd cs :=
  Token.hasKeyword_append hd (by decide) cs

theorem startsEndOf_append (hd : IsTail d) {word : String} (hword : '-' ∉ word.toList)
    (cs : List Char) : startsEndOf word (cs ++ d) = startsEndOf word cs := by
  simp only [startsEndOf, Token.keyword?_append hd (show '-' ∉ "end".toList by decide)]
  cases Token.keyword? "end" cs with
  | none => rfl
  | some rest => simp [Token.hasKeyword_append hd hword]

theorem startsEndMark_append (hd : IsTail d) (cs : List Char) :
    startsEndMark (cs ++ d) = startsEndMark cs := by
  simp only [startsEndMark, Token.keyword?_append hd (show '-' ∉ "end".toList by decide)]
  cases Token.keyword? "end" cs with
  | none => rfl
  | some rest => simp [Token.mark?_append hd (show ';' ≠ '-' by decide)]

end Openings

/-! ### Lower-casing -/

theorem image_of_mem_caseRuns : ∀ r ∈ caseRuns, 0x41 ≤ r.image := by decide +kernel

/-- No character becomes one of those before the letters. -/
theorem eq_of_mem_lowerChar {x c : Char} (hpos : 0 < x.toNat) (hx : x.toNat < 0x41)
    (h : x ∈ lowerChar c) : x = c := by
  unfold lowerChar at h
  split at h
  · rw [List.mem_singleton] at h
    subst h
    by_cases hupper : c.isUpper = true
    · -- letters become letters
      have hA : 'A'.toNat ≤ c.toNat := by
        simp only [Char.isUpper, ge_iff_le, decide_eq_true_eq] at hupper
        exact UInt32.le_iff_toNat_le.1 hupper.1
      have hA' : 'A'.toNat = 0x41 := rfl
      rw [Char.toLower_eq_of_isUpper hupper, Char.toNat_ofNat] at hpos hx
      split at hx <;> omega
    · rw [Char.toLower_eq_of_not_isUpper hupper]
  · split at h
    · simp only [List.mem_cons, List.not_mem_nil, or_false] at h
      rcases h with rfl | rfl
      · simp at hx
      · simp at hx
    · split at h
      · next r hr =>
          have himage := image_of_mem_caseRuns r (List.mem_of_find?_eq_some hr)
          rw [List.mem_singleton] at h
          subst h
          rw [Char.toNat_ofNat] at hpos hx
          split_ifs at hpos hx <;> omega
      · rwa [List.mem_singleton] at h

namespace Text

/-- What a character becomes in its place. -/
def image (afterCased : Bool) (c : Char) (cs : List Char) : List Char :=
  if c = 'Σ' then [if afterCased && !startsCased cs then 'ς' else 'σ'] else lowerChar c

theorem lowerFrom_cons (afterCased : Bool) (c : Char) (cs : List Char) :
    lowerFrom afterCased (c :: cs) = image afterCased c cs ++
      lowerFrom (if isCaseIgnorable c then afterCased else isCased c) cs := rfl

variable {afterCased : Bool} {x c : Char} {cs d : List Char}

theorem eq_of_mem_image (hpos : 0 < x.toNat) (hx : x.toNat < 0x41)
    (h : x ∈ image afterCased c cs) : x = c := by
  unfold image at h
  split at h
  · rw [List.mem_singleton] at h
    subst h
    split at hx <;> simp at hx
  · exact eq_of_mem_lowerChar hpos hx h

theorem image_ne_nil (afterCased : Bool) (c : Char) (cs : List Char) :
    image afterCased c cs ≠ [] := by
  unfold image lowerChar
  split
  · simp
  · repeat' split
    all_goals simp

theorem mem_of_mem_lowerFrom (hpos : 0 < x.toNat) (hx : x.toNat < 0x41)
    (h : x ∈ lowerFrom afterCased cs) : x ∈ cs := by
  induction cs generalizing afterCased with
  | nil => exact h
  | cons c cs ih =>
      rw [lowerFrom_cons, List.mem_append] at h
      rcases h with h | h
      · rw [eq_of_mem_image hpos hx h]
        exact List.mem_cons_self ..
      · exact List.mem_cons_of_mem _ (ih h)

/-- Lower-casing brings no hyphen to the front. -/
theorem head?_of_head?_lowerFrom (h : (lowerFrom afterCased cs).head? = some '-') :
    cs.head? = some '-' := by
  cases cs with
  | nil => exact h
  | cons c cs =>
      obtain ⟨y, ys, hy⟩ := List.exists_cons_of_ne_nil (image_ne_nil afterCased c cs)
      rw [lowerFrom_cons, hy, List.cons_append, List.head?_cons, Option.some.injEq] at h
      subst h
      have hmem : '-' ∈ image afterCased c cs := by
        rw [hy]
        exact List.mem_cons_self ..
      rw [List.head?_cons, ← eq_of_mem_image (by decide) (by decide) hmem]

theorem image_hyphen (afterCased : Bool) (cs : List Char) : image afterCased '-' cs = ['-'] := rfl

theorem startsCased_append (hd : IsTail d) (cs : List Char) :
    startsCased (cs ++ d) = startsCased cs := by
  simp only [startsCased, hd.dropWhile_append (show isCaseIgnorable '-' = false by decide)]
  cases cs.dropWhile isCaseIgnorable with
  | nil => rcases hd with rfl | ⟨r, rfl⟩ <;> rfl
  | cons c cs => rfl

/-- A capital sigma looks for the end of its word, which a comment is. -/
theorem image_append (hd : IsTail d) (afterCased : Bool) (c : Char) (cs : List Char) :
    image afterCased c (cs ++ d) = image afterCased c cs := by
  rw [image, image, startsCased_append hd]

theorem exists_lowerFrom_append (hd : IsTail d) (afterCased : Bool) (cs : List Char) :
    ∃ d', IsTail d' ∧ lowerFrom afterCased (cs ++ d) = lowerFrom afterCased cs ++ d' := by
  induction cs generalizing afterCased with
  | nil =>
      rcases hd with rfl | ⟨r, rfl⟩
      · exact ⟨[], Or.inl rfl, rfl⟩
      · rw [List.nil_append, lowerFrom_cons, image_hyphen, lowerFrom_cons, image_hyphen]
        exact ⟨_, Or.inr ⟨_, rfl⟩, rfl⟩
  | cons c cs ih =>
      obtain ⟨d', hd', heq⟩ := ih (if isCaseIgnorable c then afterCased else isCased c)
      refine ⟨d', hd', ?_⟩
      rw [List.cons_append, lowerFrom_cons, lowerFrom_cons, image_append hd, heq, List.append_assoc]

end Text

namespace Source

theorem stripComment_append_of_not_mem {as : List Char} (h : '-' ∉ as) (bs : List Char) :
    stripComment (as ++ bs) = as ++ stripComment bs := by
  induction as with
  | nil => rfl
  | cons a as ih =>
      obtain ⟨ha, has⟩ : '-' ≠ a ∧ '-' ∉ as := by simpa using h
      rw [List.cons_append, stripComment, ih has]
      · rfl
      · exact fun _ heq => absurd heq.symm ha

theorem stripComment_cons_hyphen {cs : List Char} (h : cs.head? ≠ some '-') :
    stripComment ('-' :: cs) = '-' :: stripComment cs := by
  rw [stripComment]
  rintro r - rfl
  exact h rfl

/-- **A comment stays where it is** when a line is lower-cased. -/
theorem stripComment_lowerFrom (afterCased : Bool) (cs : List Char) :
    stripComment (Text.lowerFrom afterCased cs) = Text.lowerFrom afterCased (stripComment cs) := by
  fun_induction stripComment cs generalizing afterCased with
  | case1 => rfl
  | case2 cs =>
      rw [Text.lowerFrom_cons, Text.image_hyphen, Text.lowerFrom_cons, Text.image_hyphen]
      rfl
  | case3 c cs hne ih =>
      obtain ⟨d, hd, heq⟩ := exists_tail cs
      have himage : Text.image afterCased c cs = Text.image afterCased c (stripComment cs) := by
        conv_lhs => rw [heq]
        exact Text.image_append hd ..
      rw [Text.lowerFrom_cons, Text.lowerFrom_cons, ← himage, ← ih]
      by_cases hc : c = '-'
      · -- no hyphen follows, and lower-casing brings none
        subst hc
        rw [Text.image_hyphen]
        refine stripComment_cons_hyphen fun hhead => ?_
        obtain ⟨r, hr⟩ := List.head?_eq_some_iff.1 (Text.head?_of_head?_lowerFrom hhead)
        exact hne r rfl hr
      · refine stripComment_append_of_not_mem (fun hmem => ?_) _
        exact hc (Text.eq_of_mem_image (by decide) (by decide) hmem).symm

theorem stripComment_lower (text : List Char) :
    stripComment (Text.lower text) = Text.lower (stripComment text) :=
  stripComment_lowerFrom false text

/-- What a lower-cased line has behind its code is a comment. -/
theorem exists_lower_eq (text : List Char) :
    ∃ d, IsTail d ∧ Text.lower text = Text.lower (stripComment text) ++ d := by
  obtain ⟨d, hd, heq⟩ := exists_tail text
  obtain ⟨d', hd', hlower⟩ := Text.exists_lowerFrom_append hd false (stripComment text)
  refine ⟨d', hd', ?_⟩
  rw [← heq] at hlower
  exact hlower

end Source

end VhdlCatalog
