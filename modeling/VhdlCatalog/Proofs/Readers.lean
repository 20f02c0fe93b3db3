import VhdlCatalog.Proofs.BodyCutoff
import VhdlCatalog.Proofs.DeclaredNames

/-!
**What the readers take off a line.**

Every reader skips white space and takes a word or a mark.  This module says of each reader which
lines it accepts and how it divides them: what it skips, what it takes and what it leaves.  Words
are taken as long as they go.  So are the names of a list, which have commas between them and
optional white space around the commas: no list of names that stands at the same place goes on after
the one that is taken.

Main definitions:

* `VhdlCatalog.Text.AllBlank`, `VhdlCatalog.Text.IsName` — white space only, and one whole word;
* `VhdlCatalog.Text.NameList` — names with commas between them;
* `VhdlCatalog.Text.LongestList` — a list of names that is as long as it can be where it stands.

Main results:

* `VhdlCatalog.Token.keyword?_eq_some_iff`, `VhdlCatalog.Token.identifier?_eq_some_iff`,
  `VhdlCatalog.Token.mark?_eq_some_iff` — **which lines the readers accept**;
* `VhdlCatalog.Text.NameList.names_eq` — a list of names is cut at its commas into its names;
* `VhdlCatalog.Token.exists_longestList` — **the names that are taken are a longest list**.
-/

set_option relaxedAutoImplicit false
set_option autoImplicit false

namespace VhdlCatalog

namespace Text

/-- White space only. -/
def AllBlank (cs : List Char) : Prop := ∀ c ∈ cs, isBlank c = true

/-- Word characters only, and at least one. -/
structure IsName (name : List Char) : Prop where
  nonempty : name ≠ []
  isWord : ∀ c ∈ name, VhdlCatalog.isWord c = true

/-- Words in plain letters are names. -/
theorem isName_of_isPlainWord {word : List Char} (h : Canonical.isPlainWord word = true) :
    IsName word :=
  ⟨Canonical.Word.ne_nil ⟨word, h⟩, Canonical.isWord_of_isPlainWord h⟩

theorem allBlank_nil : AllBlank [] := by simp [AllBlank]

section Gaps

variable {name gap cs : List Char}

/-- What is skipped before a reader begins. -/
theorem exists_gap (cs : List Char) : ∃ gap, AllBlank gap ∧ cs = gap ++ skipBlanks cs :=
  ⟨cs.takeWhile isBlank, fun _ hc => List.mem_takeWhile_imp hc,
    List.takeWhile_append_dropWhile.symm⟩

/-- No white space is left before a name. -/
theorem IsName.isBlank_of_head? (h : IsName name) (cs : List Char) :
    ∀ c ∈ (name ++ cs).head?, isBlank c = false := by
  intro c hc
  obtain ⟨d, name, rfl⟩ := List.exists_cons_of_ne_nil h.nonempty
  obtain rfl : d = c := by simpa using hc
  exact isBlank_of_isWord (h.isWord d (List.mem_cons_self ..))

theorem skipBlanks_gap_name (hgap : AllBlank gap) (hname : IsName name) (cs : List Char) :
    skipBlanks (gap ++ (name ++ cs)) = name ++ cs :=
  dropWhile_append_of_head? hgap (hname.isBlank_of_head? cs)

/-- A word ends where white space begins. -/
theorem atWordEnd_gap (hgap : AllBlank gap) (hne : gap ≠ []) (cs : List Char) :
    atWordEnd (gap ++ cs) = true := by
  obtain ⟨c, gap, rfl⟩ := List.exists_cons_of_ne_nil hne
  rw [List.cons_append, atWordEnd_cons, Bool.not_eq_true']
  refine Bool.eq_false_iff.2 fun hword => ?_
  have hblank := hgap c (List.mem_cons_self ..)
  rw [isBlank_of_isWord hword] at hblank
  cases hblank

/-- Where a word ends, white space comes before the next name. -/
theorem gap_ne_nil (hend : atWordEnd (gap ++ (name ++ cs)) = true) (hname : IsName name) :
    gap ≠ [] := by
  rintro rfl
  obtain ⟨c, name, rfl⟩ := List.exists_cons_of_ne_nil hname.nonempty
  have hc := (atWordEnd_iff _).1 hend c (by simp)
  rw [hname.isWord c (List.mem_cons_self ..)] at hc
  cases hc

/-- A word ends before a comma and the white space around it. -/
theorem atWordEnd_gap_comma (hgap : AllBlank gap) (cs : List Char) :
    atWordEnd (gap ++ ',' :: cs) = true := by
  cases gap with
  | nil =>
      rw [List.nil_append, atWordEnd_cons]
      decide
  | cons c gap => exact atWordEnd_gap hgap (by simp) _

end Gaps

end Text

theorem isBlank_comma : isBlank ',' = false := by decide

/-! ### Single readers -/

namespace Token

open Text

variable {word : String} {cs name rest : List Char}

/-- **A given word** is taken where it stands as a whole. -/
theorem keyword?_eq_some_iff (hword : IsName word.toList) :
    keyword? word cs = some rest ↔
      atWordEnd rest = true ∧ ∃ gap, AllBlank gap ∧ cs = gap ++ (word.toList ++ rest) := by
  constructor
  · intro h
    have hskip := exists_of_keyword? h
    obtain ⟨gap, hgap, hcs⟩ := exists_gap cs
    rw [hskip] at hcs
    refine ⟨?_, gap, hgap, hcs⟩
    rw [keyword?, hskip, (afterLiteral?_eq_some_iff _ _ _).2 rfl] at h
    simpa using h
  · rintro ⟨hend, gap, hgap, rfl⟩
    rw [keyword?, skipBlanks_gap_name hgap hword, (afterLiteral?_eq_some_iff _ _ _).2 rfl]
    simpa using hend

/-- **Any word** is taken as long as it goes. -/
theorem identifier?_eq_some_iff :
    identifier? cs = some (name, rest) ↔
      IsName name ∧ atWordEnd rest = true ∧ ∃ gap, AllBlank gap ∧ cs = gap ++ (name ++ rest) := by
  constructor
  · intro h
    obtain ⟨hne, hword, -, -⟩ := word_of_identifier? h
    obtain ⟨gap, hgap, hcs⟩ := exists_gap cs
    have hsplit := List.takeWhile_append_dropWhile (p := isWord) (l := skipBlanks cs)
    rw [identifier?] at h
    split at h
    · cases h
    · next c tail htake =>
        obtain ⟨rfl, rfl⟩ := Prod.mk.inj (Option.some.inj h)
        rw [htake] at hsplit
        refine ⟨⟨hne, hword⟩, (atWordEnd_iff _).2 fun c hc => ?_, gap, hgap, ?_⟩
        · have hnot := List.head?_dropWhile_not isWord (skipBlanks cs)
          rwa [Option.mem_def.1 hc] at hnot
        · rw [hsplit]
          exact hcs
  · rintro ⟨hname, hend, gap, hgap, rfl⟩
    rw [identifier?, skipBlanks_gap_name hgap hname]
    simp only [Canonical.takeWhile_isWord hname.isWord hend,
      Canonical.dropWhile_isWord hname.isWord hend]
    obtain ⟨c, name, rfl⟩ := List.exists_cons_of_ne_nil hname.nonempty
    rfl

/-- Where a name stands some word is taken, which may go on after the name. -/
theorem exists_identifier? {gap : List Char} (hgap : AllBlank gap) (hname : IsName name)
    (cs : List Char) : ∃ name' rest, identifier? (gap ++ (name ++ cs)) = some (name', rest) := by
  obtain ⟨c, name, rfl⟩ := List.exists_cons_of_ne_nil hname.nonempty
  have hc : isWord c = true := hname.isWord c (List.mem_cons_self ..)
  rw [identifier?, skipBlanks_gap_name hgap hname, List.cons_append, List.takeWhile_cons_of_pos hc]
  exact ⟨_, _, rfl⟩

/-- **A mark** is taken where it comes next. -/
theorem mark?_eq_some_iff {c : Char} (hc : isBlank c = false) :
    mark? c cs = some rest ↔ ∃ gap, AllBlank gap ∧ cs = gap ++ c :: rest := by
  constructor
  · intro h
    obtain ⟨gap, hgap, hcs⟩ := exists_gap cs
    rw [mark?] at h
    split at h
    · next d tail htail =>
        split at h
        · next hd =>
            obtain rfl := Option.some.inj h
            rw [htail, hd] at hcs
            exact ⟨gap, hgap, hcs⟩
        · cases h
    · cases h
  · rintro ⟨gap, hgap, rfl⟩
    have hskip : skipBlanks (gap ++ c :: rest) = c :: rest :=
      dropWhile_append_of_head? hgap (by simpa using hc)
    simp only [mark?, hskip, if_true]

/-- A mark comes next, after white space. -/
theorem isSome_mark?_iff {c : Char} (hc : isBlank c = false) (cs : List Char) :
    (mark? c cs).isSome = true ↔
      ∃ gap rest, cs = gap ++ c :: rest ∧ ∀ x ∈ gap, isBlank x = true := by
  rw [Option.isSome_iff_exists]
  constructor
  · rintro ⟨rest, h⟩
    obtain ⟨gap, hgap, hcs⟩ := (mark?_eq_some_iff hc).1 h
    exact ⟨gap, rest, hcs, hgap⟩
  · rintro ⟨gap, rest, hcs, hgap⟩
    exact ⟨rest, (mark?_eq_some_iff hc).2 ⟨gap, hgap, hcs⟩⟩

end Token

/-! ### Lists of names -/

namespace Text

/-- The text is the list of names, with a comma and optional white space between two of them. -/
inductive NameList : List (List Char) → List Char → Prop
  /-- One name. -/
  | one {name : List Char} (hname : IsName name) : NameList [name] name
  /-- A name, a comma and a list. -/
  | cons {name gap gap' text : List Char} {names : List (List Char)} (hname : IsName name)
      (hgap : AllBlank gap) (hgap' : AllBlank gap') (hmore : NameList names text) :
      NameList (name :: names) (name ++ (gap ++ ',' :: (gap' ++ text)))

/-- The list of names stands before `rest`, and no list that begins where it does goes on after
it. -/
structure LongestList (names : List (List Char)) (text rest : List Char) : Prop where
  list : NameList names text
  longest : ∀ names' text', NameList names' text' → text' <+: text ++ rest → text' <+: text

variable {names names' : List (List Char)} {text text' rest rest' name cs : List Char}

/-- A list begins with a name. -/
theorem NameList.exists_name (h : NameList names text) :
    ∃ name more, IsName name ∧ text = name ++ more := by
  cases h with
  | one hname => exact ⟨_, [], hname, (List.append_nil _).symm⟩
  | cons hname _ _ _ => exact ⟨_, _, hname, rfl⟩

theorem NameList.isName_of_mem (h : NameList names text) (hname : name ∈ names) : IsName name := by
  induction h with
  | one hone => rwa [List.mem_singleton.1 hname]
  | cons hfirst _ _ _ ih =>
      rcases List.mem_cons.1 hname with rfl | hname
      · exact hfirst
      · exact ih hname

/-- No white space is left before a list. -/
theorem NameList.isBlank_of_head? (h : NameList names text) (cs : List Char) :
    ∀ c ∈ (text ++ cs).head?, isBlank c = false := by
  obtain ⟨name, more, hname, rfl⟩ := h.exists_name
  rw [List.append_assoc]
  exact hname.isBlank_of_head? (more ++ cs)

/-- White space around a name is trimmed. -/
theorem strip_gap_name {gap gap' : List Char} (hgap : AllBlank gap) (hname : IsName name)
    (hgap' : AllBlank gap') : strip (gap ++ (name ++ gap')) = name := by
  have hlast : ∀ c ∈ name.reverse.head?, isBlank c = false := by
    intro c hc
    exact isBlank_of_isWord (hname.isWord c (List.mem_reverse.1 (List.mem_of_mem_head? hc)))
  rw [strip, skipBlanks_gap_name hgap hname, trimEnd, List.reverse_append,
    dropWhile_append_of_head? (fun c hc => hgap' c (List.mem_reverse.1 hc)) hlast,
    List.reverse_reverse]

/-- Neither white space nor a name has a comma. -/
theorem isComma_eq_false_of_gap {gap : List Char} (hgap : AllBlank gap) :
    ∀ c ∈ gap, (c == ',') = false := by
  intro c hc
  refine Bool.eq_false_iff.2 fun heq => ?_
  have hblank := hgap c hc
  rw [beq_iff_eq.1 heq] at hblank
  revert hblank
  decide

theorem IsName.isComma_eq_false (hname : IsName name) : ∀ c ∈ name, (c == ',') = false := by
  intro c hc
  refine Bool.eq_false_iff.2 fun heq => ?_
  have hword := hname.isWord c hc
  rw [beq_iff_eq.1 heq] at hword
  revert hword
  decide

/-- **The names of a list** are what it is cut into at its commas, without the white space around
them. -/
theorem NameList.names_eq (h : NameList names text) :
    (pieces (· == ',') text).map strip = names := by
  -- the white space after a comma comes before the next name
  suffices hgen : ∀ gap, AllBlank gap → (pieces (· == ',') (gap ++ text)).map strip = names from
    hgen [] allBlank_nil
  induction h with
  | one hname =>
      intro gap hgap
      have hcomma : ∀ c ∈ gap ++ _, (c == ',') = false := List.forall_mem_append.2
        ⟨isComma_eq_false_of_gap hgap, hname.isComma_eq_false⟩
      have hstrip := strip_gap_name hgap hname allBlank_nil
      rw [List.append_nil] at hstrip
      rw [Canonical.pieces_of_forall hcomma, List.map_singleton, hstrip]
  | @cons name gap₁ gap₂ text names hname hgap₁ hgap₂ _ ih =>
      intro gap hgap
      have hcomma : ∀ c ∈ gap ++ (name ++ gap₁), (c == ',') = false := by
        refine List.forall_mem_append.2 ⟨isComma_eq_false_of_gap hgap, ?_⟩
        exact List.forall_mem_append.2 ⟨hname.isComma_eq_false, isComma_eq_false_of_gap hgap₁⟩
      have hcut : pieces (· == ',') (gap ++ (name ++ (gap₁ ++ ',' :: (gap₂ ++ text)))) =
          (gap ++ (name ++ gap₁)) :: pieces (· == ',') (gap₂ ++ text) := by
        rw [pieces_eq_splitOnP, pieces_eq_splitOnP]
        rw [← List.splitOnP_append_cons_of_forall_mem hcomma ',' rfl]
        simp only [List.append_assoc]
      rw [hcut, List.map_cons, strip_gap_name hgap hname hgap₁, ih gap₂ hgap₂]

/-- A longest list is fixed by the text it stands in. -/
theorem LongestList.names_eq (h : LongestList names text rest)
    (h' : LongestList names' text' rest') (heq : text ++ rest = text' ++ rest') :
    names = names' := by
  have hle : text <+: text' := h'.longest names text h.list (heq ▸ List.prefix_append text rest)
  have hge : text' <+: text := h.longest names' text' h'.list
    (heq ▸ List.prefix_append text' rest')
  have htext : text = text' := hle.eq_of_length_le hge.length_le
  rw [← h.list.names_eq, htext, h'.list.names_eq]

/-- A list that begins where a word stands is part of the word, or goes on after it with a
comma. -/
theorem NameList.prefix_cases (h : NameList names text) (hbegins : text <+: name ++ cs)
    (hname : IsName name) (hend : atWordEnd cs = true) :
    text <+: name ∨ ∃ gap gap' names' text', AllBlank gap ∧ AllBlank gap' ∧
      NameList names' text' ∧ text = name ++ (gap ++ ',' :: (gap' ++ text')) ∧
      gap ++ ',' :: (gap' ++ text') <+: cs := by
  have hend := (atWordEnd_iff cs).1 hend
  obtain ⟨after, heq⟩ := hbegins
  cases h with
  | one hname' => exact Or.inl (prefix_of_forall ⟨after, heq⟩ hname'.isWord hend)
  | cons hname' hgap hgap' hmore =>
      have heq' := heq.symm
      simp only [List.append_assoc, List.cons_append] at heq'
      obtain ⟨rfl, rfl⟩ := append_inj_of_head? heq' hname.isWord hend hname'.isWord
        ((atWordEnd_iff _).1 (atWordEnd_gap_comma hgap _))
      exact Or.inr ⟨_, _, _, _, hgap, hgap', hmore, rfl, after, by simp⟩

/-- A name and a comma before a longest list make a longest list. -/
theorem LongestList.cons {gap gap' : List Char} (hname : IsName name) (hgap : AllBlank gap)
    (hgap' : AllBlank gap') (h : LongestList names text rest) :
    LongestList (name :: names) (name ++ (gap ++ ',' :: (gap' ++ text))) rest := by
  refine ⟨.cons hname hgap hgap' h.list, fun names' text' hlist hbegins => ?_⟩
  have hend : atWordEnd (gap ++ ',' :: (gap' ++ (text ++ rest))) = true :=
    atWordEnd_gap_comma hgap _
  have hbegins' : text' <+: name ++ (gap ++ ',' :: (gap' ++ (text ++ rest))) := by
    simpa using hbegins
  rcases hlist.prefix_cases hbegins' hname hend with hle | hmore
  · exact hle.trans (List.prefix_append _ _)
  · obtain ⟨gap₁, gap₂, names₁, text₁, hgap₁, hgap₂, hlist₁, rfl, after, hafter⟩ := hmore
    -- both have the same white space around the comma, so what the one list goes on with begins
    -- where the longest list does
    have hcomma₁ : gap₁ ++ ',' :: (gap₂ ++ (text₁ ++ after)) =
        gap ++ ',' :: (gap' ++ (text ++ rest)) := by
      rw [← hafter]
      simp
    obtain ⟨rfl, htail⟩ := append_inj_of_head? hcomma₁ hgap₁ (by simp [isBlank_comma]) hgap
      (by simp [isBlank_comma])
    obtain ⟨rfl, hrest⟩ := append_inj_of_head? (List.cons.inj htail).2 hgap₂
      (hlist₁.isBlank_of_head? after) hgap' (h.list.isBlank_of_head? rest)
    obtain ⟨left, rfl⟩ := h.longest names₁ text₁ hlist₁ ⟨after, hrest⟩
    exact ⟨left, by simp⟩

end Text

namespace Token

open Text

/-- A name is a longest list by itself where no comma with a word comes after it. -/
theorem longestList_singleton {name cs : List Char} (hname : IsName name)
    (hend : atWordEnd cs = true) (hnone : nextIdentifier? cs = none) :
    LongestList [name] name cs := by
  refine ⟨.one hname, fun names text hlist hbegins => ?_⟩
  rcases hlist.prefix_cases hbegins hname hend with hle | hmore
  · exact hle
  · obtain ⟨gap, gap', names', text', hgap, hgap', hlist', -, after, rfl⟩ := hmore
    obtain ⟨first, more, hfirst, rfl⟩ := hlist'.exists_name
    exfalso
    have hcomma : mark? ',' (gap ++ ',' :: (gap' ++ (first ++ more)) ++ after) =
        some (gap' ++ (first ++ (more ++ after))) :=
      (mark?_eq_some_iff isBlank_comma).2 ⟨gap, hgap, by simp⟩
    obtain ⟨word, left, hword⟩ := exists_identifier? hgap' hfirst (more ++ after)
    rw [nextIdentifier?, hcomma, Option.bind_some, hword] at hnone
    cases hnone

/-- **The names that are taken** after a first one make with it a longest list. -/
theorem exists_longestList {name cs : List Char} (hname : IsName name)
    (hend : atWordEnd cs = true) :
    ∃ text rest, name ++ cs = text ++ rest ∧
      LongestList (name :: moreIdentifiers cs) text rest := by
  -- the induction is on the names that are taken; each is the first of a list of its own
  fun_induction moreIdentifiers cs generalizing name with
  | case1 cs hnone => exact ⟨name, cs, rfl, longestList_singleton hname hend hnone⟩
  | case2 cs name' rest' hsome ih =>
      obtain ⟨after, hcomma, hword⟩ := Option.bind_eq_some_iff.1 hsome
      obtain ⟨gap, hgap, rfl⟩ := (mark?_eq_some_iff isBlank_comma).1 hcomma
      obtain ⟨hname', hend', gap', hgap', rfl⟩ := identifier?_eq_some_iff.1 hword
      obtain ⟨text, rest, heq, hlongest⟩ := ih hname' hend'
      exact ⟨name ++ (gap ++ ',' :: (gap' ++ text)), rest, by simp [heq],
        hlongest.cons hname hgap hgap'⟩

end Token

end VhdlCatalog
