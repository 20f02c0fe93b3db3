import Mathlib.Data.List.SplitBy
import VhdlCatalog.Proofs.Classification
import VhdlCatalog.Proofs.WordEmphasis

/-!
**Names on lines that begin with `end`.**

A package or a record type ends with a line that begins with `end` and says what it ends, by kind or
by name.  The name is looked for at every place of the line without its comment; a place does not
count where a word character or a quote stands next to the name.  Places may overlap, and one that
does not count may come before one that does.  The search comes to the same as cutting the line into
its words: the name is found exactly when it is one of them and no quote stands next to it.  A name
that is part of a longer word, or stands in the comment, ends nothing.

Main definitions:

* `VhdlCatalog.Text.runs` — a text cut into its words and what stands between them;
* `VhdlCatalog.Text.HasBareWord` — a name is one of the words of a text and not in quotes;
* `VhdlCatalog.EndLine`, `VhdlCatalog.GoesOnWith` — the first words of a line that ends something;
* `VhdlCatalog.NeverWhole` — a name that stands in a line only as part of a word or in the comment.

Main results:

* `VhdlCatalog.Text.wordAt_iff_runs` — words that go on on neither side are the runs of a text;
* `VhdlCatalog.mentions_eq_true_iff` — **which lines mention a name**;
* `VhdlCatalog.neverWhole_iff` — a name never stands whole in a line when it is none of its words;
* `VhdlCatalog.closedBy_package_iff`, `VhdlCatalog.closedBy_recordType_iff` — which lines close
  packages and record types;
* `VhdlCatalog.Scan.package_stays_open` — a package stays open over lines that do not have its whole
  name;
* `VhdlCatalog.packages_end_at_whole_names` — **a package ends at its whole name**.
-/

set_option relaxedAutoImplicit false
set_option autoImplicit false

namespace VhdlCatalog

open Source

/-! ### Cutting a text into words -/

namespace Text

/-- Both characters are word characters, or neither is. -/
def sameKind (c d : Char) : Bool := isWord c == isWord d

/-- The text cut where a word begins or ends: its words, and what stands between them. -/
def runs (cs : List Char) : List (List Char) := cs.splitBy sameKind

/-- The name is one of the words of the text, and no quote stands directly before or after it. -/
def HasBareWord (name text : List Char) : Prop :=
  ∃ front back, runs text = front ++ name :: back ∧
    front.flatten.getLast? ≠ some '"' ∧ back.flatten.head? ≠ some '"'

/-- The text `part` stands in the text, after `before` and before `after`, as a proper part of a
word: as its beginning, its end or something between. -/
def WithinWord (text before part after : List Char) : Prop :=
  ∃ front u v back, WordAt text front (u ++ part ++ v) back ∧ (u ≠ [] ∨ v ≠ []) ∧
    before = front ++ u ∧ after = v ++ back

variable {text before name after : List Char} {front back : List (List Char)} {c d : Char}

theorem sameKind_of_isWord (hc : isWord c = true) (hd : isWord d = true) : sameKind c d = true := by
  rw [sameKind, hc, hd]
  rfl

theorem sameKind_eq_false_iff_left (hc : isWord c = true) :
    sameKind c d = false ↔ isWord d = false := by
  simp [sameKind, hc]

theorem sameKind_eq_false_iff_right (hd : isWord d = true) :
    sameKind c d = false ↔ isWord c = false := by
  simp [sameKind, hd]

@[simp] theorem flatten_runs (text : List Char) : (runs text).flatten = text :=
  List.flatten_splitBy sameKind text

/-- A name by itself is not cut. -/
theorem IsName.runs_eq (h : IsName name) : runs name = [name] := by
  refine List.splitBy_of_isChain h.nonempty (List.Pairwise.isChain ?_)
  exact List.pairwise_of_forall_mem_list fun c hc d hd =>
    sameKind_of_isWord (h.isWord c hc) (h.isWord d hd)

/-- A word is cut out of its text. -/
theorem WordAt.runs_eq (h : WordAt text before name after) :
    runs text = runs before ++ name :: runs after := by
  obtain ⟨hsplit, hname, hleft, hright⟩ := h
  have hbefore : ∀ c ∈ before.getLast?, ∀ d ∈ (name ++ after).head?, sameKind c d = false := by
    intro c hc d hd
    obtain ⟨e, name, rfl⟩ := List.exists_cons_of_ne_nil hname.nonempty
    obtain rfl : e = d := by simpa using hd
    exact (sameKind_eq_false_iff_right (hname.isWord e (List.mem_cons_self ..))).2 (hleft c hc)
  have hafter : ∀ c ∈ name.getLast?, ∀ d ∈ after.head?, sameKind c d = false := by
    intro c hc d hd
    exact (sameKind_eq_false_iff_left (hname.isWord c (List.mem_of_getLast? hc))).2 (hright d hd)
  calc runs text = runs before ++ runs (name ++ after) := by
        rw [hsplit, List.append_assoc, runs, List.splitBy_append hbefore]
        rfl
    _ = runs before ++ (runs name ++ runs after) := by
        rw [runs, runs, List.splitBy_append hafter]
        rfl
    _ = runs before ++ name :: runs after := by
        rw [hname.runs_eq, List.singleton_append]

/-- A name that is cut out of a text is one of its words, and goes on on neither side. -/
theorem wordAt_of_runs (hname : IsName name) (h : runs text = front ++ name :: back) :
    WordAt text front.flatten name back.flatten := by
  -- what is cut apart is of different kinds where it is cut
  have hchain := List.isChain_getLast_head_splitBy sameKind text
  rw [← runs, h] at hchain
  refine ⟨?_, hname, fun c hc => ?_, fun c hc => ?_⟩
  · calc text = (runs text).flatten := (flatten_runs text).symm
      _ = front.flatten ++ name ++ back.flatten := by
          rw [h]
          simp
  · rcases List.eq_nil_or_concat' front with rfl | ⟨front, run, rfl⟩
    · cases hc
    · rw [List.append_assoc] at hchain
      obtain ⟨hrun, hne, hcut⟩ := (List.isChain_append_cons_cons.1 hchain).2.1
      obtain rfl : run.getLast hrun = c := by
        simpa [List.getLast?_append, List.getLast?_eq_getLast_of_ne_nil hrun] using hc
      exact (sameKind_eq_false_iff_right (hname.isWord _ (List.head_mem hne))).1 hcut
  · cases back with
    | nil => cases hc
    | cons run back =>
        obtain ⟨hne, hrun, hcut⟩ := (List.isChain_append_cons_cons.1 hchain).2.1
        obtain rfl : run.head hrun = c := by
          simpa [List.head?_append, List.head?_eq_some_head hrun] using hc
        exact (sameKind_eq_false_iff_left (hname.isWord _ (List.getLast_mem hne))).1 hcut

/-- **Words that go on on neither side are the runs of a text** that are names. -/
theorem wordAt_iff_runs :
    WordAt text before name after ↔ IsName name ∧ ∃ front back,
      runs text = front ++ name :: back ∧ front.flatten = before ∧ back.flatten = after := by
  constructor
  · intro h
    exact ⟨h.name, _, _, h.runs_eq, flatten_runs before, flatten_runs after⟩
  · rintro ⟨hname, front, back, h, rfl, rfl⟩
    exact wordAt_of_runs hname h

/-- Wherever a name stands in a text, some word has it as a part. -/
theorem exists_wordAt (hname : IsName name) (h : text = before ++ name ++ after) :
    ∃ front u v back, WordAt text front (u ++ name ++ v) back ∧
      before = front ++ u ∧ after = v ++ back := by
  have hbefore : before.rdropWhile isWord ++ before.rtakeWhile isWord = before :=
    List.rdropWhile_append_rtakeWhile
  have hafter : after.takeWhile isWord ++ after.dropWhile isWord = after :=
    List.takeWhile_append_dropWhile
  refine ⟨before.rdropWhile isWord, before.rtakeWhile isWord, after.takeWhile isWord,
    after.dropWhile isWord, ⟨?_, ⟨?_, ?_⟩, ?_, ?_⟩, hbefore.symm, hafter.symm⟩
  · calc text = (before.rdropWhile isWord ++ before.rtakeWhile isWord) ++ name ++
          (after.takeWhile isWord ++ after.dropWhile isWord) := by rw [hbefore, hafter, h]
      _ = before.rdropWhile isWord ++ (before.rtakeWhile isWord ++ name ++
          after.takeWhile isWord) ++ after.dropWhile isWord := by simp only [List.append_assoc]
  · simp [hname.nonempty]
  · intro c hc
    simp only [List.mem_append] at hc
    rcases hc with (hc | hc) | hc
    · exact List.mem_rtakeWhile_imp hc
    · exact hname.isWord c hc
    · exact List.mem_takeWhile_imp hc
  · intro c hc
    have hnot := List.head?_dropWhile_not isWord before.reverse
    rw [List.rdropWhile, List.getLast?_reverse, Option.mem_def] at hc
    rwa [hc] at hnot
  · intro c hc
    have hnot := List.head?_dropWhile_not isWord after
    rwa [Option.mem_def.1 hc] at hnot

/-- What goes on on one of its sides is not a word as long as it goes. -/
theorem WithinWord.not_wordAt (h : WithinWord text before name after) :
    ¬WordAt text before name after := by
  rintro ⟨-, -, hleft, hright⟩
  obtain ⟨front, u, v, back, ⟨-, hword, -, -⟩, hproper, rfl, rfl⟩ := h
  rcases hproper with hu | hv
  · rcases List.eq_nil_or_concat' u with rfl | ⟨u, c, rfl⟩
    · exact hu rfl
    · have hc := hleft c (by simp)
      rw [hword.isWord c (by simp)] at hc
      cases hc
  · obtain ⟨c, v, rfl⟩ := List.exists_cons_of_ne_nil hv
    have hc := hright c (by simp)
    rw [hword.isWord c (by simp)] at hc
    cases hc

/-- A comment goes on no word and has no part in the words before it. -/
theorem wordAt_append_iff {comment : List Char} (hcomment : IsTail comment) :
    WordAt (text ++ comment) before name (after ++ comment) ↔ WordAt text before name after := by
  have hsplit : text ++ comment = before ++ name ++ (after ++ comment) ↔
      text = before ++ name ++ after := by
    rw [← List.append_assoc, List.append_left_inj]
  have hright : (∀ c ∈ (after ++ comment).head?, isWord c = false) ↔
      ∀ c ∈ after.head?, isWord c = false := by
    rw [← atWordEnd_iff, ← atWordEnd_iff, atWordEnd_append hcomment]
  constructor
  · rintro ⟨htext, hname, hleft, hend⟩
    exact ⟨hsplit.1 htext, hname, hleft, hright.1 hend⟩
  · rintro ⟨htext, hname, hleft, hend⟩
    exact ⟨hsplit.2 htext, hname, hleft, hright.2 hend⟩

theorem hasBareWord_iff (hname : IsName name) :
    HasBareWord name text ↔ ∃ before after, WordAt text before name after ∧
      before.getLast? ≠ some '"' ∧ after.head? ≠ some '"' := by
  constructor
  · rintro ⟨front, back, h, hleft, hright⟩
    exact ⟨_, _, wordAt_of_runs hname h, hleft, hright⟩
  · rintro ⟨before, after, h, hleft, hright⟩
    refine ⟨_, _, h.runs_eq, ?_, ?_⟩
    · rwa [flatten_runs]
    · rwa [flatten_runs]

theorem HasBareWord.mem_runs (h : HasBareWord name text) : name ∈ runs text := by
  obtain ⟨front, back, hruns, -, -⟩ := h
  rw [hruns]
  simp

end Text

open Text

/-! ### The search for a name -/

section Mentions

variable {name code line : List Char}

theorem adheres_eq_false_iff {c : Char} : adheres c = false ↔ isWord c = false ∧ c ≠ '"' := by
  simp [adheres]

/-- Nothing adheres where neither a word goes on nor a quote stands. -/
theorem forall_adheres_iff {o : Option Char} :
    (∀ c ∈ o, adheres c = false) ↔ (∀ c ∈ o, isWord c = false) ∧ o ≠ some '"' := by
  cases o with
  | none => simp
  | some c => simp [adheres_eq_false_iff]

theorem mentionsHere_eq_true_iff (name cs : List Char) :
    mentionsHere name cs = true ↔
      ∃ after, cs = name ++ after ∧ ∀ c ∈ after.head?, adheres c = false := by
  rw [mentionsHere]
  cases hafter : afterLiteral? name cs with
  | none =>
      refine iff_of_false (by simp) ?_
      rintro ⟨after, hcs, -⟩
      rw [(afterLiteral?_eq_some_iff _ _ _).2 hcs] at hafter
      cases hafter
  | some rest =>
      obtain rfl := (afterLiteral?_eq_some_iff _ _ _).1 hafter
      cases rest with
      | nil => simp
      | cons c rest => simp

/-- The search finds the name wherever nothing adheres to it, whatever other places there are. -/
theorem mentions_eq_true_iff_exists (name code : List Char) :
    mentions name code = true ↔ ∃ before after, code = before ++ name ++ after ∧
      (∀ c ∈ before.getLast?, adheres c = false) ∧ ∀ c ∈ after.head?, adheres c = false := by
  have hsearch : mentions name code = true ↔ _ :=
    search_eq_true_iff (fun _ => rfl) (fun _ _ _ => rfl) false code
  rw [hsearch]
  constructor
  · rintro ⟨before, rest, rfl, -, hleft, hhere⟩
    obtain ⟨after, rfl, hright⟩ := (mentionsHere_eq_true_iff _ _).1 hhere
    exact ⟨before, after, (List.append_assoc ..).symm, hleft, hright⟩
  · rintro ⟨before, after, rfl, hleft, hright⟩
    exact ⟨before, name ++ after, List.append_assoc .., fun _ => rfl, hleft,
      (mentionsHere_eq_true_iff _ _).2 ⟨after, rfl, hright⟩⟩

/-- **Which lines mention a name**: those of which it is one of the words, outside quotes. -/
theorem mentions_eq_true_iff (hname : IsName name) (code : List Char) :
    mentions name code = true ↔ HasBareWord name code := by
  rw [mentions_eq_true_iff_exists, hasBareWord_iff hname]
  constructor
  · rintro ⟨before, after, hsplit, hleft, hright⟩
    obtain ⟨hleft, hquote⟩ := forall_adheres_iff.1 hleft
    obtain ⟨hright, hquote'⟩ := forall_adheres_iff.1 hright
    exact ⟨before, after, ⟨hsplit, hname, hleft, hright⟩, hquote, hquote'⟩
  · rintro ⟨before, after, h, hquote, hquote'⟩
    exact ⟨before, after, h.split, forall_adheres_iff.2 ⟨h.left, hquote⟩,
      forall_adheres_iff.2 ⟨h.right, hquote'⟩⟩

/-- Wherever the name stands in the line, it is a proper part of a word or in the comment. -/
def NeverWhole (name line : List Char) : Prop :=
  ∀ before after, line = before ++ name ++ after →
    WithinWord line before name after ∨ stripComment line <+: before

theorem NeverWhole.not_mem_runs (hname : IsName name) (h : NeverWhole name line) :
    name ∉ runs (stripComment line) := by
  intro hmem
  obtain ⟨front, back, hruns⟩ := List.append_of_mem hmem
  obtain ⟨comment, hcomment, hline⟩ := exists_tail line
  have hcode : WordAt (stripComment line) front.flatten name back.flatten :=
    wordAt_of_runs hname hruns
  have hat : WordAt line front.flatten name (back.flatten ++ comment) := by
    rw [hline]
    exact (wordAt_append_iff hcomment).2 hcode
  rcases h _ _ hat.split with hwithin | hbefore
  · exact hwithin.not_wordAt hat
  · have hlength := hbefore.length_le
    have hpos := List.length_pos_iff.2 hname.nonempty
    rw [hcode.split, List.length_append, List.length_append] at hlength
    omega

theorem neverWhole_of_not_mem_runs (hname : IsName name) (h : name ∉ runs (stripComment line)) :
    NeverWhole name line := by
  intro before after hsplit
  obtain ⟨comment, hcomment, hline⟩ := exists_tail line
  have hprefix : stripComment line <+: line := ⟨comment, hline.symm⟩
  have hprefix' : before <+: line := ⟨name ++ after, by rw [hsplit, List.append_assoc]⟩
  rcases List.prefix_or_prefix_of_prefix hprefix hprefix' with hcode | ⟨rest, hcode⟩
  · exact Or.inr hcode
  · -- the name begins before the comment, and so it ends before the comment
    have hboth : before ++ (name ++ after) = before ++ (rest ++ comment) := by
      calc before ++ (name ++ after) = line := by rw [hsplit, List.append_assoc]
        _ = before ++ (rest ++ comment) := by rw [hline, ← hcode, List.append_assoc]
    have hrest : name ++ after = rest ++ comment := List.append_cancel_left hboth
    have hend : ∀ c ∈ comment.head?, isWord c = false :=
      (atWordEnd_iff comment).1 (atWordEnd_append hcomment [])
    obtain ⟨after', rfl⟩ : name <+: rest := prefix_of_forall ⟨after, hrest⟩ hname.isWord hend
    obtain rfl : after = after' ++ comment := by
      rw [List.append_assoc] at hrest
      exact List.append_cancel_left hrest
    obtain ⟨front, u, v, back, hat, hbefore, hafter⟩ := exists_wordAt hname hsplit
    refine Or.inl ⟨front, u, v, back, hat, ?_, hbefore, hafter⟩
    -- where nothing goes on, the name is one of the words
    by_contra hwhole
    obtain ⟨rfl, rfl⟩ : u = [] ∧ v = [] := by simpa using hwhole
    obtain rfl : before = front := by rw [hbefore, List.append_nil]
    obtain rfl : after' ++ comment = back := by rw [hafter, List.nil_append]
    have hcodeAt : WordAt (stripComment line) before name after' := by
      refine (wordAt_append_iff hcomment).1 ?_
      rw [← hline]
      simpa using hat
    refine h ?_
    rw [hcodeAt.runs_eq]
    simp

/-- **A name never stands whole** in a line exactly when it is not one of the words of the line
without its comment. -/
theorem neverWhole_iff (hname : IsName name) :
    NeverWhole name line ↔ name ∉ runs (stripComment line) :=
  ⟨NeverWhole.not_mem_runs hname, neverWhole_of_not_mem_runs hname⟩

end Mentions

/-! ### The first words of the line -/

/-- The line begins, after white space if there is any, with the whole word `end`; `rest` comes
after it. -/
def EndLine (line rest : List Char) : Prop :=
  ∃ gap, AllBlank gap ∧ WordAt line gap "end".toList rest

/-- White space comes next, and after it the whole word `word`. -/
def GoesOnWith (word text : List Char) : Prop :=
  ∃ gap after, gap ≠ [] ∧ AllBlank gap ∧ WordAt text gap word after

/-- Words are not part of white space. -/
theorem Text.AllBlank.isWord_of_getLast? {gap : List Char} (h : AllBlank gap) :
    ∀ c ∈ gap.getLast?, isWord c = false := by
  intro c hc
  refine Bool.eq_false_iff.2 fun hword => ?_
  have hblank := h c (List.mem_of_getLast? hc)
  rw [isBlank_of_isWord hword] at hblank
  cases hblank

section Words

variable {word : String} {line rest : List Char}

/-- A given word is taken off where it comes first as a whole. -/
theorem Token.keyword?_eq_some_iff_wordAt (hword : IsName word.toList) :
    keyword? word line = some rest ↔ ∃ gap, AllBlank gap ∧ WordAt line gap word.toList rest := by
  rw [keyword?_eq_some_iff hword, atWordEnd_iff]
  constructor
  · rintro ⟨hright, gap, hgap, hline⟩
    rw [← List.append_assoc] at hline
    exact ⟨gap, hgap, hline, hword, hgap.isWord_of_getLast?, hright⟩
  · rintro ⟨gap, hgap, h⟩
    refine ⟨h.right, gap, hgap, ?_⟩
    rw [← List.append_assoc]
    exact h.split

theorem keyword?_end_eq_some_iff : Token.keyword? "end" line = some rest ↔ EndLine line rest :=
  Token.keyword?_eq_some_iff_wordAt (isName_of_isPlainWord (by decide))

theorem startsEnd_eq_true_iff (line : List Char) :
    startsEnd line = true ↔ ∃ rest, EndLine line rest := by
  rw [startsEnd, Token.hasKeyword, Option.isSome_iff_exists]
  simp only [keyword?_end_eq_some_iff]

/-- There is one way only to take `end` off a line. -/
theorem EndLine.unique {rest' : List Char} (h : EndLine line rest) (h' : EndLine line rest') :
    rest = rest' :=
  Option.some.inj ((keyword?_end_eq_some_iff.2 h).symm.trans (keyword?_end_eq_some_iff.2 h'))

theorem EndLine.startsEndOf_eq_true_iff (h : EndLine line rest) (hword : IsName word.toList) :
    startsEndOf word line = true ↔ GoesOnWith word.toList rest := by
  rw [startsEndOf, keyword?_end_eq_some_iff.2 h, Option.any_some, Token.hasKeyword,
    Option.isSome_iff_exists]
  simp only [Token.keyword?_eq_some_iff_wordAt hword]
  constructor
  · rintro ⟨after, gap, hgap, hat⟩
    obtain ⟨_, -, hend⟩ := h
    -- the word does not come right after `end`, where a word ends
    have hsplit : rest = gap ++ (word.toList ++ after) := by
      rw [hat.split, List.append_assoc]
    have hne : gap ≠ [] := gap_ne_nil (hsplit ▸ (atWordEnd_iff _).2 hend.right) hword
    exact ⟨gap, after, hne, hgap, hat⟩
  · rintro ⟨gap, after, -, hgap, hat⟩
    exact ⟨after, gap, hgap, hat⟩

theorem EndLine.startsEndMark_eq_true_iff (h : EndLine line rest) :
    startsEndMark line = true ↔ ∃ gap after, rest = gap ++ ';' :: after ∧ AllBlank gap := by
  rw [startsEndMark, keyword?_end_eq_some_iff.2 h, Option.any_some]
  exact Token.isSome_mark?_iff (by decide) rest

/-- What is asked of a line beside its `end` may be asked of what comes after it. -/
theorem startsEnd_and_iff {p : Prop} {q : List Char → Prop}
    (h : ∀ rest, EndLine line rest → (p ↔ q rest)) :
    (startsEnd line = true ∧ p) ↔ ∃ rest, EndLine line rest ∧ q rest := by
  rw [startsEnd_eq_true_iff]
  constructor
  · rintro ⟨⟨rest, hrest⟩, hp⟩
    exact ⟨rest, hrest, (h rest hrest).1 hp⟩
  · rintro ⟨rest, hrest, hq⟩
    exact ⟨⟨rest, hrest⟩, (h rest hrest).2 hq⟩

end Words

/-! ### Lines that close packages and record types -/

variable {name : List Char}

/-- **Which lines close a package.** -/
theorem closedBy_package_iff (hname : IsName name) (before : List SourceLine) (l : SourceLine) :
    (Construct.unit .package).ClosedBy name before l ↔ ∃ rest, EndLine l.line rest ∧
      (GoesOnWith "package".toList rest ∨ HasBareWord name l.code) := by
  refine startsEnd_and_iff fun rest hrest => ?_
  rw [hrest.startsEndOf_eq_true_iff (isName_of_isPlainWord (by decide)), mentions_eq_true_iff hname]

/-- **Which lines close a record type.** -/
theorem closedBy_recordType_iff (hname : IsName name) (before : List SourceLine) (l : SourceLine) :
    (Construct.member .recordType).ClosedBy name before l ↔ ∃ rest, EndLine l.line rest ∧
      (GoesOnWith "record".toList rest ∨ (∃ gap after, rest = gap ++ ';' :: after ∧ AllBlank gap) ∨
        HasBareWord name l.code) := by
  refine startsEnd_and_iff fun rest hrest => ?_
  rw [hrest.startsEndOf_eq_true_iff (isName_of_isPlainWord (by decide)),
    hrest.startsEndMark_eq_true_iff, mentions_eq_true_iff hname]

theorem closesPackage_eq_true_iff (hname : IsName name) (l : CodeLine) :
    closesPackage name l = true ↔ ∃ rest, EndLine l.line rest ∧
      (GoesOnWith "package".toList rest ∨ HasBareWord name l.code) :=
  (Construct.closing_eq_true_iff (.unit .package) name [] l).trans
    (closedBy_package_iff hname [] l.place)

/-- Part of a word or of the comment is not taken for the name. -/
theorem closesPackage_eq_false {l : CodeLine} {rest : List Char} (hname : IsName name)
    (hend : EndLine l.line rest) (hkind : ¬GoesOnWith "package".toList rest)
    (hnever : NeverWhole name l.line) : closesPackage name l = false := by
  refine Bool.eq_false_iff.2 fun hcloses => ?_
  obtain ⟨rest', hend', hnamed⟩ := (closesPackage_eq_true_iff hname l).1 hcloses
  rw [← hend.unique hend'] at hnamed
  exact hnamed.elim hkind fun hbare => (neverWhole_iff hname).1 hnever hbare.mem_runs

/-! ### Packages that stay open -/

namespace Scan

variable {s : Progress} {p : Package} {ls : List CodeLine}

/-- A line that begins with `end` and does not close the package changes nothing. -/
theorem step_of_endLine (t : Target) {l : CodeLine} {rest : List Char}
    (hphase : s.phase = .inPackage p) (hend : EndLine l.line rest)
    (hwaits : closesPackage p.declaration.name.toList l = false) : step t s l = s := by
  have hnone : memberOpening? l.line = none :=
    memberOpening?_of_startsEnd ((startsEnd_eq_true_iff _).2 ⟨rest, hend⟩)
  have hstep : step t s l = packageLine s p l := by
    simp only [step, hphase, hnone]
  rw [hstep, packageLine, if_neg (by simp [Construct.closing, hwaits])]

/-- Lines that begin with `end` and do not have the name whole change nothing. -/
theorem run_of_neverWhole (t : Target) (hphase : s.phase = .inPackage p)
    (hname : IsName p.declaration.name.toList)
    (h : ∀ l ∈ ls, ∃ rest, EndLine l.line rest ∧ ¬GoesOnWith "package".toList rest ∧
      NeverWhole p.declaration.name.toList l.line) : run t s ls = s := by
  induction ls with
  | nil => rfl
  | cons l ls ih =>
      obtain ⟨rest, hend, hkind, hnever⟩ := h l (List.mem_cons_self ..)
      have hstep : step t s l = s :=
        step_of_endLine t hphase hend (closesPackage_eq_false hname hend hkind hnever)
      rw [run_cons, hstep]
      exact ih fun x hx => h x (List.mem_cons_of_mem _ hx)

/-- **A package stays open** over lines that begin with `end` and neither go on with `package` nor
have its name whole. -/
theorem package_stays_open (t : Target) {first : CodeLine} {o : Opening UnitForm}
    (hphase : s.phase = .outside) (hopens : unitOpening? first.line = some o)
    (hform : o.form = .package)
    (h : ∀ l ∈ ls, ∃ rest, EndLine l.line rest ∧ ¬GoesOnWith "package".toList rest ∧
      NeverWhole o.name l.line) :
    run t s (first :: ls) = { s with
      phase := .inPackage (.ofDeclaration (declare t t.library o.name first first.stop [])) } := by
  have hfirst : step t s first = { s with
      phase := .inPackage (.ofDeclaration (declare t t.library o.name first first.stop [])) } := by
    simp only [step, hphase, outsideLine, hopens, hform]
  obtain ⟨hne, hword, -⟩ := name_of_unitOpening? hopens
  have hname : (Package.ofDeclaration
      (declare t t.library o.name first first.stop [])).declaration.name.toList = o.name :=
    String.toList_ofList
  rw [run_cons, hfirst]
  refine run_of_neverWhole t rfl ?_ fun l hl => ?_
  · rw [hname]
    exact ⟨hne, hword⟩
  · rw [hname]
    exact h l hl

end Scan

/-! ### Whole names -/

/-- **A package ends at its whole name.**  Take any name and any line.  The name is found in the
line exactly when it is one of the words of the line without its comment, and no quote stands
directly before or after it.  The line closes the package of that name exactly when it begins with
the whole word `end`, and white space and the whole word `package` come after that or the name is
found.  So a line that begins with `end` but not with `end package` does not close the package where
the name is only the beginning, the end or a middle part of words, or stands in the comment. -/
theorem packages_end_at_whole_names (hname : IsName name) (l : CodeLine) :
    (mentions name l.code = true ↔ HasBareWord name l.code) ∧
    (closesPackage name l = true ↔ ∃ rest, EndLine l.line rest ∧
      (GoesOnWith "package".toList rest ∨ HasBareWord name l.code)) ∧
    ∀ rest, EndLine l.line rest → ¬GoesOnWith "package".toList rest → NeverWhole name l.line →
      closesPackage name l = false := by
  refine ⟨mentions_eq_true_iff hname l.code, closesPackage_eq_true_iff hname l, ?_⟩
  intro rest hend hkind hnever
  exact closesPackage_eq_false hname hend hkind hnever

/-- A line with a name first in quotes, then as the beginning of a word and then whole, and a line
with the name in the middle of a word and in the comment. -/
theorem packages_end_at_whole_names_sample :
    let name := "pkg".toList
    let named : CodeLine := ⟨9, 120, 148, 120, 120, "END \"pkg\", pkg_2, Pkg; -- x".toList⟩
    let other : CodeLine := ⟨7, 80, 100, 80, 80, "End my_pkg2; -- pkg".toList⟩
    IsName name ∧ mentions name named.code = true ∧ closesPackage name named = true ∧
    EndLine other.line " my_pkg2; -- pkg".toList ∧
    ¬GoesOnWith "package".toList " my_pkg2; -- pkg".toList ∧ NeverWhole name other.line ∧
    closesPackage name other = false := by
  intro name named other
  have hname : IsName name := isName_of_isPlainWord (by decide)
  have hbare : HasBareWord name named.code :=
    ⟨["end".toList, " \"".toList, "pkg".toList, "\", ".toList, "pkg_2".toList, ", ".toList],
      ["; ".toList], by decide +kernel, by decide, by decide⟩
  have hfirst : EndLine named.line " \"pkg\", pkg_2, pkg; -- x".toList :=
    keyword?_end_eq_some_iff.1 (by decide +kernel)
  have hend : EndLine other.line " my_pkg2; -- pkg".toList :=
    keyword?_end_eq_some_iff.1 (by decide +kernel)
  have hkind : ¬GoesOnWith "package".toList " my_pkg2; -- pkg".toList := fun hkind => by
    have hstarts := (hend.startsEndOf_eq_true_iff (isName_of_isPlainWord (by decide))).2 hkind
    revert hstarts
    decide +kernel
  have hnever : NeverWhole name other.line := (neverWhole_iff hname).2 (by decide +kernel)
  obtain ⟨hmentions, hcloses, -⟩ := packages_end_at_whole_names hname named
  obtain ⟨-, -, hstays⟩ := packages_end_at_whole_names hname other
  exact ⟨hname, hmentions.2 hbare, hcloses.2 ⟨_, hfirst, Or.inr hbare⟩, hend, hkind, hnever,
    hstays _ hend hkind hnever⟩

end VhdlCatalog
