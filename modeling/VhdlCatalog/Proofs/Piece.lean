import VhdlCatalog.Proofs.CommentTail
import VhdlCatalog.Proofs.Encoding
import VhdlCatalog.Proofs.Runs
import VhdlCatalog.Source.Cursor

/-!
**Lines made of words and marks.**

A line in canonical form is a row of words, marks and single spaces.  Of such a line the readers
take one piece after another, and the signs of closing lines can be told from the pieces.  This
module says what every reader does with the first piece, so that whole lines are read by rewriting.

Main definitions:

* `VhdlCatalog.Canonical.Word`, `VhdlCatalog.Canonical.Mark`, `VhdlCatalog.Canonical.Piece` — what
  lines are made of;
* `VhdlCatalog.Canonical.render` — the text of a line;
* `VhdlCatalog.Canonical.separated` — no two words touch.

Main results:

* `VhdlCatalog.Canonical.lower_render`, `VhdlCatalog.Canonical.stripComment_render`,
  `VhdlCatalog.Canonical.oneLine_render` — such a line is in lower case, without comment, and one
  line;
* `VhdlCatalog.Canonical.keyword?_word`, `VhdlCatalog.Canonical.identifier?_word`,
  `VhdlCatalog.Canonical.mark?_mark` — **the readers**;
* `VhdlCatalog.Canonical.returnsType_eq_false`, `VhdlCatalog.Canonical.returnsType_concat`,
  `VhdlCatalog.Canonical.endsInSemicolon_concat` — **the signs** of closing lines.
-/

set_option relaxedAutoImplicit false
set_option autoImplicit false

namespace VhdlCatalog.Canonical

open Source

/-! ### Characters -/

/-- A lower-case letter, a digit or the underscore. -/
def isPlain (c : Char) : Bool := c.isLower || c.isDigit || c == '_'

/-- The character stands in a line of code as it is: it is ASCII, in lower case, and belongs neither
to a comment nor to a line terminator. -/
def isQuiet (c : Char) : Bool :=
  decide (c.toNat < 0x80) && c.toLower == c && c != '-' && c != '\n' && c != '\r'

theorem forall_ascii {P : Char → Bool} (h : ∀ n < 0x80, P (Char.ofNat n) = true) {c : Char}
    (hc : c.toNat < 0x80) : P c = true := by
  rw [← Char.ofNat_toNat c]
  exact h _ hc

theorem toNat_lt_of_isPlain {c : Char} (h : isPlain c = true) : c.toNat < 0x80 := by
  simp only [isPlain, Bool.or_eq_true, beq_iff_eq, Char.isLower, Char.isDigit, Bool.and_eq_true,
    decide_eq_true_eq, ge_iff_le, UInt32.le_iff_toNat_le] at h
  rcases h with (⟨-, h⟩ | ⟨-, h⟩) | rfl
  · exact Nat.lt_of_le_of_lt h (by decide)
  · exact Nat.lt_of_le_of_lt h (by decide)
  · decide

theorem isPlain_facts {c : Char} (h : isPlain c = true) :
    isWord c = true ∧ isBlank c = false ∧ isQuiet c = true := by
  have hall : ∀ n < 0x80, (!isPlain (Char.ofNat n) ||
      isWord (Char.ofNat n) && !isBlank (Char.ofNat n) && isQuiet (Char.ofNat n)) = true := by
    decide +kernel
  have hc := forall_ascii (P := fun c => !isPlain c || isWord c && !isBlank c && isQuiet c) hall
    (toNat_lt_of_isPlain h)
  simpa [h, and_assoc] using hc

theorem isWord_of_isBlank {c : Char} (hc : c.toNat < 0x80) (h : isBlank c = true) :
    isWord c = false := by
  have hall : ∀ n < 0x80, (!isBlank (Char.ofNat n) || !isWord (Char.ofNat n)) = true := by
    decide +kernel
  have hor := forall_ascii (P := fun c => !isBlank c || !isWord c) hall hc
  simpa [h] using hor

theorem toNat_lt_of_isQuiet {c : Char} (h : isQuiet c = true) : c.toNat < 0x80 := by
  simp only [isQuiet, Bool.and_eq_true, decide_eq_true_eq] at h
  exact h.1.1.1.1

theorem lower_of_isQuiet {cs : List Char} (h : ∀ c ∈ cs, isQuiet c = true) :
    Text.lower cs = cs := by
  suffices hfrom : ∀ afterCased, Text.lowerFrom afterCased cs = cs from hfrom false
  induction cs with
  | nil => exact fun _ => rfl
  | cons c cs ih =>
      obtain ⟨hc, hcs⟩ := List.forall_mem_cons.1 h
      intro afterCased
      simp only [isQuiet, Bool.and_eq_true, decide_eq_true_eq, beq_iff_eq] at hc
      have hascii := hc.1.1.1.1
      have hsigma : c ≠ 'Σ' := by
        rintro rfl
        exact absurd hascii (by decide)
      rw [Text.lowerFrom_cons, ih hcs, Text.image, if_neg hsigma, lowerChar, if_pos hascii,
        hc.1.1.1.2, List.singleton_append]

theorem stripComment_of_isQuiet {cs : List Char} (h : ∀ c ∈ cs, isQuiet c = true) :
    stripComment cs = cs := by
  have hyphen : '-' ∉ cs := fun hmem => absurd (h _ hmem) (by decide)
  have hstrip := stripComment_append_of_not_mem hyphen []
  rwa [List.append_nil, stripComment, List.append_nil] at hstrip

theorem oneLine_of_isQuiet {cs : List Char} (h : ∀ c ∈ cs, isQuiet c = true) : OneLine cs :=
  ⟨fun hmem => absurd (h _ hmem) (by decide), fun hmem => absurd (h _ hmem) (by decide)⟩

/-! ### Pieces -/

/-- The text is a word of plain characters. -/
def isPlainWord (cs : List Char) : Bool := !cs.isEmpty && cs.all isPlain

/-- A word. -/
structure Word where
  chars : List Char
  plain : isPlainWord chars = true

/-- The marks that stand between words. -/
inductive Mark where
  | comma | colon | semicolon | opening | closing | equals | less | greater | point
  deriving DecidableEq, Repr

/-- The character of a mark. -/
def Mark.char : Mark → Char
  | comma => ','
  | colon => ':'
  | semicolon => ';'
  | opening => '('
  | closing => ')'
  | equals => '='
  | less => '<'
  | greater => '>'
  | point => '.'

/-- What a line is made of. -/
inductive Piece where
  | word (w : Word)
  | mark (m : Mark)
  | space

/-- A word that the language gives. -/
def key (s : String) (plain : isPlainWord s.toList = true := by decide) : Piece :=
  .word ⟨s.toList, plain⟩

/-- The characters of a piece. -/
def Piece.chars : Piece → List Char
  | word w => w.chars
  | mark m => [m.char]
  | space => [' ']

/-- The text of a line. -/
def render (ps : List Piece) : List Char := ps.flatMap Piece.chars

@[simp] theorem render_nil : render [] = [] := rfl

theorem render_word (w : Word) (ps : List Piece) :
    render (.word w :: ps) = w.chars ++ render ps := rfl

theorem render_mark (m : Mark) (ps : List Piece) :
    render (.mark m :: ps) = m.char :: render ps := rfl

theorem render_space (ps : List Piece) : render (.space :: ps) = ' ' :: render ps := rfl

theorem render_append (ps qs : List Piece) : render (ps ++ qs) = render ps ++ render qs :=
  List.flatMap_append

theorem Word.ne_nil (w : Word) : w.chars ≠ [] := by
  have h := w.plain
  simp only [isPlainWord, Bool.and_eq_true, Bool.not_eq_true', List.isEmpty_eq_false_iff] at h
  exact h.1

theorem Word.isPlain_of_mem {w : Word} {c : Char} (h : c ∈ w.chars) : isPlain c = true := by
  have hw := w.plain
  simp only [isPlainWord, Bool.and_eq_true, List.all_eq_true] at hw
  exact hw.2 c h

theorem isWord_of_isPlainWord {cs : List Char} (h : isPlainWord cs = true) :
    ∀ c ∈ cs, isWord c = true := by
  intro c hc
  simp only [isPlainWord, Bool.and_eq_true, List.all_eq_true] at h
  exact (isPlain_facts (h.2 c hc)).1

theorem Mark.isWord_char (m : Mark) : isWord m.char = false := by
  cases m <;> decide

theorem Mark.isBlank_char (m : Mark) : isBlank m.char = false := by
  cases m <;> decide

theorem isQuiet_of_mem_render {ps : List Piece} : ∀ c ∈ render ps, isQuiet c = true := by
  intro c hc
  obtain ⟨p, -, hp⟩ := List.mem_flatMap.1 hc
  cases p with
  | word w => exact (isPlain_facts (w.isPlain_of_mem hp)).2.2
  | mark m =>
      rw [List.mem_singleton.1 hp]
      cases m <;> decide
  | space =>
      rw [List.mem_singleton.1 hp]
      decide

@[simp] theorem lower_render (ps : List Piece) : Text.lower (render ps) = render ps :=
  lower_of_isQuiet isQuiet_of_mem_render

@[simp] theorem stripComment_render (ps : List Piece) : stripComment (render ps) = render ps :=
  stripComment_of_isQuiet isQuiet_of_mem_render

theorem oneLine_render (ps : List Piece) : OneLine (render ps) :=
  oneLine_of_isQuiet isQuiet_of_mem_render

/-- A character that is part of no word and no space is that of a mark. -/
theorem exists_mark_of_mem_render {ps : List Piece} {c : Char} (hword : isWord c = false)
    (hspace : c ≠ ' ') (h : c ∈ render ps) : ∃ m, Piece.mark m ∈ ps ∧ m.char = c := by
  obtain ⟨p, hp, hc⟩ := List.mem_flatMap.1 h
  cases p with
  | word w =>
      rw [(isPlain_facts (w.isPlain_of_mem hc)).1] at hword
      cases hword
  | mark m => exact ⟨m, hp, (List.mem_singleton.1 hc).symm⟩
  | space => exact absurd (List.mem_singleton.1 hc) hspace

/-! ### Readers -/

/-- A word comes first. -/
def startsWord : List Piece → Bool
  | .word _ :: _ => true
  | _ => false

theorem atWordEnd_render {ps : List Piece} (h : startsWord ps = false) :
    Text.atWordEnd (render ps) = true := by
  cases ps with
  | nil => rfl
  | cons p ps =>
      cases p with
      | word w => cases h
      | mark m => simp [render_mark, m.isWord_char]
      | space => rfl

theorem takeWhile_isWord {cs rest : List Char} (hcs : ∀ c ∈ cs, isWord c = true)
    (hrest : Text.atWordEnd rest = true) : (cs ++ rest).takeWhile isWord = cs :=
  takeWhile_append_of_head? hcs ((Text.atWordEnd_iff rest).1 hrest)

theorem dropWhile_isWord {cs rest : List Char} (hcs : ∀ c ∈ cs, isWord c = true)
    (hrest : Text.atWordEnd rest = true) : (cs ++ rest).dropWhile isWord = rest :=
  dropWhile_append_of_head? hcs ((Text.atWordEnd_iff rest).1 hrest)

theorem skipBlanks_space (ps : List Piece) :
    Text.skipBlanks (render (.space :: ps)) = Text.skipBlanks (render ps) := by
  rw [render_space, Text.skipBlanks, List.dropWhile_cons_of_pos (by decide), Text.skipBlanks]

theorem skipBlanks_word (w : Word) (ps : List Piece) :
    Text.skipBlanks (render (.word w :: ps)) = w.chars ++ render ps := by
  obtain ⟨c, cs, hw⟩ := List.exists_cons_of_ne_nil w.ne_nil
  have hc : isBlank c = false := by
    refine (isPlain_facts (w.isPlain_of_mem ?_)).2.1
    rw [hw]
    exact List.mem_cons_self ..
  rw [render_word, hw, List.cons_append, Text.skipBlanks,
    List.dropWhile_cons_of_neg (by simp [hc])]

theorem skipBlanks_mark (m : Mark) (ps : List Piece) :
    Text.skipBlanks (render (.mark m :: ps)) = m.char :: render ps := by
  rw [render_mark, Text.skipBlanks, List.dropWhile_cons_of_neg (by simp [m.isBlank_char])]

section Readers

variable {s : String} {w : Word} {ps : List Piece}

theorem keyword?_space (s : String) (ps : List Piece) :
    Token.keyword? s (render (.space :: ps)) = Token.keyword? s (render ps) := by
  rw [Token.keyword?, skipBlanks_space, Token.keyword?]

/-- **A keyword** is taken off exactly when it is the word that comes first. -/
theorem keyword?_word (hs : isPlainWord s.toList = true) (hps : startsWord ps = false) :
    Token.keyword? s (render (.word w :: ps)) =
      if w.chars = s.toList then some (render ps) else none := by
  have hend := atWordEnd_render hps
  simp only [Token.keyword?, skipBlanks_word]
  split
  · next heq =>
      have hafter : Text.afterLiteral? s.toList (w.chars ++ render ps) = some (render ps) := by
        rw [Text.afterLiteral?_eq_some_iff, heq]
      simp [hafter, hend]
  · next hne =>
      cases hafter : Text.afterLiteral? s.toList (w.chars ++ render ps) with
      | none => rfl
      | some rest =>
          -- were the word to end there, it would be the keyword
          have hsplit := (Text.afterLiteral?_eq_some_iff _ _ _).1 hafter
          have hrest : Text.atWordEnd rest = false := by
            refine Bool.eq_false_iff.2 fun hrest => hne ?_
            have hw := takeWhile_isWord (isWord_of_isPlainWord w.plain) hend
            rw [hsplit, takeWhile_isWord (isWord_of_isPlainWord hs) hrest] at hw
            exact hw.symm
          simp [hrest]

theorem keyword?_mark (hs : isPlainWord s.toList = true) (m : Mark) (ps : List Piece) :
    Token.keyword? s (render (.mark m :: ps)) = none := by
  obtain ⟨c, cs, hc⟩ := List.exists_cons_of_ne_nil (Word.ne_nil ⟨s.toList, hs⟩)
  have hne : c ≠ m.char := by
    rintro rfl
    have hword := isWord_of_isPlainWord hs m.char (by simp only at hc; simp [hc])
    rw [m.isWord_char] at hword
    cases hword
  simp only at hc
  simp [Token.keyword?, skipBlanks_mark, hc, Text.afterLiteral?, hne]

theorem identifier?_space (ps : List Piece) :
    Token.identifier? (render (.space :: ps)) = Token.identifier? (render ps) := by
  rw [Token.identifier?, skipBlanks_space, Token.identifier?]

/-- **The word that comes first** is taken off. -/
theorem identifier?_word (hps : startsWord ps = false) :
    Token.identifier? (render (.word w :: ps)) = some (w.chars, render ps) := by
  have hend := atWordEnd_render hps
  have hw := isWord_of_isPlainWord w.plain
  obtain ⟨c, cs, hc⟩ := List.exists_cons_of_ne_nil w.ne_nil
  simp only [Token.identifier?, skipBlanks_word, takeWhile_isWord hw hend,
    dropWhile_isWord hw hend]
  rw [hc]

theorem mark?_space (c : Char) (ps : List Piece) :
    Token.mark? c (render (.space :: ps)) = Token.mark? c (render ps) := by
  rw [Token.mark?, skipBlanks_space, Token.mark?]

/-- **A mark** is taken off exactly when it comes first. -/
theorem mark?_mark (c : Char) (m : Mark) (ps : List Piece) :
    Token.mark? c (render (.mark m :: ps)) = if m.char = c then some (render ps) else none := by
  rw [Token.mark?, skipBlanks_mark]

theorem mark?_word {c : Char} (hc : isWord c = false) (w : Word) (ps : List Piece) :
    Token.mark? c (render (.word w :: ps)) = none := by
  obtain ⟨d, cs, hd⟩ := List.exists_cons_of_ne_nil w.ne_nil
  have hne : d ≠ c := by
    rintro rfl
    rw [isWord_of_isPlainWord w.plain d (by simp [hd])] at hc
    cases hc
  simp [Token.mark?, skipBlanks_word, hd, hne]

end Readers

/-! ### Signs of closing lines -/

/-- No two words touch. -/
def separated : List Piece → Bool
  | [] => true
  | .word _ :: ps => !startsWord ps && separated ps
  | _ :: ps => separated ps

section Closings

variable {w : Word} {ps : List Piece}

theorem returnsHere_of_not_isWord {c : Char} (hc : isWord c = false) (cs : List Char) :
    returnsHere (c :: cs) = false := by
  have hne : 'r' ≠ c := by
    rintro rfl
    exact absurd hc (by decide)
  have hreturn : "return".toList = ['r', 'e', 't', 'u', 'r', 'n'] := by decide
  simp [returnsHere, hreturn, Text.afterLiteral?, hne]

theorem returnsFrom_of_not_isWord {c : Char} (hc : isWord c = false) (inWord : Bool)
    (cs : List Char) : returnsFrom inWord (c :: cs) = returnsFrom false cs := by
  rw [returnsFrom, returnsHere_of_not_isWord hc, Bool.and_false, Bool.false_or, hc]

/-- Inside a word no `return` begins. -/
theorem returnsFrom_inWord {cs : List Char} (h : ∀ c ∈ cs, isWord c = true) (rest : List Char) :
    returnsFrom true (cs ++ rest) = returnsFrom true rest := by
  induction cs with
  | nil => rfl
  | cons c cs ih =>
      obtain ⟨hc, hcs⟩ := List.forall_mem_cons.1 h
      rw [List.cons_append, returnsFrom, hc, ih hcs]
      rfl

/-- A word other than `return` is passed over. -/
theorem returnsFrom_word (hw : w.chars ≠ "return".toList) (hps : startsWord ps = false)
    (inWord : Bool) :
    returnsFrom inWord (render (.word w :: ps)) = returnsFrom true (render ps) := by
  have hwords := isWord_of_isPlainWord w.plain
  have hhere : returnsHere (render (.word w :: ps)) = false := by
    unfold returnsHere
    split
    · rfl
    · next rest hafter =>
        have hsplit := (Text.afterLiteral?_eq_some_iff _ _ _).1 hafter
        -- a blank after `return` would make it the whole word
        have hblank : Token.startsBlank rest = false := by
          refine Bool.eq_false_iff.2 fun hblank => hw ?_
          have hrest : Text.atWordEnd rest = true := by
            cases rest with
            | nil => rfl
            | cons c rest =>
                have hmem : c ∈ render (.word w :: ps) := by
                  rw [hsplit]
                  exact List.mem_append_right _ (List.mem_cons_self ..)
                have hc : c.toNat < 0x80 := toNat_lt_of_isQuiet (isQuiet_of_mem_render c hmem)
                rw [Text.atWordEnd_cons, isWord_of_isBlank hc hblank, Bool.not_false]
          have htake := takeWhile_isWord hwords (atWordEnd_render hps)
          rw [← render_word, hsplit,
            takeWhile_isWord (isWord_of_isPlainWord (by decide)) hrest] at htake
          exact htake.symm
        simp [hblank]
  obtain ⟨c, cs, hc⟩ := List.exists_cons_of_ne_nil w.ne_nil
  rw [hc] at hwords
  obtain ⟨hword, hcs⟩ := List.forall_mem_cons.1 hwords
  rw [render_word, hc, List.cons_append] at hhere ⊢
  rw [returnsFrom, hhere, Bool.and_false, Bool.false_or, hword, returnsFrom_inWord hcs]

/-- **No line without the word `return`** has a `return` with its type mark. -/
theorem returnsType_eq_false (hsep : separated ps = true)
    (h : ∀ w, Piece.word w ∈ ps → w.chars ≠ "return".toList) : returnsType (render ps) = false := by
  suffices hfrom : ∀ inWord, returnsFrom inWord (render ps) = false from hfrom false
  induction ps with
  | nil => exact fun _ => rfl
  | cons p ps ih =>
      intro inWord
      have hps : ∀ w, Piece.word w ∈ ps → w.chars ≠ "return".toList := fun w hw =>
        h w (List.mem_cons_of_mem _ hw)
      cases p with
      | word w =>
          simp only [separated, Bool.and_eq_true, Bool.not_eq_true'] at hsep
          rw [returnsFrom_word (h w (List.mem_cons_self ..)) hsep.1, ih hsep.2 hps]
      | mark m => rw [render_mark, returnsFrom_of_not_isWord m.isWord_char, ih hsep hps]
      | space => rw [render_space, returnsFrom_of_not_isWord (by decide), ih hsep hps]

theorem returnsFrom_append {c : Char} {cs : List Char} (hc : isWord c = false)
    (h : returnsFrom false cs = true) (as : List Char) (inWord : Bool) :
    returnsFrom inWord (as ++ c :: cs) = true := by
  induction as generalizing inWord with
  | nil => rw [List.nil_append, returnsFrom_of_not_isWord hc, h]
  | cons a as ih => rw [List.cons_append, returnsFrom, ih, Bool.or_true]

/-- **A line that ends in `return` and a type mark** has the sign of a function. -/
theorem returnsType_concat (ps : List Piece) (w : Word) :
    returnsType (render (ps ++ [.space, key "return", .space, .word w, .mark .semicolon])) =
      true := by
  have hmark : ∀ c ∈ w.chars, isTypeMark c = true := by
    intro c hc
    rw [isTypeMark, isWord_of_isPlainWord w.plain c hc, Bool.true_or]
  have htake : (w.chars ++ [';']).takeWhile isTypeMark = w.chars := by
    rw [List.takeWhile_append_of_pos hmark, List.takeWhile_cons_of_neg (by decide),
      List.append_nil]
  have hdrop : (w.chars ++ [';']).dropWhile isTypeMark = [';'] := by
    rw [List.dropWhile_append_of_pos hmark, List.dropWhile_cons_of_neg (by decide)]
  have hskip : Text.skipBlanks (' ' :: (w.chars ++ [';'])) = w.chars ++ [';'] := by
    have hword := skipBlanks_space [.word w, .mark .semicolon]
    rw [skipBlanks_word, render_space, render_word] at hword
    exact hword
  have hafter : Text.afterLiteral? "return".toList
      ("return".toList ++ ' ' :: (w.chars ++ [';'])) = some (' ' :: (w.chars ++ [';'])) :=
    (Text.afterLiteral?_eq_some_iff _ _ _).2 rfl
  have hhere : returnsHere ("return".toList ++ ' ' :: (w.chars ++ [';'])) = true := by
    simp only [returnsHere, hafter, hskip, htake, hdrop]
    have hne : w.chars.isEmpty = false := List.isEmpty_eq_false_iff.2 w.ne_nil
    rw [hne]
    rfl
  have hreturn : returnsFrom false ("return".toList ++ ' ' :: (w.chars ++ [';'])) = true := by
    obtain ⟨c, cs, hc⟩ := List.exists_cons_of_ne_nil (show "return".toList ≠ [] by decide)
    rw [hc, List.cons_append] at hhere ⊢
    rw [returnsFrom, hhere]
    rfl
  rw [render_append, returnsType]
  exact returnsFrom_append (by decide) hreturn (render ps) false

/-- **A line that ends in a mark** ends in a semicolon if that is the mark. -/
theorem endsInSemicolon_concat (ps : List Piece) (m : Mark) :
    endsInSemicolon (render (ps ++ [.mark m])) = decide (m = .semicolon) := by
  rw [endsInSemicolon, render_append, List.reverse_append]
  have hm : (render [.mark m]).reverse = [m.char] := rfl
  rw [hm, List.singleton_append, List.dropWhile_cons_of_neg (by simp [m.isBlank_char])]
  cases m <;> rfl

theorem endsInSemicolon_concat_word (ps : List Piece) (w : Word) :
    endsInSemicolon (render (ps ++ [.word w])) = false := by
  obtain ⟨cs, c, hc⟩ : ∃ cs c, w.chars = cs ++ [c] := by
    rcases List.eq_nil_or_concat' w.chars with hnil | ⟨cs, c, hc⟩
    · exact absurd hnil w.ne_nil
    · exact ⟨cs, c, hc⟩
  have hplain : isPlain c = true := w.isPlain_of_mem (by simp [hc])
  have hw : (render [.word w]).reverse = c :: cs.reverse := by
    rw [render_word, render_nil, List.append_nil, hc, List.reverse_append]
    rfl
  rw [endsInSemicolon, render_append, List.reverse_append, hw, List.cons_append,
    List.dropWhile_cons_of_neg (by simp [(isPlain_facts hplain).2.1]), List.head?_cons]
  have hne : c ≠ ';' := by
    rintro rfl
    exact absurd hplain (by decide)
  simpa using hne

end Closings

end VhdlCatalog.Canonical
