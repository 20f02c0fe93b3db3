import VhdlCatalog.Proofs.KeywordEmphasis
import VhdlCatalog.Proofs.Readers

/-!
**Emphasis within words.**

Names in a source are runs of word characters of any script, while keywords are looked for among
tokens of ASCII letters, digits and underscores that do not begin with a digit.  A token never
reaches beyond the word it lies in, so the words of a text are emphasized each by itself.  A word
that is one token is a keyword as a whole or is left alone.  Any other word falls apart into tokens
and the characters between them, and is left alone exactly when none of these tokens is a keyword.

Main definitions:

* `VhdlCatalog.Text.WordAt` — a word at its place in a text, as long as it can be there;
* `VhdlCatalog.Emphasis.Marked.SwitchedAfter` — where bold is switched on or off.

Main results:

* `VhdlCatalog.Emphasis.emphasize_word` — **words are emphasized each by itself**;
* `VhdlCatalog.Emphasis.tokenAt_word_iff` — the tokens of a word are those of the text that lie in
  it;
* `VhdlCatalog.Emphasis.words_emphasized_apart` — **which words have switches**;
* `VhdlCatalog.Emphasis.keyword_within_word_emphasized` — a word that merely contains a keyword and
  is not left alone.
-/

set_option relaxedAutoImplicit false
set_option autoImplicit false

namespace VhdlCatalog

/-! ### Words -/

namespace Text

/-- The word `word` stands in the text, after `before` and before `after`, and goes on on neither
side. -/
structure WordAt (text before word after : List Char) : Prop where
  split : text = before ++ word ++ after
  name : IsName word
  left : ∀ c ∈ before.getLast?, isWord c = false
  right : ∀ c ∈ after.head?, isWord c = false

end Text

namespace Emphasis

open Text

/-- The characters of tokens are word characters. -/
theorem isWord_of_continuesToken {c : Char} (h : continuesToken c = true) : isWord c = true := by
  have hascii : c.toNat < 0x80 := by
    simp only [continuesToken, Char.isAlphanum, Char.isAlpha, Char.isUpper, Char.isLower,
      Char.isDigit, Bool.or_eq_true, Bool.and_eq_true, decide_eq_true_eq, beq_iff_eq, ge_iff_le,
      UInt32.le_iff_toNat_le] at h
    rcases h with ((⟨-, h⟩ | ⟨-, h⟩) | ⟨-, h⟩) | rfl
    · exact Nat.lt_of_le_of_lt h (by decide)
    · exact Nat.lt_of_le_of_lt h (by decide)
    · exact Nat.lt_of_le_of_lt h (by decide)
    · decide
  rw [isWord, if_pos hascii]
  exact h

theorem continuesToken_eq_false {c : Char} (h : isWord c = false) : continuesToken c = false := by
  refine Bool.eq_false_iff.2 fun hc => ?_
  rw [isWord_of_continuesToken hc] at h
  cases h

theorem IsToken.isWord {word : List Char} (h : IsToken word) : ∀ c ∈ word, isWord c = true :=
  fun c hc => isWord_of_continuesToken (h.continues c hc)

/-! ### Words one after another -/

/-- A text is emphasized by itself up to a character that goes on no token. -/
theorem emphasizeFrom_append_of_head {bs : List Char}
    (h : ∀ c ∈ bs.head?, continuesToken c = false) (token as : List Char) :
    emphasizeFrom token (as ++ bs) = emphasizeFrom token as ++ emphasize bs := by
  induction as generalizing token with
  | nil =>
      cases token with
      | nil =>
          have hnil : emphasizeFrom [] [] = [] := emphasize_nil
          rw [hnil]
          rfl
      | cons c token => rw [List.nil_append, emphasizeFrom_of_end (by simp) h, emphasizeFrom]
  | cons a as ih =>
      rw [List.cons_append, emphasizeFrom, emphasizeFrom]
      split
      · split
        · exact ih [a]
        · rw [ih, List.cons_append]
      · split
        · exact ih (a :: token)
        · rw [ih, List.append_assoc, List.cons_append]

/-- A text is emphasized by itself from a character on that goes on no token. -/
theorem emphasize_append_of_last {as : List Char}
    (h : ∀ c ∈ as.getLast?, continuesToken c = false) (bs : List Char) :
    emphasize (as ++ bs) = emphasize as ++ emphasize bs := by
  rcases List.eq_nil_or_concat' as with rfl | ⟨as, c, rfl⟩
  · rw [List.nil_append, emphasize_nil, List.nil_append]
  · have hc : continuesToken c = false := h c (by simp)
    have hplain : ∀ x ∈ [c], beginsToken x = false := by simp [beginsToken_eq_false hc]
    have hstep : ∀ cs, emphasize (as ++ ([c] ++ cs)) = emphasize as ++ ([c] ++ emphasize cs) := by
      intro cs
      rw [emphasize, emphasizeFrom_append_of_head (by simp [hc]), ← emphasize,
        emphasize_append_of_plain hplain]
    have hlast := hstep []
    rw [emphasize_nil, List.append_nil] at hlast
    rw [List.append_assoc, hstep, hlast, List.append_assoc]

section Words

variable {text before word after u v w : List Char}

/-- **Words are emphasized each by itself.** -/
theorem emphasize_word (h : WordAt text before word after) :
    emphasize text = emphasize before ++ emphasize word ++ emphasize after := by
  have hleft : ∀ c ∈ before.getLast?, continuesToken c = false :=
    fun c hc => continuesToken_eq_false (h.left c hc)
  have hright : ∀ c ∈ after.head?, continuesToken c = false :=
    fun c hc => continuesToken_eq_false (h.right c hc)
  rw [h.split, List.append_assoc, emphasize_append_of_last hleft, List.append_assoc]
  exact congrArg (emphasize before ++ ·) (emphasizeFrom_append_of_head hright [] word)

/-! ### The tokens of a word -/

/-- **The tokens of a word** are those of the text that lie in it. -/
theorem tokenAt_word_iff (h : WordAt text before word after) (hword : word = u ++ w ++ v) :
    TokenAt text (before ++ u) w (v ++ after) ↔ TokenAt word u w v := by
  constructor
  · rintro ⟨-, htoken, hmax⟩
    refine ⟨hword, htoken, fun s t hs ht => hmax s t ?_ ?_⟩
    · exact hs.trans (List.suffix_append before u)
    · exact ht.trans (List.prefix_append v after)
  · rintro ⟨-, htoken, hmax⟩
    refine ⟨by simp [h.split, hword], htoken, fun s t hs ht hlong => hmax s t ?_ ?_ hlong⟩
    -- a longer token has word characters only, so it does not leave the word either
    · exact suffix_of_forall hs (fun c hc => hlong.isWord c (by simp [hc])) h.left
    · exact prefix_of_forall ht (fun c hc => hlong.isWord c (by simp [hc])) h.right

/-- A token that begins in a word, or just before or after it, lies in it. -/
theorem exists_of_begins (h : WordAt text before word after) (hword : word = u ++ v)
    {rest : List Char} (hw : TokenAt text (before ++ u) w rest) :
    ∃ t, v = w ++ t ∧ rest = t ++ after := by
  obtain ⟨hsplit, htoken, -⟩ := hw
  have heq : w ++ rest = v ++ after := by
    rw [h.split, hword] at hsplit
    simpa using hsplit.symm
  obtain ⟨t, rfl⟩ := prefix_of_forall ⟨rest, heq⟩ htoken.isWord h.right
  exact ⟨t, rfl, by simpa using heq⟩

/-- A token that ends in a word, or just before or after it, lies in it. -/
theorem exists_of_ends (h : WordAt text before word after) (hword : word = u ++ v)
    {front rest : List Char} (hw : TokenAt text front w rest) (hfront : before ++ u = front ++ w) :
    ∃ t, u = t ++ w ∧ front = before ++ t := by
  obtain ⟨t, rfl⟩ := suffix_of_forall ⟨front, hfront.symm⟩ hw.token.isWord h.left
  refine ⟨t, rfl, ?_⟩
  rw [← List.append_assoc] at hfront
  exact (List.append_cancel_right hfront).symm

end Words

/-! ### Switches -/

/-- Bold is switched on or off after the part `front` of the text. -/
def Marked.SwitchedAfter (m : Marked) (front : List Char) : Prop :=
  ∃ before word after, m.Bold before word after ∧ (front = before ∨ front = before ++ word)

/-- **Which words have switches**, inside or at one of their ends: those in which a token is a
keyword. -/
theorem Marked.MarksKeywords.switched_iff {m : Marked} {cs before word after : List Char}
    (hm : m.MarksKeywords cs) (h : WordAt cs before word after) :
    (∃ u v, word = u ++ v ∧ m.SwitchedAfter (before ++ u)) ↔
      ∃ u w v, TokenAt word u w v ∧ isKeyword w = true := by
  constructor
  · rintro ⟨u, v, hword, front, w, rest, hbold, hfront⟩
    obtain ⟨htoken, hkeyword⟩ := (hm.bold front w rest).1 hbold
    rcases hfront with rfl | hfront
    · obtain ⟨t, rfl, rfl⟩ := exists_of_begins h hword htoken
      rw [← List.append_assoc] at hword
      exact ⟨u, w, t, (tokenAt_word_iff h hword).1 htoken, hkeyword⟩
    · obtain ⟨t, rfl, rfl⟩ := exists_of_ends h hword htoken hfront
      obtain rfl : rest = v ++ after := by
        have hsplit := htoken.split
        rw [h.split, hword] at hsplit
        simpa using hsplit.symm
      exact ⟨t, w, v, (tokenAt_word_iff h hword).1 htoken, hkeyword⟩
  · rintro ⟨u, w, v, htoken, hkeyword⟩
    have hword : word = u ++ w ++ v := htoken.split
    have hbold := (hm.bold _ _ _).2 ⟨(tokenAt_word_iff h hword).2 htoken, hkeyword⟩
    exact ⟨u, w ++ v, by rw [hword, List.append_assoc], _, w, _, hbold, Or.inl rfl⟩

/-- A word that is one token has no others. -/
theorem IsToken.eq_of_tokenAt {word u w v : List Char} (h : IsToken word)
    (hw : TokenAt word u w v) : w = word := by
  obtain ⟨hsplit, -, hmax⟩ := hw
  obtain ⟨rfl, rfl⟩ := hmax u v (List.suffix_refl u) List.prefix_rfl (hsplit ▸ h)
  rw [hsplit, List.nil_append, List.append_nil]

/-- A text in which nothing is in bold is written as it is. -/
theorem emphasize_eq_self {cs : List Char}
    (h : ∀ u w v, TokenAt cs u w v → isKeyword w = false) : emphasize cs = cs := by
  obtain ⟨m, hwrite, hm⟩ := exists_marksKeywords cs
  cases m with
  | plain text => rw [hwrite, ← hm.text, Marked.write, Marked.text]
  | bold before word rest =>
      obtain ⟨htoken, hkeyword⟩ := (hm.bold _ _ _).1 (Or.inl ⟨rfl, rfl, rfl⟩)
      rw [h _ _ _ htoken] at hkeyword
      cases hkeyword

/-- **Which words have switches.**  Take any word of a text, that is any run of word characters that
goes on on neither side.  It is emphasized by itself, whatever stands around it.  Bold is switched
inside of it, or at one of its ends, exactly when one of its tokens is a keyword.  So a word that is
a token as a whole, but no keyword, is left alone, and stays as it is. -/
theorem words_emphasized_apart (cs : List Char) :
    ∃ m : Marked, emphasize cs = m.write ∧ m.MarksKeywords cs ∧
      ∀ before word after, WordAt cs before word after →
        emphasize cs = emphasize before ++ emphasize word ++ emphasize after ∧
        ((∃ u v, word = u ++ v ∧ m.SwitchedAfter (before ++ u)) ↔
          ∃ u w v, TokenAt word u w v ∧ isKeyword w = true) ∧
        (IsToken word → isKeyword word = false →
          emphasize word = word ∧ ∀ u v, word = u ++ v → ¬m.SwitchedAfter (before ++ u)) := by
  obtain ⟨m, hwrite, hm⟩ := exists_marksKeywords cs
  refine ⟨m, hwrite, hm, fun before word after h => ?_⟩
  have hswitched := hm.switched_iff h
  refine ⟨emphasize_word h, hswitched, fun htoken hkeyword => ?_⟩
  have hnone : ∀ u w v, TokenAt word u w v → isKeyword w = false := by
    intro u w v hw
    rw [htoken.eq_of_tokenAt hw, hkeyword]
  refine ⟨emphasize_eq_self hnone, fun u v hword hu => ?_⟩
  obtain ⟨u', w, v', hw, hkeyword'⟩ := hswitched.1 ⟨u, v, hword, hu⟩
  rw [hnone u' w v' hw] at hkeyword'
  cases hkeyword'

/-- A name that begins with a keyword and goes on with an underscore, between two keywords. -/
theorem words_emphasized_apart_sample :
    let text := "in port_a OUT".toList
    WordAt text "in ".toList "port_a".toList " OUT".toList ∧ IsToken "port_a".toList ∧
    isKeyword "port_a".toList = false ∧
    ∃ m : Marked, emphasize text = m.write ∧
      emphasize text = emphasize "in ".toList ++ "port_a".toList ++ emphasize " OUT".toList ∧
      ¬m.SwitchedAfter "in port".toList := by
  intro text
  have hword : WordAt text "in ".toList "port_a".toList " OUT".toList :=
    ⟨by decide, ⟨by decide, List.all_eq_true.1 (by decide)⟩, by simp; decide, by simp; decide⟩
  have htoken : IsToken "port_a".toList := ⟨by decide, List.all_eq_true.1 (by decide)⟩
  have hkeyword : isKeyword "port_a".toList = false := by decide +kernel
  obtain ⟨m, hwrite, -, hwords⟩ := words_emphasized_apart text
  obtain ⟨hapart, -, halone⟩ := hwords _ _ _ hword
  obtain ⟨hself, hnone⟩ := halone htoken hkeyword
  rw [hself] at hapart
  exact ⟨hword, htoken, hkeyword, m, hwrite, hapart, hnone "port".toList "_a".toList rfl⟩

/-- **A word that merely contains a keyword** and is not left alone: it goes on with a letter that
no token has. -/
theorem keyword_within_word_emphasized :
    let word := "portée".toList
    WordAt word [] word [] ∧ isKeyword word = false ∧
    emphasize word = on ++ "port".toList ++ off ++ "ée".toList ∧
    ∀ m : Marked, m.MarksKeywords word → m.SwitchedAfter [] ∧ m.SwitchedAfter "port".toList := by
  intro word
  have hfirst : FirstToken [] "port".toList "ée".toList :=
    ⟨by simp, ⟨by decide, List.all_eq_true.1 (by decide)⟩, by simp; decide⟩
  have htoken : TokenAt word [] "port".toList "ée".toList := hfirst.tokenAt
  have hname : IsName word := ⟨by decide, List.all_eq_true.1 (by decide +kernel)⟩
  refine ⟨⟨rfl, hname, by simp, by simp⟩, by decide +kernel, by decide +kernel, fun m hm => ?_⟩
  have hbold := (hm.bold _ _ _).2 ⟨htoken, by decide +kernel⟩
  exact ⟨⟨_, _, _, hbold, Or.inl rfl⟩, ⟨_, _, _, hbold, Or.inr rfl⟩⟩

end Emphasis

end VhdlCatalog
