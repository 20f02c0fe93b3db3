import Mathlib.Data.List.DropRight
import Mathlib.Order.Basic
import VhdlCatalog.Render.Plain

/-!
**Emphasis only adds switches, around whole keywords.**

A text falls apart into its tokens and what stands between them.  A token is marked without looking
at what stands around it, so a marked text is the text with some of its tokens between two switches:
the keywords, and no others.  Without the switches it is the text again, also when line ends have
been trimmed off afterwards, because neither a switch nor a token ends with one.

Main definitions:

* `VhdlCatalog.Emphasis.TokenAt` — a token at its place in a text, as long as it can be there;
* `VhdlCatalog.Emphasis.Marked` — a text with words of it in bold;
* `VhdlCatalog.Emphasis.Marked.MarksKeywords` — the words in bold are the keywords of the text;
* `VhdlCatalog.Emphasis.eraseSwitches`, `VhdlCatalog.Emphasis.switches` — a text without its
  switches, and the switches alone.

Main results:

* `VhdlCatalog.Emphasis.tokenAt_append_iff` — **the tokens** of a text are its first one and those
  of the rest;
* `VhdlCatalog.Emphasis.emphasize_append` — the first token is marked, and then the rest;
* `VhdlCatalog.Emphasis.exists_marksKeywords` — **the keywords are marked**;
* `VhdlCatalog.Emphasis.emphasis_adds_switches` — **emphasis only adds switches**.
-/

set_option relaxedAutoImplicit false
set_option autoImplicit false

namespace VhdlCatalog

/-- Nothing is trimmed off up to a character that stays. -/
theorem Text.trimEnd_append {p : Char → Bool} {front : List Char} {c : Char}
    (hlast : front.getLast? = some c) (hc : p c = false) (cs : List Char) :
    trimEnd p (front ++ cs) = front ++ trimEnd p cs := by
  obtain ⟨init, rfl⟩ := List.getLast?_eq_some_iff.1 hlast
  have hdrop : (cs.reverse ++ c :: init.reverse).dropWhile p =
      cs.reverse.dropWhile p ++ c :: init.reverse := by
    rw [List.dropWhile_append]
    split
    · next h =>
        rw [List.isEmpty_iff.1 h, List.dropWhile_cons_of_neg (by simp [hc]), List.nil_append]
    · rfl
  simp [Text.trimEnd, hdrop]

namespace Emphasis

/-! ### Tokens -/

/-- The word has the form of a token. -/
def IsToken : List Char → Prop
  | [] => False
  | c :: cs => beginsToken c = true ∧ ∀ d ∈ cs, continuesToken d = true

/-- The token `word` stands in the text, after `before` and before `after`, and neither of them lets
it go on to a longer token. -/
structure TokenAt (text before word after : List Char) : Prop where
  split : text = before ++ word ++ after
  token : IsToken word
  maximal : ∀ s t, s <:+ before → t <+: after → IsToken (s ++ word ++ t) → s = [] ∧ t = []

/-- The first token of a text is `word`: nothing before it begins a token, and it does not go on
after it. -/
structure FirstToken (before word after : List Char) : Prop where
  before : ∀ c ∈ before, beginsToken c = false
  token : IsToken word
  after : ∀ c ∈ after.head?, continuesToken c = false

theorem continuesToken_of_begins {c : Char} (h : beginsToken c = true) :
    continuesToken c = true := by
  simp only [beginsToken, continuesToken, Char.isAlphanum, Bool.or_eq_true] at *
  exact h.imp_left Or.inl

theorem beginsToken_eq_false {c : Char} (h : continuesToken c = false) : beginsToken c = false := by
  by_contra hc
  rw [continuesToken_of_begins (by simpa using hc)] at h
  cases h

namespace IsToken

variable {s t word : List Char}

theorem ne_nil (h : IsToken word) : word ≠ [] := by
  rintro rfl
  exact h

theorem continues (h : IsToken word) : ∀ c ∈ word, continuesToken c = true := by
  cases word with
  | nil => simp
  | cons c cs =>
      intro d hd
      rcases List.mem_cons.1 hd with rfl | hd
      · exact continuesToken_of_begins h.1
      · exact h.2 d hd

/-- A token goes on with characters that can go on a token. -/
theorem append (h : IsToken s) (ht : ∀ c ∈ t, continuesToken c = true) : IsToken (s ++ t) := by
  cases s with
  | nil => exact h.elim
  | cons c s =>
      refine ⟨h.1, fun d hd => ?_⟩
      rcases List.mem_append.1 hd with hd | hd
      · exact h.2 d hd
      · exact ht d hd

/-- A beginning of a token is a token. -/
theorem left (h : IsToken (s ++ t)) (hs : s ≠ []) : IsToken s := by
  cases s with
  | nil => exact (hs rfl).elim
  | cons c s => exact ⟨h.1, fun d hd => h.2 d (List.mem_append_left t hd)⟩

/-- What follows in a token can go on a token. -/
theorem right (h : IsToken (s ++ t)) (hs : s ≠ []) : ∀ c ∈ t, continuesToken c = true := by
  cases s with
  | nil => exact (hs rfl).elim
  | cons c s => exact fun d hd => h.2 d (List.mem_append_right s hd)

/-- A token has no part before which nothing begins one. -/
theorem eq_nil (h : IsToken (s ++ t)) (hs : ∀ c ∈ s, beginsToken c = false) : s = [] := by
  cases s with
  | nil => rfl
  | cons c s =>
      have hc : beginsToken c = false := hs c (List.mem_cons_self ..)
      rw [h.1] at hc
      cases hc

/-- A token ends in a character that is no line end. -/
theorem exists_getLast? (h : IsToken word) :
    ∃ c, word.getLast? = some c ∧ (c == '\n') = false := by
  refine ⟨word.getLast h.ne_nil, List.getLast?_eq_some_getLast h.ne_nil, ?_⟩
  have hcontinues := h.continues _ (List.getLast_mem h.ne_nil)
  rw [beq_eq_false_iff_ne]
  intro hc
  rw [hc] at hcontinues
  exact absurd hcontinues (by decide)

end IsToken

/-- Where a token cannot go on, it has no more. -/
theorem eq_nil_of_continues {t rest : List Char}
    (hrest : ∀ c ∈ rest.head?, continuesToken c = false) (ht : t <+: rest)
    (h : ∀ c ∈ t, continuesToken c = true) : t = [] := by
  obtain ⟨more, rfl⟩ := ht
  cases t with
  | nil => rfl
  | cons c t =>
      have hc : continuesToken c = false := hrest c (by simp)
      rw [h c (List.mem_cons_self ..)] at hc
      cases hc

/-- A token is as long as it can be at one place only. -/
theorem FirstToken.eq_of_append_eq {pre word rest v after : List Char}
    (h : FirstToken pre word rest) (hv : IsToken v)
    (hafter : ∀ t, t <+: after → IsToken (v ++ t) → t = [])
    (heq : word ++ rest = v ++ after) : v = word ∧ after = rest := by
  rcases List.append_eq_append_iff.1 heq with ⟨t, rfl, hrest⟩ | ⟨t, hword, hafter'⟩
  · obtain rfl : t = [] := eq_nil_of_continues h.after ⟨after, hrest.symm⟩
      (hv.right h.token.ne_nil)
    exact ⟨List.append_nil word, hrest.symm⟩
  · obtain rfl : t = [] := hafter t ⟨rest, hafter'.symm⟩ (hword ▸ h.token)
    rw [List.append_nil] at hword
    exact ⟨hword.symm, hafter'⟩

/-- Without a beginning there is no token. -/
theorem not_tokenAt {text before word after : List Char} (h : ∀ c ∈ text, beginsToken c = false) :
    ¬TokenAt text before word after := by
  rintro ⟨rfl, htoken, -⟩
  refine htoken.ne_nil (IsToken.eq_nil (t := []) (by simpa using htoken) fun c hc => h c ?_)
  simp [hc]

/-- The first token stands where it is. -/
theorem FirstToken.tokenAt {pre word rest : List Char} (h : FirstToken pre word rest) :
    TokenAt (pre ++ word ++ rest) pre word rest := by
  refine ⟨rfl, h.token, fun s t hs ht hlong => ?_⟩
  have hleft : IsToken (s ++ (word ++ t)) := List.append_assoc s word t ▸ hlong
  refine ⟨hleft.eq_nil fun c hc => h.before c (hs.subset hc), ?_⟩
  exact eq_nil_of_continues h.after ht (hlong.right (by simp [h.token.ne_nil]))

/-- A token of the rest stands in the whole text, too. -/
theorem FirstToken.tokenAt_of_rest {pre word rest b v after : List Char}
    (h : FirstToken pre word rest) (hrest : TokenAt rest b v after) :
    TokenAt (pre ++ word ++ rest) (pre ++ word ++ b) v after := by
  obtain ⟨hsplit, hv, hmax⟩ := hrest
  refine ⟨by simp [hsplit], hv, fun s t hs ht hlong => ?_⟩
  obtain ⟨front, hfront⟩ := hs
  rcases List.append_eq_append_iff.1 hfront with ⟨x, -, rfl⟩ | ⟨y, -, rfl⟩
  · -- it does not reach back over the place where the first token ends
    obtain rfl : x = [] := by
      by_contra hne
      have hlong' : IsToken (x ++ (b ++ v ++ t)) := by simpa using hlong
      have hcontinues := hlong'.right hne
      have hnil : b ++ v = [] := eq_nil_of_continues h.after ⟨after, hsplit.symm⟩
        fun c hc => hcontinues c (List.mem_append_left t hc)
      exact hv.ne_nil (List.append_eq_nil_iff.1 hnil).2
    exact hmax b t (List.suffix_refl b) ht hlong
  · exact hmax s t (List.suffix_append y s) ht hlong

/-- Before the first token none begins. -/
theorem FirstToken.exists_of_tokenAt {pre word rest before v after : List Char}
    (h : FirstToken pre word rest) (hv : TokenAt (pre ++ word ++ rest) before v after) :
    ∃ b, before = pre ++ b ∧ word ++ rest = b ++ (v ++ after) := by
  obtain ⟨hsplit, hv, -⟩ := hv
  simp only [List.append_assoc] at hsplit
  rcases List.append_eq_append_iff.1 hsplit with ⟨b, hb⟩ | ⟨x, rfl, hx⟩
  · exact ⟨b, hb⟩
  · obtain rfl : x = [] := by
      by_contra hne
      obtain ⟨c, x, rfl⟩ := List.exists_cons_of_ne_nil hne
      obtain ⟨d, v, rfl⟩ := List.exists_cons_of_ne_nil hv.ne_nil
      obtain rfl : d = c := (List.cons.inj hx).1
      exact Bool.false_ne_true ((h.before d (by simp)).symm.trans hv.1)
    exact ⟨[], by simp, by simpa using hx.symm⟩

/-- **The tokens of a text** are its first one and those of the rest. -/
theorem tokenAt_append_iff {pre word rest before v after : List Char}
    (h : FirstToken pre word rest) :
    TokenAt (pre ++ word ++ rest) before v after ↔
      (before = pre ∧ v = word ∧ after = rest) ∨
        ∃ b, before = pre ++ word ++ b ∧ TokenAt rest b v after := by
  constructor
  · intro htoken
    obtain ⟨b, rfl, hb⟩ := h.exists_of_tokenAt htoken
    obtain ⟨-, hv, hmax⟩ := htoken
    rcases List.append_eq_append_iff.1 hb with ⟨b', rfl, hrest⟩ | ⟨t, hword, -⟩
    · -- the token begins after the first one
      refine Or.inr ⟨b', (List.append_assoc pre word b').symm, ?_, hv, ?_⟩
      · rw [hrest, List.append_assoc]
      · intro s t hs ht hlong
        have hbefore : b' <:+ pre ++ (word ++ b') :=
          ⟨pre ++ word, List.append_assoc pre word b'⟩
        exact hmax s t (hs.trans hbefore) ht hlong
    · -- it begins within the first one, so at its beginning
      obtain rfl : b = [] := by
        by_contra hne
        have hfront : IsToken b := IsToken.left (hword ▸ h.token) hne
        have hlong : IsToken (b ++ v ++ []) := (hfront.append hv.continues).append (by simp)
        exact hne (hmax b [] (List.suffix_append pre b) (List.nil_prefix ..) hlong).1
      obtain ⟨rfl, rfl⟩ := h.eq_of_append_eq hv
        (fun t ht hlong => (hmax [] t (List.nil_suffix ..) ht hlong).2) hb
      exact Or.inl ⟨List.append_nil pre, rfl, rfl⟩
  · rintro (⟨rfl, rfl, rfl⟩ | ⟨b, rfl, hrest⟩)
    · exact h.tokenAt
    · exact h.tokenAt_of_rest hrest

/-- A text has a first token, or nothing in it begins one. -/
theorem exists_firstToken (cs : List Char) :
    (∀ c ∈ cs, beginsToken c = false) ∨
      ∃ pre word rest, cs = pre ++ word ++ rest ∧ FirstToken pre word rest := by
  induction cs with
  | nil => exact Or.inl (by simp)
  | cons c cs ih =>
      cases hc : beginsToken c with
      | true =>
          refine Or.inr ⟨[], c :: cs.takeWhile continuesToken, cs.dropWhile continuesToken, ?_, ?_⟩
          · simp
          · refine ⟨by simp, ⟨hc, fun d hd => List.mem_takeWhile_imp hd⟩, fun d hd => ?_⟩
            simpa [Option.mem_def.1 hd] using List.head?_dropWhile_not continuesToken cs
      | false =>
          rcases ih with hplain | ⟨pre, word, rest, rfl, hbefore, htoken, hafter⟩
          · exact Or.inl (List.forall_mem_cons.2 ⟨hc, hplain⟩)
          · exact Or.inr ⟨c :: pre, word, rest, rfl, List.forall_mem_cons.2 ⟨hc, hbefore⟩, htoken,
              hafter⟩

/-- Texts token by token: what holds of a text without tokens, and of a text with a first token if
it holds of the rest, holds of every text. -/
theorem token_induction {motive : List Char → Prop}
    (plain : ∀ cs, (∀ c ∈ cs, beginsToken c = false) → motive cs)
    (token : ∀ pre word rest, FirstToken pre word rest → motive rest → motive (pre ++ word ++ rest))
    (cs : List Char) : motive cs := by
  induction hn : cs.length using Nat.strong_induction_on generalizing cs with
  | _ n ih =>
      rcases exists_firstToken cs with hplain | ⟨pre, word, rest, rfl, hfirst⟩
      · exact plain cs hplain
      · refine token pre word rest hfirst (ih rest.length ?_ rest rfl)
        have hword : 0 < word.length := List.length_pos_iff.2 hfirst.token.ne_nil
        simp only [List.length_append] at hn
        omega

/-! ### Marking tokens -/

theorem emphasize_nil : emphasize [] = [] := by decide

/-- What begins no token stays as it is. -/
theorem emphasize_append_of_plain {pre : List Char} (h : ∀ c ∈ pre, beginsToken c = false)
    (cs : List Char) : emphasize (pre ++ cs) = pre ++ emphasize cs := by
  induction pre with
  | nil => rfl
  | cons c pre ih =>
      obtain ⟨hc, hpre⟩ := List.forall_mem_cons.1 h
      have hstep : emphasize (c :: (pre ++ cs)) = c :: emphasize (pre ++ cs) := by
        simp [emphasize, emphasizeFrom, hc]
      rw [List.cons_append, hstep, ih hpre, List.cons_append]

/-- A token goes on as long as it can. -/
theorem emphasizeFrom_append {token w : List Char} (htoken : token ≠ [])
    (hw : ∀ c ∈ w, continuesToken c = true) (cs : List Char) :
    emphasizeFrom token (w ++ cs) = emphasizeFrom (w.reverse ++ token) cs := by
  induction w generalizing token with
  | nil => rfl
  | cons c w ih =>
      obtain ⟨hc, hw'⟩ := List.forall_mem_cons.1 hw
      have hstep : emphasizeFrom token (c :: (w ++ cs)) = emphasizeFrom (c :: token) (w ++ cs) := by
        simp [emphasizeFrom, htoken, hc]
      rw [List.cons_append, hstep, ih (List.cons_ne_nil c token) hw']
      simp

/-- A token that cannot go on is marked. -/
theorem emphasizeFrom_of_end {token rest : List Char} (htoken : token ≠ [])
    (hrest : ∀ c ∈ rest.head?, continuesToken c = false) :
    emphasizeFrom token rest = mark token.reverse ++ emphasize rest := by
  cases rest with
  | nil => rw [emphasize_nil, List.append_nil, emphasizeFrom]
  | cons c rest =>
      have hc : continuesToken c = false := hrest c (by simp)
      have hplain : emphasize ([c] ++ rest) = [c] ++ emphasize rest :=
        emphasize_append_of_plain (by simp [beginsToken_eq_false hc]) rest
      rw [List.singleton_append, List.singleton_append] at hplain
      rw [hplain, emphasizeFrom, if_neg (by simp [htoken]), if_neg (by simp [hc]), emphasize]

/-- **The first token is marked**, and then the rest. -/
theorem emphasize_append {pre word rest : List Char} (h : FirstToken pre word rest) :
    emphasize (pre ++ word ++ rest) = pre ++ mark word ++ emphasize rest := by
  obtain ⟨hbefore, htoken, hafter⟩ := h
  rw [List.append_assoc, emphasize_append_of_plain hbefore, List.append_assoc]
  cases word with
  | nil => exact htoken.elim
  | cons c word =>
      have hstep : emphasize (c :: (word ++ rest)) = emphasizeFrom [c] (word ++ rest) := by
        simp [emphasize, emphasizeFrom, htoken.1]
      rw [List.cons_append, hstep, emphasizeFrom_append (List.cons_ne_nil c []) htoken.2,
        emphasizeFrom_of_end (by simp) hafter]
      simp

/-! ### Marked texts -/

/-- A text with words of it in bold. -/
inductive Marked where
  /-- No more words in bold. -/
  | plain (text : List Char)
  /-- The next word in bold, and what stands before it and follows it. -/
  | bold (before word : List Char) (rest : Marked)
  deriving DecidableEq, Repr

namespace Marked

/-- The text as it is written, with a switch on either side of every word in bold. -/
def write : Marked → List Char
  | plain text => text
  | bold before word rest => before ++ (on ++ word ++ off) ++ rest.write

/-- The text alone. -/
def text : Marked → List Char
  | plain text => text
  | bold before word rest => before ++ word ++ rest.text

/-- The stretches that are not in bold. -/
def plains : Marked → List (List Char)
  | plain text => [text]
  | bold before _ rest => before :: rest.plains

/-- The word is in bold where `before` stands before it and `after` follows it. -/
def Bold : Marked → List Char → List Char → List Char → Prop
  | plain _, _, _, _ => False
  | bold pre w rest, before, word, after =>
      (before = pre ∧ word = w ∧ after = rest.text) ∨
        ∃ b, before = pre ++ w ++ b ∧ rest.Bold b word after

/-- How often bold is switched on, and off again. -/
def count : Marked → Nat
  | plain _ => 0
  | bold _ _ rest => rest.count + 1

/-- The text with more text before it. -/
def prepend (t : List Char) : Marked → Marked
  | plain text => plain (t ++ text)
  | bold before word rest => bold (t ++ before) word rest

@[simp] theorem write_prepend (t : List Char) (m : Marked) :
    (m.prepend t).write = t ++ m.write := by
  cases m with
  | plain text => rfl
  | bold before word rest => simp [prepend, write]

@[simp] theorem text_prepend (t : List Char) (m : Marked) : (m.prepend t).text = t ++ m.text := by
  cases m with
  | plain text => rfl
  | bold before word rest => simp [prepend, text]

theorem bold_prepend_iff {t before word after : List Char} {m : Marked} :
    (m.prepend t).Bold before word after ↔ ∃ b, before = t ++ b ∧ m.Bold b word after := by
  cases m with
  | plain text => simp [prepend, Bold]
  | bold pre w rest =>
      constructor
      · rintro (⟨rfl, rfl, rfl⟩ | ⟨b, rfl, hb⟩)
        · exact ⟨pre, rfl, Or.inl ⟨rfl, rfl, rfl⟩⟩
        · exact ⟨pre ++ w ++ b, by simp, Or.inr ⟨b, rfl, hb⟩⟩
      · rintro ⟨b, rfl, ⟨rfl, rfl, rfl⟩ | ⟨b, rfl, hb⟩⟩
        · exact Or.inl ⟨rfl, rfl, rfl⟩
        · exact Or.inr ⟨b, by simp, hb⟩

/-- Text before a marked text only lengthens its first stretch. -/
theorem mem_plains_prepend {t p : List Char} {m : Marked} (h : p ∈ (m.prepend t).plains) :
    p ∈ m.plains ∨ ∃ q ∈ m.plains, p = t ++ q ∧ q <+: m.text := by
  cases m with
  | plain text => exact Or.inr ⟨text, by simp [plains], List.mem_singleton.1 h, List.prefix_rfl⟩
  | bold before word rest =>
      rcases List.mem_cons.1 h with rfl | h
      · exact Or.inr ⟨before, List.mem_cons_self .., rfl, by simp [text]⟩
      · exact Or.inl (List.mem_cons_of_mem _ h)

/-- The words in bold are the keywords of the text, wherever one stands, and none is left in what
is not in bold. -/
structure MarksKeywords (m : Marked) (cs : List Char) : Prop where
  text : m.text = cs
  bold : ∀ before word after,
    m.Bold before word after ↔ TokenAt cs before word after ∧ isKeyword word = true
  plain : ∀ p ∈ m.plains, ∀ before word after, TokenAt p before word after → isKeyword word = false

variable {m : Marked} {pre word rest cs : List Char}

theorem marksKeywords_plain (h : ∀ c ∈ cs, beginsToken c = false) :
    (Marked.plain cs).MarksKeywords cs where
  text := rfl
  bold := fun _ _ _ => ⟨False.elim, fun hw => not_tokenAt h hw.1⟩
  plain := by
    intro p hp before word after hw
    obtain rfl : p = cs := List.mem_singleton.1 hp
    exact absurd hw (not_tokenAt h)

/-- One more keyword. -/
theorem MarksKeywords.cons (h : m.MarksKeywords rest) (hfirst : FirstToken pre word rest)
    (hword : isKeyword word = true) :
    (Marked.bold pre word m).MarksKeywords (pre ++ word ++ rest) where
  text := by rw [Marked.text, h.text]
  bold := by
    intro before v after
    rw [tokenAt_append_iff hfirst, Bold, h.text]
    constructor
    · rintro (⟨rfl, rfl, rfl⟩ | ⟨b, rfl, hb⟩)
      · exact ⟨Or.inl ⟨rfl, rfl, rfl⟩, hword⟩
      · obtain ⟨htoken, hv⟩ := (h.bold b v after).1 hb
        exact ⟨Or.inr ⟨b, rfl, htoken⟩, hv⟩
    · rintro ⟨⟨rfl, rfl, rfl⟩ | ⟨b, rfl, htoken⟩, hv⟩
      · exact Or.inl ⟨rfl, rfl, rfl⟩
      · exact Or.inr ⟨b, rfl, (h.bold b v after).2 ⟨htoken, hv⟩⟩
  plain := by
    intro p hp before v after hv
    rcases List.mem_cons.1 hp with rfl | hp
    · exact absurd hv (not_tokenAt hfirst.before)
    · exact h.plain p hp before v after hv

/-- One more token that is no keyword. -/
theorem MarksKeywords.skip (h : m.MarksKeywords rest) (hfirst : FirstToken pre word rest)
    (hword : isKeyword word = false) :
    (m.prepend (pre ++ word)).MarksKeywords (pre ++ word ++ rest) where
  text := by rw [text_prepend, h.text]
  bold := by
    intro before v after
    rw [tokenAt_append_iff hfirst, bold_prepend_iff]
    constructor
    · rintro ⟨b, rfl, hb⟩
      obtain ⟨htoken, hv⟩ := (h.bold b v after).1 hb
      exact ⟨Or.inr ⟨b, rfl, htoken⟩, hv⟩
    · rintro ⟨⟨rfl, rfl, rfl⟩ | ⟨b, rfl, htoken⟩, hv⟩
      · rw [hword] at hv
        cases hv
      · exact ⟨b, rfl, (h.bold b v after).2 ⟨htoken, hv⟩⟩
  plain := by
    intro p hp before v after hv
    rcases mem_plains_prepend hp with hp | ⟨q, hq, rfl, hprefix⟩
    · exact h.plain p hp before v after hv
    · -- the first stretch now begins with a token, which ends where it did in the text
      obtain ⟨more, hmore⟩ := hprefix
      have hfirst' : FirstToken pre word q := by
        refine ⟨hfirst.before, hfirst.token, fun c hc => hfirst.after c ?_⟩
        rw [← h.text, ← hmore, List.head?_append, Option.mem_def.1 hc]
        rfl
      rcases (tokenAt_append_iff hfirst').1 hv with ⟨rfl, rfl, rfl⟩ | ⟨b, rfl, htoken⟩
      · exact hword
      · exact h.plain q hq b v after htoken

end Marked

/-- **The keywords are marked.** -/
theorem exists_marksKeywords (cs : List Char) :
    ∃ m : Marked, emphasize cs = m.write ∧ m.MarksKeywords cs := by
  induction cs using token_induction with
  | plain cs hplain =>
      have hcs := emphasize_append_of_plain hplain []
      rw [emphasize_nil, List.append_nil] at hcs
      exact ⟨.plain cs, hcs, Marked.marksKeywords_plain hplain⟩
  | token pre word rest hfirst ih =>
      obtain ⟨m, hwrite, hm⟩ := ih
      rw [emphasize_append hfirst, hwrite]
      cases hword : isKeyword word with
      | true => exact ⟨.bold pre word m, by simp [mark, hword, Marked.write], hm.cons hfirst hword⟩
      | false =>
          exact ⟨m.prepend (pre ++ word), by simp [mark, hword], hm.skip hfirst hword⟩

/-! ### Switches -/

/-- The character with which switches begin. -/
def escape : Char := Char.ofNat 0x1b

/-- The text without its switches. -/
def eraseSwitches : List Char → List Char
  | '\x1b' :: '[' :: '1' :: 'm' :: cs => eraseSwitches cs
  | '\x1b' :: '[' :: '0' :: 'm' :: cs => eraseSwitches cs
  | c :: cs => c :: eraseSwitches cs
  | [] => []

/-- The switches of the text, one after another. -/
def switches : List Char → List (List Char)
  | '\x1b' :: '[' :: '1' :: 'm' :: cs => on :: switches cs
  | '\x1b' :: '[' :: '0' :: 'm' :: cs => off :: switches cs
  | _ :: cs => switches cs
  | [] => []

theorem eraseSwitches_on (cs : List Char) : eraseSwitches (on ++ cs) = eraseSwitches cs := rfl

theorem eraseSwitches_off (cs : List Char) : eraseSwitches (off ++ cs) = eraseSwitches cs := rfl

theorem switches_on (cs : List Char) : switches (on ++ cs) = on :: switches cs := rfl

theorem switches_off (cs : List Char) : switches (off ++ cs) = off :: switches cs := rfl

theorem eraseSwitches_cons {c : Char} (h : c ≠ escape) (cs : List Char) :
    eraseSwitches (c :: cs) = c :: eraseSwitches cs := by
  have hc : c ≠ '\x1b' := h
  rw [eraseSwitches.eq_3] <;> simp [hc]

theorem switches_cons {c : Char} (h : c ≠ escape) (cs : List Char) :
    switches (c :: cs) = switches cs := by
  have hc : c ≠ '\x1b' := h
  rw [switches.eq_3] <;> simp [hc]

/-- Without the character with which switches begin there is nothing to erase. -/
theorem eraseSwitches_append {t : List Char} (h : escape ∉ t) (cs : List Char) :
    eraseSwitches (t ++ cs) = t ++ eraseSwitches cs := by
  induction t with
  | nil => rfl
  | cons c t ih =>
      obtain ⟨hc, ht⟩ := List.ne_and_not_mem_of_not_mem_cons h
      rw [List.cons_append, eraseSwitches_cons hc.symm, ih ht, List.cons_append]

theorem eraseSwitches_of_not_mem {t : List Char} (h : escape ∉ t) : eraseSwitches t = t := by
  have hnothing := eraseSwitches_append h []
  rwa [List.append_nil, eraseSwitches, List.append_nil] at hnothing

/-- Without the character with which switches begin there are none. -/
theorem switches_append {t : List Char} (h : escape ∉ t) (cs : List Char) :
    switches (t ++ cs) = switches cs := by
  induction t with
  | nil => rfl
  | cons c t ih =>
      obtain ⟨hc, ht⟩ := List.ne_and_not_mem_of_not_mem_cons h
      rw [List.cons_append, switches_cons hc.symm, ih ht]

namespace Marked

variable {m : Marked} {before word : List Char} {rest : Marked}

/-- What a marked text is made of has no character that its text does not have. -/
theorem not_mem_of_bold {c : Char} (h : c ∉ (bold before word rest).text) :
    c ∉ before ∧ c ∉ word ∧ c ∉ rest.text := by
  simpa [text, and_assoc] using h

/-- Without its switches a marked text is its text. -/
theorem eraseSwitches_write (h : escape ∉ m.text) : eraseSwitches m.write = m.text := by
  induction m with
  | plain text => exact eraseSwitches_of_not_mem h
  | bold before word rest ih =>
      obtain ⟨hbefore, hword, hrest⟩ := not_mem_of_bold h
      simp only [write, Marked.text, List.append_assoc]
      rw [eraseSwitches_append hbefore, eraseSwitches_on, eraseSwitches_append hword,
        eraseSwitches_off, ih hrest]

/-- Bold is switched on and off in turns. -/
theorem switches_write (h : escape ∉ m.text) :
    switches m.write = (List.replicate m.count [on, off]).flatten := by
  induction m with
  | plain text =>
      have hnone := switches_append h []
      rwa [List.append_nil] at hnone
  | bold before word rest ih =>
      obtain ⟨hbefore, hword, hrest⟩ := not_mem_of_bold h
      simp only [write, List.append_assoc]
      rw [switches_append hbefore, switches_on, switches_append hword, switches_off, ih hrest,
        count, List.replicate_succ, List.flatten_cons]
      rfl

/-! ### Trimmed texts -/

/-- Line ends are trimmed off a marked text as they are off its text, if the words in bold are
tokens. -/
theorem eraseSwitches_trimEnd_write (h : escape ∉ m.text)
    (hwords : ∀ before word after, m.Bold before word after → IsToken word) :
    eraseSwitches (Text.trimEnd (· == '\n') m.write) = Text.trimEnd (· == '\n') m.text := by
  induction m with
  | plain text =>
      have hsubset : Text.trimEnd (· == '\n') text ⊆ text := (List.rdropWhile_prefix _ _).subset
      exact eraseSwitches_of_not_mem fun hmem => h (hsubset hmem)
  | bold before word rest ih =>
      obtain ⟨hbefore, hword, hrest⟩ := not_mem_of_bold h
      have hoff : (before ++ (on ++ word ++ off)).getLast? = some 'm' := by
        simp [off, List.getLast?_append]
      have htoken : IsToken word := hwords before word rest.text (Or.inl ⟨rfl, rfl, rfl⟩)
      obtain ⟨c, hc, hstays⟩ := htoken.exists_getLast?
      have hlast : (before ++ word).getLast? = some c := by
        rw [List.getLast?_append, hc]
        rfl
      rw [write, Marked.text, Text.trimEnd_append hoff (by decide),
        Text.trimEnd_append hlast hstays,
        ← ih hrest fun b w a hw => hwords _ w a (Or.inr ⟨b, rfl, hw⟩)]
      simp only [List.append_assoc]
      rw [eraseSwitches_append hbefore, eraseSwitches_on, eraseSwitches_append hword,
        eraseSwitches_off]

end Marked

/-- Switches make the only difference between a symbol with its keywords in bold and without. -/
theorem eraseSwitches_renderSymbol (style : PlainStyle) {s : Symbol} {source : Bytes}
    (hdoc : escape ∉ s.doc source) (hcode : escape ∉ s.code source) :
    eraseSwitches ({ style with bold := true }.renderSymbol s source).toList =
      ({ style with bold := false }.renderSymbol s source).toList := by
  obtain ⟨m, hwrite, hm⟩ := exists_marksKeywords (s.code source)
  have hbold : ({ style with bold := true }.renderSymbol s source).toList =
      Text.trimEnd (· == '\n') (m.prepend (s.doc source)).write := by
    rw [Marked.write_prepend, ← hwrite]
    exact String.toList_ofList
  have hplain : ({ style with bold := false }.renderSymbol s source).toList =
      Text.trimEnd (· == '\n') (m.prepend (s.doc source)).text := by
    rw [Marked.text_prepend, hm.text]
    exact String.toList_ofList
  rw [hbold, hplain]
  refine Marked.eraseSwitches_trimEnd_write ?_ fun before word after hw => ?_
  · rw [Marked.text_prepend, hm.text, List.mem_append]
    exact fun hmem => hmem.elim hdoc hcode
  · obtain ⟨b, -, hb⟩ := Marked.bold_prepend_iff.1 hw
    exact ((hm.bold b word after).1 hb).1.token

/-- **Emphasis only adds switches, around whole keywords.**  Let a text have no character with which
switches begin.  Without its switches the emphasized text is the text again, and its switches turn
bold on and off in turns.  It is the text with words of it in bold, and these are the keywords:
every token, as long as it can be, that is a keyword in any case, wherever one stands.  In the
stretches that are not in bold no token is a keyword.  A symbol whose documentation and code have no
such character is the same in bold and without, but for the switches. -/
theorem emphasis_adds_switches :
    (∀ cs : List Char, escape ∉ cs →
      eraseSwitches (emphasize cs) = cs ∧
      (∃ n, switches (emphasize cs) = (List.replicate n [on, off]).flatten) ∧
      ∃ m : Marked, emphasize cs = m.write ∧ m.MarksKeywords cs) ∧
    ∀ (style : PlainStyle) (s : Symbol) (source : Bytes), escape ∉ s.doc source →
      escape ∉ s.code source →
      eraseSwitches ({ style with bold := true }.renderSymbol s source).toList =
        ({ style with bold := false }.renderSymbol s source).toList := by
  refine ⟨fun cs hcs => ?_, fun style s source => eraseSwitches_renderSymbol style⟩
  obtain ⟨m, hwrite, hm⟩ := exists_marksKeywords cs
  have hescape : escape ∉ m.text := hm.text ▸ hcs
  refine ⟨?_, ⟨m.count, ?_⟩, m, hwrite, hm⟩
  · rw [hwrite, Marked.eraseSwitches_write hescape, hm.text]
  · rw [hwrite, Marked.switches_write hescape]

/-- Keywords in any case, one after a digit and one within a longer token, and an entity with blank
lines after it. -/
theorem emphasis_adds_switches_sample :
    let text := "9end of END_of_frame IS x".toList
    let s : Symbol := .entity ⟨"e.vhd", "e", 2, "work", 0, 7, 7, 21, "", ""⟩
    let source : Bytes := "-- end\nentity e is\n\n\n".toUTF8.data.toList
    (eraseSwitches (emphasize text) = text ∧
      switches (emphasize text) = [on, off, on, off, on, off] ∧
      ∃ m : Marked, emphasize text = m.write ∧
        m.Bold ['9'] ['e', 'n', 'd'] (' ' :: "of END_of_frame IS x".toList)) ∧
    eraseSwitches (PlainStyle.standard.renderSymbol s source).toList =
      "-- end\nentity e is".toList := by
  intro text s source
  obtain ⟨htexts, hsymbols⟩ := emphasis_adds_switches
  obtain ⟨herase, -, m, hwrite, hm⟩ := htexts text (by decide +kernel)
  have hfirst : FirstToken ['9'] ['e', 'n', 'd'] (' ' :: "of END_of_frame IS x".toList) :=
    ⟨by simp [beginsToken], ⟨by decide, by simp [continuesToken]⟩, by simp [continuesToken]⟩
  have hplain : ({ PlainStyle.standard with bold := false }.renderSymbol s source).toList =
      "-- end\nentity e is".toList := by
    decide +kernel
  refine ⟨⟨herase, by decide +kernel, m, hwrite, ?_⟩, ?_⟩
  · exact (hm.bold _ _ _).2 ⟨hfirst.tokenAt, by decide +kernel⟩
  · exact (hsymbols PlainStyle.standard s source (by decide +kernel) (by decide +kernel)).trans
      hplain

end Emphasis

end VhdlCatalog
