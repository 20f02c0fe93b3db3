import VhdlCatalog.Outline
import VhdlCatalog.Proofs.CommentTail
import VhdlCatalog.Proofs.Decoding
import VhdlCatalog.Proofs.Likeness

/-!
**Upper and lower case.**

Sources do not depend on the case of letters.  A source in which ASCII letters are written in the
other case has the same lines, because no letter is a line terminator, and the lines have the same
texts up to the case of letters, because a letter never belongs to a longer sequence of bytes.
Lower-casing hides what is left, also from a capital sigma that looks at its neighbours: a letter
counts as one in either case.

Main definitions:

* `VhdlCatalog.Source.SameLetter` — the two bytes are equal, or the same letter in two cases;
* `VhdlCatalog.Text.foldCase` — a text with its ASCII letters in lower case;
* `VhdlCatalog.Likeness.letterCase` — sources that differ in the case of letters.

Main results:

* `VhdlCatalog.Text.lower_foldCase` — lower-casing does not see the case of letters;
* `VhdlCatalog.Utf8.foldCase_decodeFrom` — **decoding keeps letters apart** from everything else;
* `VhdlCatalog.scanSource_of_sameLetters` — **two sources** that differ in the case of letters.
-/

set_option relaxedAutoImplicit false
set_option autoImplicit false

namespace VhdlCatalog

/-! ### Characters -/

/-- What is the same for both cases of every letter does not see the case of a character. -/
theorem apply_toLower {α : Type} {f : Char → α}
    (h : ∀ n < 26, f (Char.ofNat (n + 0x61)) = f (Char.ofNat (n + 0x41))) (c : Char) :
    f c.toLower = f c := by
  by_cases hc : c.isUpper = true
  · have hA : 'A'.toNat ≤ c.toNat ∧ c.toNat ≤ 'Z'.toNat := by
      simp only [Char.isUpper, ge_iff_le, decide_eq_true_eq] at hc
      exact ⟨UInt32.le_iff_toNat_le.1 hc.1, UInt32.le_iff_toNat_le.1 hc.2⟩
    have hfirst : 'A'.toNat = 0x41 := rfl
    have hlast : 'Z'.toNat = 0x5a := rfl
    have hn := h (c.toNat - 0x41) (by omega)
    have hlower : c.toNat - 0x41 + 0x61 = c.toNat + 32 := by omega
    have hupper : c.toNat - 0x41 + 0x41 = c.toNat := by omega
    rwa [hlower, hupper, Char.ofNat_toNat, ← Char.toLower_eq_of_isUpper hc] at hn
  · rw [Char.toLower_eq_of_not_isUpper hc]

theorem isBlank_toLower (c : Char) : isBlank c.toLower = isBlank c :=
  apply_toLower (by decide) c

theorem isCased_toLower (c : Char) : isCased c.toLower = isCased c :=
  apply_toLower (by decide) c

theorem isCaseIgnorable_toLower (c : Char) : isCaseIgnorable c.toLower = isCaseIgnorable c :=
  apply_toLower (by decide) c

theorem lowerChar_toLower (c : Char) : lowerChar c.toLower = lowerChar c :=
  apply_toLower (by decide) c

theorem isTerminator_toLower (c : Char) : Source.isTerminator c.toLower = Source.isTerminator c :=
  apply_toLower (by decide) c

/-- Lower-casing makes no character into one that is not a letter. -/
theorem toLower_eq_iff {x : Char} (hx : x.isAlpha = false) (c : Char) : c.toLower = x ↔ c = x := by
  by_cases hc : c.isUpper = true
  · have hlower : c.toLower ≠ x := by
      rintro rfl
      simp [Char.isAlpha, hc] at hx
    have hupper : c ≠ x := by
      rintro rfl
      simp [Char.isAlpha, hc] at hx
    simp [hlower, hupper]
  · rw [Char.toLower_eq_of_not_isUpper hc]

theorem beq_toLower {x : Char} (hx : x.isAlpha = false) (c : Char) :
    (c.toLower == x) = (c == x) := by
  rw [Bool.eq_iff_iff, beq_iff_eq, beq_iff_eq, toLower_eq_iff hx]

/-! ### Texts -/

namespace Text

/-- The text with its ASCII letters in lower case. -/
def foldCase (cs : List Char) : List Char := cs.map Char.toLower

theorem foldCase_cons (c : Char) (cs : List Char) :
    foldCase (c :: cs) = c.toLower :: foldCase cs := rfl

theorem foldCase_append (as bs : List Char) : foldCase (as ++ bs) = foldCase as ++ foldCase bs :=
  List.map_append

theorem foldCase_reverse (cs : List Char) : foldCase cs.reverse = (foldCase cs).reverse :=
  List.map_reverse

theorem dropWhile_foldCase {p : Char → Bool} (hp : ∀ c, p c.toLower = p c) (cs : List Char) :
    (foldCase cs).dropWhile p = foldCase (cs.dropWhile p) := by
  have hcomp : p ∘ Char.toLower = p := funext hp
  rw [foldCase, List.dropWhile_map, hcomp, foldCase]

theorem trimEnd_foldCase {p : Char → Bool} (hp : ∀ c, p c.toLower = p c) (cs : List Char) :
    trimEnd p (foldCase cs) = foldCase (trimEnd p cs) := by
  rw [trimEnd, trimEnd, ← foldCase_reverse, dropWhile_foldCase hp, foldCase_reverse]

/-! ### Lower-casing -/

theorem startsCased_foldCase (cs : List Char) : startsCased (foldCase cs) = startsCased cs := by
  rw [startsCased, startsCased, dropWhile_foldCase isCaseIgnorable_toLower]
  cases cs.dropWhile isCaseIgnorable with
  | nil => rfl
  | cons c cs => exact isCased_toLower c

/-- A capital sigma does not see the case of the letters around it. -/
theorem image_foldCase (afterCased : Bool) (c : Char) (cs : List Char) :
    image afterCased c.toLower (foldCase cs) = image afterCased c cs := by
  simp only [image, toLower_eq_iff (show 'Σ'.isAlpha = false by decide), startsCased_foldCase,
    lowerChar_toLower]

theorem lowerFrom_foldCase (afterCased : Bool) (cs : List Char) :
    lowerFrom afterCased (foldCase cs) = lowerFrom afterCased cs := by
  induction cs generalizing afterCased with
  | nil => rfl
  | cons c cs ih =>
      rw [foldCase_cons, lowerFrom_cons, lowerFrom_cons, image_foldCase, isCaseIgnorable_toLower,
        isCased_toLower, ih]

/-- **Lower-casing does not see the case of letters.** -/
theorem lower_foldCase (cs : List Char) : lower (foldCase cs) = lower cs :=
  lowerFrom_foldCase false cs

/-! ### Cutting and joining -/

theorem pieces_foldCase {p : Char → Bool} (hp : ∀ c, p c.toLower = p c) (cs : List Char) :
    pieces p (foldCase cs) = (pieces p cs).map foldCase := by
  induction cs with
  | nil => rfl
  | cons c cs ih =>
      rw [foldCase_cons, pieces_cons, pieces_cons, ih]
      cases pieces p cs with
      | nil => cases hc : p c <;> simp [extendPieces, hp, hc, foldCase]
      | cons piece more => cases hc : p c <;> simp [extendPieces, hp, hc, foldCase]

theorem filter_map_foldCase (parts : List (List Char)) :
    ((parts.map foldCase).filter fun part => !part.isEmpty) =
      (parts.filter fun part => !part.isEmpty).map foldCase := by
  rw [List.filter_map]
  congr 1
  refine List.filter_congr fun part _ => ?_
  cases part <;> rfl

/-- Parts are joined with spaces, which have no case. -/
theorem join_map_foldCase (parts : List (List Char)) :
    join [' '] (parts.map foldCase) = foldCase (join [' '] parts) := by
  rw [join, join]
  induction parts with
  | nil => rfl
  | cons part parts ih =>
      cases parts with
      | nil => simp
      | cons next parts =>
          rw [List.map_cons, List.map_cons, List.intercalate_cons_cons, ← List.map_cons, ih,
            List.intercalate_cons_cons, foldCase_append, foldCase_append]
          rfl

end Text

open Source Text

namespace Source

theorem stripComment_foldCase (cs : List Char) :
    stripComment (foldCase cs) = foldCase (stripComment cs) := by
  have hyphen := toLower_eq_iff (show '-'.isAlpha = false by decide)
  fun_induction stripComment cs with
  | case1 => rfl
  | case2 cs => rfl
  | case3 c cs hne ih =>
      rw [foldCase_cons, foldCase_cons, ← ih]
      refine stripComment.eq_3 _ _ fun rest hc hrest => ?_
      cases cs with
      | nil => cases hrest
      | cons d cs =>
          rw [foldCase_cons, List.cons.injEq] at hrest
          exact hne cs ((hyphen c).1 hc) (by rw [(hyphen d).1 hrest.1])

theorem collapse_foldCase (cs : List Char) : collapse (foldCase cs) = foldCase (collapse cs) := by
  rw [collapse, collapse, words, words, pieces_foldCase isBlank_toLower, filter_map_foldCase,
    join_map_foldCase]

end Source

theorem dropBlanksAfter_foldCase {mark : Char} (hmark : mark.isAlpha = false) (skipping : Bool)
    (cs : List Char) :
    dropBlanksAfter mark skipping (foldCase cs) = foldCase (dropBlanksAfter mark skipping cs) := by
  induction cs generalizing skipping with
  | nil => rfl
  | cons c cs ih =>
      simp only [foldCase_cons, dropBlanksAfter, isBlank_toLower, beq_toLower hmark, ih]
      split <;> rfl

theorem joinLines_map_foldCase (parts : List (List Char)) :
    joinLines (parts.map foldCase) = foldCase (joinLines parts) := by
  simp only [joinLines, filter_map_foldCase, join_map_foldCase,
    dropBlanksAfter_foldCase (show '('.isAlpha = false by decide), ← foldCase_reverse,
    dropBlanksAfter_foldCase (show ')'.isAlpha = false by decide)]

/-- **Letters in two cases**: offsets are the same, and texts are the same up to the case of ASCII
letters. -/
def Likeness.letterCase : Likeness where
  offset i j := i = j
  text cs ds := foldCase cs = foldCase ds
  lower_eq {cs ds} h := by rw [← lower_foldCase cs, h, lower_foldCase]
  text_signature {cs ds} h := by
    rw [← collapse_foldCase, ← stripComment_foldCase, h, stripComment_foldCase, collapse_foldCase]
  text_joinLines {ps qs} h := by
    have hmap : ps.map foldCase = qs.map foldCase := by
      rw [← List.forall₂_eq_eq_eq, List.forall₂_map_left_iff, List.forall₂_map_right_iff]
      exact h
    rw [← joinLines_map_foldCase, hmap, joinLines_map_foldCase]

/-! ### Bytes -/

namespace Source

/-- The byte is a capital ASCII letter. -/
def IsCapital (b : UInt8) : Prop := 0x41 ≤ b ∧ b ≤ 0x5a

/-- The bytes are equal, or the same ASCII letter in two cases. -/
def SameLetter (a b : UInt8) : Prop :=
  a = b ∨ (IsCapital a ∧ b = a + 0x20) ∨ (IsCapital b ∧ a = b + 0x20)

instance (a b : UInt8) : Decidable (SameLetter a b) :=
  inferInstanceAs (Decidable (a = b ∨ ((0x41 ≤ a ∧ a ≤ 0x5a) ∧ b = a + 0x20) ∨
    ((0x41 ≤ b ∧ b ≤ 0x5a) ∧ a = b + 0x20)))

/-- The byte is an ASCII character from the first capital letter on. -/
structure IsAsciiFromA (b : UInt8) : Prop where
  ge : 0x41 ≤ b.toNat
  lt : b.toNat < 0x80

theorem IsCapital.letters {b : UInt8} (h : IsCapital b) :
    IsAsciiFromA b ∧ IsAsciiFromA (b + 0x20) ∧
      (Char.ofNat b.toNat).toLower = (Char.ofNat (b + 0x20).toNat).toLower := by
  have hge : 0x41 ≤ b.toNat := UInt8.le_iff_toNat_le.1 h.1
  have hle : b.toNat ≤ 0x5a := UInt8.le_iff_toNat_le.1 h.2
  have hadd : (b + 0x20).toNat = b.toNat + 0x20 := by
    rw [UInt8.toNat_add]
    show (b.toNat + 0x20) % 256 = _
    omega
  have hcases : ∀ n < 26, (Char.ofNat (n + 0x41)).toLower = (Char.ofNat (n + 0x61)).toLower := by
    decide
  have hn := hcases (b.toNat - 0x41) (by omega)
  have hupper : b.toNat - 0x41 + 0x41 = b.toNat := by omega
  have hlower : b.toNat - 0x41 + 0x61 = b.toNat + 0x20 := by omega
  rw [hupper, hlower] at hn
  refine ⟨⟨hge, by omega⟩, ⟨by omega, by omega⟩, ?_⟩
  rw [hadd, hn]

/-- Bytes that are the same letter but not equal are ASCII characters, and no terminators. -/
theorem SameLetter.cases {a b : UInt8} (h : SameLetter a b) :
    a = b ∨ IsAsciiFromA a ∧ IsAsciiFromA b ∧
      (Char.ofNat a.toNat).toLower = (Char.ofNat b.toNat).toLower := by
  rcases h with rfl | ⟨ha, rfl⟩ | ⟨hb, rfl⟩
  · exact Or.inl rfl
  · exact Or.inr ha.letters
  · obtain ⟨hb, ha, heq⟩ := hb.letters
    exact Or.inr ⟨ha, hb, heq.symm⟩

/-- No letter is a line terminator. -/
theorem SameLetter.eq_iff {a b x : UInt8} (h : SameLetter a b) (hx : x.toNat < 0x41) :
    a = x ↔ b = x := by
  rcases h.cases with rfl | ⟨ha, hb, -⟩
  · exact Iff.rfl
  · have hax : a ≠ x := by
      rintro rfl
      exact absurd ha.ge (by omega)
    have hbx : b ≠ x := by
      rintro rfl
      exact absurd hb.ge (by omega)
    simp [hax, hbx]

/-- The bytes of two texts are the same one by one, up to the case of letters. -/
abbrev SameLetters (bs bs' : Bytes) : Prop := bs.Forall₂ SameLetter bs'

theorem SameLetters.eq_lf_iff {line line' : Bytes} (h : SameLetters line line') :
    line = [lf] ↔ line' = [lf] := by
  cases h with
  | nil => simp
  | cons hb hrest =>
      cases hrest with
      | nil => simp [hb.eq_iff (show lf.toNat < 0x41 by decide)]
      | cons _ _ => simp

theorem extendLines_sameLetters {b b' : UInt8} (hb : SameLetter b b') {ls ls' : List Bytes}
    (h : ls.Forall₂ SameLetters ls') :
    (extendLines b ls).Forall₂ SameLetters (extendLines b' ls') := by
  have hlf := hb.eq_iff (show lf.toNat < 0x41 by decide)
  have hcr := hb.eq_iff (show cr.toNat < 0x41 by decide)
  have hsame : ∀ bs : Bytes, SameLetters bs bs := fun bs =>
    List.forall₂_same.2 fun b _ => Or.inl rfl
  cases h with
  | nil => exact .cons (.cons hb .nil) .nil
  | cons hline hmore =>
      simp only [extendLines, hlf, hcr, hline.eq_lf_iff]
      split
      · exact .cons (hsame _) (.cons hline hmore)
      · split
        · split
          · exact .cons (hsame _) hmore
          · exact .cons (hsame _) (.cons hline hmore)
        · exact .cons (.cons hb hline) hmore

theorem lines_sameLetters {data data' : Bytes} (h : SameLetters data data') :
    (lines data).Forall₂ SameLetters (lines data') := by
  induction h with
  | nil => exact .nil
  | cons hb _ ih => exact extendLines_sameLetters hb ih

theorem offsetAt_eq {raws raws' : List Bytes} (h : raws.Forall₂ SameLetters raws') (i : Nat) :
    offsetAt raws i = offsetAt raws' i := by
  have hlengths : raws.map List.length = raws'.map List.length := by
    induction h with
    | nil => rfl
    | cons hraw _ ih => rw [List.map_cons, List.map_cons, hraw.length_eq, ih]
  rw [offsetAt, offsetAt, List.length_flatten, List.length_flatten, List.map_take, List.map_take,
    hlengths]

end Source

namespace Utf8

/-- **Decoding keeps letters apart**: bytes that are the same up to the case of letters are decoded
to texts that are the same up to the case of letters, whatever is pending before them. -/
theorem foldCase_decodeFrom {pending : Option Pending} (hsafe : Safe pending) {bs bs' : Bytes}
    (h : SameLetters bs bs') :
    foldCase (decodeFrom pending bs) = foldCase (decodeFrom pending bs') := by
  induction h generalizing pending with
  | nil => rfl
  | @cons b b' bs bs' hb _ ih =>
      rw [decodeFrom, decodeFrom, foldCase_append, foldCase_append]
      rcases hb.cases with rfl | ⟨hascii, hascii', hcase⟩
      · rw [ih (safe_step hsafe b)]
      · -- an ASCII byte ends what is pending
        rw [step_ascii hsafe hascii.lt, step_ascii hsafe hascii'.lt, ih safe_none,
          foldCase_append, foldCase_append]
        simp only [foldCase, List.map_cons, List.map_nil, hcase]

end Utf8

theorem Source.textLike_of_sameLetters {raw raw' : Bytes} (h : SameLetters raw raw') :
    TextLike .letterCase raw raw' := by
  show foldCase (lineText raw) = foldCase (lineText raw')
  rw [lineText, lineText, ← trimEnd_foldCase isTerminator_toLower,
    ← trimEnd_foldCase isTerminator_toLower]
  exact congrArg _ (Utf8.foldCase_decodeFrom Utf8.safe_none h)

/-! ### Two sources -/

/-- **The case of letters does not matter**: two sources that are the same byte by byte up to the
case of ASCII letters are scanned to the same units, with the same kinds, forms, names, scopes,
lines and ranges and with signatures and summaries that are the same up to the case of ASCII
letters; or to the same error.  The same events are reported. -/
theorem scanSource_of_sameLetters (filepath library : String) {data data' : Bytes}
    (h : SameLetters data data') :
    (scanSource filepath library data).Like .letterCase (scanSource filepath library data') := by
  have hlines := lines_sameLetters h
  refine scanSource_like filepath library ?_ ?_
  · exact hlines.imp fun _ _ hraw => textLike_of_sameLetters hraw
  · intro i _
    exact congrArg Int.ofNat (offsetAt_eq hlines i)

/-- Every letter of the second source is in the other case.  The capital sigma becomes a final one
after the letter `A` as after the letter `a`. -/
theorem scanSource_of_sameLetters_samples :
    let data : Bytes :=
      "Package P is\n  FUNCTION AΣ(b : INTEGER) return Bit;\nend P;\n".toUTF8.data.toList
    let data' : Bytes :=
      "pACKAGE p IS\n  function aΣ(B : integer) RETURN bIT;\nEND p;\n".toUTF8.data.toList
    SameLetters data data' ∧
    (∃ file, (scanSource "f.vhd" "Work" data).result = .ok file ∧
      file.units.map Symbol.memberNames = [[(.function, ["aς"])]]) ∧
    (scanSource "f.vhd" "Work" data).Like .letterCase (scanSource "f.vhd" "Work" data') := by
  intro data data'
  have hsame : SameLetters data data' := by decide +kernel
  refine ⟨hsame, ?_, scanSource_of_sameLetters "f.vhd" "Work" hsame⟩
  exact exists_ok_of_toOption (f := fun file : FileScan => file.units.map Symbol.memberNames)
    (b := [[(.function, ["aς"])]]) (x := (scanSource "f.vhd" "Work" data).result)
    (by decide +kernel)

end VhdlCatalog
