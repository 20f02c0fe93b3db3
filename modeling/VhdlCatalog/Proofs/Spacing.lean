import Mathlib.Data.List.Chain
import VhdlCatalog.Scan.FileScan

/-!
**The spacing of one-line texts.**

The lines of a declaration are put on one line in three moves: every line is cut into words that
are joined by single spaces, the lines are joined in the same way, and white space next to a
parenthesis is dropped.  None of these moves touches a character that is not white space.  What they
reach is a form in which nothing is left for them to do, so joining a joined line again changes
nothing.

Main definitions:

* `VhdlCatalog.Text.solid` — a text without its white space;
* `VhdlCatalog.Text.SingleSpaced` — single spaces between words and nowhere else;
* `VhdlCatalog.Text.Tight` — no white space on the inner side of a parenthesis.

Main results:

* `VhdlCatalog.Source.solid_collapse`, `VhdlCatalog.solid_joinLines` — **only white space goes**;
* `VhdlCatalog.Source.singleSpaced_collapse`, `VhdlCatalog.singleSpaced_joinLines` — what the moves
  reach;
* `VhdlCatalog.tight_joinLines`, `VhdlCatalog.joinLines_joinLines` — **joining once is enough**,
  whatever the lines are.
-/

set_option relaxedAutoImplicit false
set_option autoImplicit false

namespace VhdlCatalog

namespace Text

variable {as bs cs : List Char} {parts : List (List Char)}

/-! ### Texts without their white space -/

/-- A text without its white space. -/
def solid (cs : List Char) : List Char := cs.filter fun c => !isBlank c

@[simp] theorem solid_nil : solid [] = [] := rfl

theorem solid_append (as bs : List Char) : solid (as ++ bs) = solid as ++ solid bs :=
  List.filter_append ..

theorem solid_cons_of_blank {c : Char} (h : isBlank c = true) (cs : List Char) :
    solid (c :: cs) = solid cs := by
  simp [solid, h]

theorem solid_reverse (cs : List Char) : solid cs.reverse = (solid cs).reverse :=
  List.filter_reverse ..

theorem solid_flatMap {α : Type} (xs : List α) (f : α → List Char) :
    solid (xs.flatMap f) = xs.flatMap fun x => solid (f x) :=
  List.filter_flatMap

theorem solid_eq_nil_iff : solid cs = [] ↔ ∀ c ∈ cs, isBlank c = true := by
  simp [solid]

/-- The pieces that a text is cut into hold all of it but the characters it is cut at. -/
theorem flatten_pieces (p : Char → Bool) (cs : List Char) :
    (pieces p cs).flatten = cs.filter fun c => !p c := by
  induction cs with
  | nil => rfl
  | cons c cs ih =>
      rw [pieces_cons, List.filter_cons, ← ih]
      cases pieces p cs with
      | nil => by_cases hc : p c = true <;> simp [extendPieces, hc]
      | cons piece more => by_cases hc : p c = true <;> simp [extendPieces, hc]

theorem flatten_words (cs : List Char) : (words cs).flatten = solid cs := by
  rw [words, solid, ← flatten_pieces]
  exact List.flatten_filter_not_isEmpty

/-- Spaces between parts count for nothing. -/
theorem solid_join (parts : List (List Char)) : solid (join [' '] parts) = parts.flatMap solid := by
  induction parts with
  | nil => rfl
  | cons part parts ih =>
      cases parts with
      | nil => simp [join]
      | cons next more =>
          rw [join, List.intercalate_cons_cons, ← join, solid_append, solid_append, ih]
          have hspace : solid [' '] = [] := by decide
          simp [hspace]

/-! ### Single spaces -/

/-- Single spaces stand between words, and there is no other white space. -/
structure SingleSpaced (cs : List Char) : Prop where
  /-- There is no white space at the beginning. -/
  head : ∀ c ∈ cs.head?, isBlank c = false
  /-- There is none at the end. -/
  last : ∀ c ∈ cs.getLast?, isBlank c = false
  /-- White space is a space. -/
  space : ∀ c ∈ cs, isBlank c = true → c = ' '
  /-- No two spaces stand side by side. -/
  single : cs.IsChain fun a b => isBlank a = false ∨ isBlank b = false

theorem singleSpaced_nil : SingleSpaced [] :=
  ⟨by simp, by simp, by simp, List.isChain_nil⟩

/-- A word. -/
theorem SingleSpaced.of_forall (h : ∀ c ∈ cs, isBlank c = false) : SingleSpaced cs where
  head := fun c hc => h c (List.mem_of_mem_head? hc)
  last := fun c hc => h c (List.mem_of_mem_getLast? hc)
  space := fun c hc hblank => by
    rw [h c hc] at hblank
    cases hblank
  single := by
    have hpairs : cs.Pairwise fun a b => isBlank a = false ∨ isBlank b = false :=
      List.pairwise_of_forall_mem_list fun a ha _ _ => Or.inl (h a ha)
    exact hpairs.isChain

/-- Two texts with a space between them. -/
theorem SingleSpaced.append (ha : SingleSpaced as) (hb : SingleSpaced bs) (has : as ≠ [])
    (hbs : bs ≠ []) : SingleSpaced (as ++ ' ' :: bs) where
  head := by
    intro c hc
    cases as with
    | nil => exact absurd rfl has
    | cons a as => exact ha.head c hc
  last := by
    intro c hc
    rw [List.getLast?_append, List.getLast?_cons] at hc
    cases h : bs.getLast? with
    | none => exact absurd (List.getLast?_eq_none_iff.1 h) hbs
    | some b =>
        rw [h] at hc
        exact hb.last c (by rw [h]; exact hc)
  space := by
    intro c hc hblank
    rcases List.mem_append.1 hc with hc | hc
    · exact ha.space c hc hblank
    · rcases List.mem_cons.1 hc with rfl | hc
      · rfl
      · exact hb.space c hc hblank
  single := by
    refine List.isChain_append.2 ⟨ha.single, List.isChain_cons.2 ⟨?_, hb.single⟩, ?_⟩
    · intro b hmem
      exact Or.inr (hb.head b hmem)
    · intro a hmem b _
      exact Or.inl (ha.last a hmem)

theorem join_ne_nil (h : ∀ part ∈ parts, part ≠ []) (hparts : parts ≠ []) :
    join [' '] parts ≠ [] := by
  cases parts with
  | nil => exact absurd rfl hparts
  | cons part parts =>
      have hpart := h part (by simp)
      cases parts with
      | nil => simpa [join] using hpart
      | cons next more => simp [join]

/-- Parts that are single-spaced themselves, with single spaces between them. -/
theorem singleSpaced_join (hne : ∀ part ∈ parts, part ≠ [])
    (h : ∀ part ∈ parts, SingleSpaced part) : SingleSpaced (join [' '] parts) := by
  induction parts with
  | nil => exact singleSpaced_nil
  | cons part parts ih =>
      obtain ⟨hpart, hparts⟩ := List.forall_mem_cons.1 h
      obtain ⟨hpart', hparts'⟩ := List.forall_mem_cons.1 hne
      cases parts with
      | nil => simpa [join] using hpart
      | cons next more =>
          have hrest := ih hparts' hparts
          have happend := hpart.append hrest hpart' (join_ne_nil hparts' (by simp))
          rw [join, List.intercalate_cons_cons, List.append_assoc]
          exact happend

end Text

namespace Source

open Text

/-- **Collapsing** a line touches white space only. -/
theorem solid_collapse (cs : List Char) : solid (collapse cs) = solid cs := by
  have hwords : ∀ w ∈ words cs, solid w = w := by
    intro w hw
    rw [solid, List.filter_eq_self]
    intro c hc
    have hmem : c ∈ solid cs := flatten_words cs ▸ List.mem_flatten.2 ⟨w, hw, hc⟩
    exact (List.mem_filter.1 hmem).2
  rw [collapse, solid_join, List.flatMap_congr hwords, ← flatten_words]
  simp

/-- A collapsed line has single spaces. -/
theorem singleSpaced_collapse (cs : List Char) : SingleSpaced (collapse cs) := by
  refine singleSpaced_join ?_ ?_
  · intro w hw hnil
    simp [words, hnil] at hw
  · intro w hw
    refine .of_forall fun c hc => ?_
    have hmem : c ∈ solid cs := flatten_words cs ▸ List.mem_flatten.2 ⟨w, hw, hc⟩
    simpa using (List.mem_filter.1 hmem).2

end Source

/-! ### White space after a mark -/

section Mark

variable {mark : Char} {skipping : Bool} {cs : List Char} {R : Char → Char → Prop}

theorem solid_dropBlanksAfter (mark : Char) (skipping : Bool) (cs : List Char) :
    Text.solid (dropBlanksAfter mark skipping cs) = Text.solid cs := by
  induction cs generalizing skipping with
  | nil => rfl
  | cons c cs ih =>
      rw [dropBlanksAfter]
      split
      · next hskip =>
          rw [ih, Text.solid_cons_of_blank (Bool.and_eq_true_iff.1 hskip).2]
      · simp only [Text.solid, List.filter_cons] at ih ⊢
        rw [ih]

theorem dropBlanksAfter_sublist (mark : Char) (skipping : Bool) (cs : List Char) :
    (dropBlanksAfter mark skipping cs).Sublist cs := by
  induction cs generalizing skipping with
  | nil => exact .slnil
  | cons c cs ih =>
      rw [dropBlanksAfter]
      split
      · exact (ih true).cons c
      · exact (ih _).cons_cons c

theorem head?_dropBlanksAfter_false (mark : Char) (cs : List Char) :
    (dropBlanksAfter mark false cs).head? = cs.head? := by
  cases cs <;> rfl

/-- After a mark nothing begins with white space. -/
theorem isBlank_of_mem_head?_dropBlanksAfter {c : Char}
    (h : c ∈ (dropBlanksAfter mark true cs).head?) : isBlank c = false := by
  induction cs with
  | nil => cases h
  | cons d cs ih =>
      rw [dropBlanksAfter] at h
      split at h
      · exact ih h
      · next hskip =>
          obtain rfl : d = c := by simpa using h
          simpa using hskip

/-- A text that does not end in white space keeps its last character. -/
theorem getLast?_dropBlanksAfter (mark : Char) (skipping : Bool)
    (h : ∀ c ∈ cs.getLast?, isBlank c = false) :
    (dropBlanksAfter mark skipping cs).getLast? = cs.getLast? := by
  induction cs generalizing skipping with
  | nil => rfl
  | cons c cs ih =>
      cases cs with
      | nil =>
          have hc : isBlank c = false := h c (by simp)
          simp [dropBlanksAfter, hc]
      | cons d ds =>
          have hlast : (c :: d :: ds).getLast? = (d :: ds).getLast? := by
            rw [List.getLast?_cons_cons]
          rw [hlast] at h ⊢
          rw [dropBlanksAfter]
          split
          · exact ih true h
          · rw [List.getLast?_cons, ih _ h, List.getLast?_cons]
            rfl

/-- **What holds between neighbours** still holds when white space after the mark has gone, if it
holds of the mark and whatever comes next to it; and the mark is then followed by no white space. -/
theorem isChain_dropBlanksAfter (skipping : Bool) (hmark : ∀ c, R mark c) (h : cs.IsChain R) :
    (dropBlanksAfter mark skipping cs).IsChain fun a b =>
      R a b ∧ (a = mark → isBlank b = false) := by
  induction cs generalizing skipping with
  | nil => exact List.isChain_nil
  | cons c cs ih =>
      obtain ⟨hhead, htail⟩ := List.isChain_cons.1 h
      rw [dropBlanksAfter]
      split
      · exact ih true htail
      · refine List.isChain_cons.2 ⟨fun d hd => ?_, ih _ htail⟩
        by_cases hc : c = mark
        · subst hc
          rw [beq_self_eq_true] at hd
          exact ⟨hmark d, fun _ => isBlank_of_mem_head?_dropBlanksAfter hd⟩
        · rw [beq_eq_false_iff_ne.2 hc, head?_dropBlanksAfter_false] at hd
          exact ⟨hhead d hd, fun heq => absurd heq hc⟩

/-- Where no white space follows the mark, nothing goes. -/
theorem dropBlanksAfter_eq_self (h : cs.IsChain fun a b => a = mark → isBlank b = false)
    (hhead : skipping = true → ∀ c ∈ cs.head?, isBlank c = false) :
    dropBlanksAfter mark skipping cs = cs := by
  induction cs generalizing skipping with
  | nil => rfl
  | cons c cs ih =>
      obtain ⟨hnext, htail⟩ := List.isChain_cons.1 h
      have hkeep : ¬(skipping && isBlank c) = true := by
        intro hskip
        obtain ⟨hskipping, hblank⟩ := Bool.and_eq_true_iff.1 hskip
        rw [hhead hskipping c rfl] at hblank
        cases hblank
      rw [dropBlanksAfter, if_neg hkeep, ih htail fun hc d hd => hnext d hd (beq_iff_eq.1 hc)]

end Mark

/-! ### Lines on one line -/

/-- No white space stands directly after an opening parenthesis or directly before a closing
one. -/
def Text.Tight (cs : List Char) : Prop :=
  cs.IsChain fun a b => (a = '(' → isBlank b = false) ∧ (b = ')' → isBlank a = false)

theorem solid_joinLines (parts : List (List Char)) :
    Text.solid (joinLines parts) = parts.flatMap Text.solid := by
  have hparts : (parts.filter fun part => !part.isEmpty).flatMap Text.solid =
      parts.flatMap Text.solid := by
    induction parts with
    | nil => rfl
    | cons part parts ih =>
        rw [List.filter_cons]
        cases part with
        | nil => simpa using ih
        | cons c cs => simpa using ih
  simp only [joinLines]
  rw [Text.solid_reverse, solid_dropBlanksAfter, Text.solid_reverse, List.reverse_reverse,
    solid_dropBlanksAfter, Text.solid_join, hparts]

section Joined

variable {parts : List (List Char)} {R : Char → Char → Prop}

/-- What holds between the neighbours of the parts with single spaces between them, and of the
parentheses whatever stands at their inner side, holds between the neighbours of the joined line,
which is tight. -/
theorem isChain_joinLines (hopen : ∀ c, R '(' c) (hclose : ∀ c, R c ')')
    (h : (Text.join [' '] (parts.filter fun part => !part.isEmpty)).IsChain R) :
    (joinLines parts).IsChain fun a b =>
      R a b ∧ (a = '(' → isBlank b = false) ∧ (b = ')' → isBlank a = false) := by
  have hopened := isChain_dropBlanksAfter false hopen h
  -- the second move reads from the right
  have hmark : ∀ c, R c ')' ∧ (c = '(' → isBlank ')' = false) :=
    fun c => ⟨hclose c, fun _ => by decide⟩
  have hclosed := isChain_dropBlanksAfter (R := fun b a => R a b ∧ (a = '(' → isBlank b = false))
    false hmark (List.isChain_reverse.2 hopened)
  simp only [joinLines]
  refine List.isChain_reverse.2 (hclosed.imp ?_)
  rintro b a ⟨⟨hR, hafter⟩, hbefore⟩
  exact ⟨hR, hafter, hbefore⟩

/-- **A joined line is tight**, whatever the parts are. -/
theorem tight_joinLines (parts : List (List Char)) : Text.Tight (joinLines parts) := by
  have hall : ∀ cs : List Char, cs.IsChain fun _ _ => True := by
    intro cs
    have hpairs : cs.Pairwise fun _ _ => True := List.pairwise_of_forall fun _ _ => trivial
    exact hpairs.isChain
  refine (isChain_joinLines (R := fun _ _ => True) (fun _ => trivial) (fun _ => trivial)
    (hall _)).imp ?_
  intro a b hab
  exact hab.2

/-- **Single-spaced parts** give a single-spaced line. -/
theorem singleSpaced_joinLines (h : ∀ part ∈ parts, Text.SingleSpaced part) :
    Text.SingleSpaced (joinLines parts) := by
  have htext : Text.SingleSpaced (Text.join [' '] (parts.filter fun part => !part.isEmpty)) := by
    refine Text.singleSpaced_join ?_ ?_
    · intro part hpart hnil
      simp [hnil] at hpart
    · intro part hpart
      exact h part (List.mem_of_mem_filter hpart)
  have hsingle := isChain_joinLines (fun _ => Or.inl (by decide)) (fun _ => Or.inr (by decide))
    htext.single
  -- the ends stay, because white space goes only between other characters
  have hhead : (joinLines parts).head? =
      (Text.join [' '] (parts.filter fun part => !part.isEmpty)).head? := by
    simp only [joinLines]
    rw [List.head?_reverse, getLast?_dropBlanksAfter, List.getLast?_reverse,
      head?_dropBlanksAfter_false]
    rw [List.getLast?_reverse, head?_dropBlanksAfter_false]
    exact htext.head
  have hlast : (joinLines parts).getLast? =
      (Text.join [' '] (parts.filter fun part => !part.isEmpty)).getLast? := by
    simp only [joinLines]
    rw [List.getLast?_reverse, head?_dropBlanksAfter_false, List.head?_reverse,
      getLast?_dropBlanksAfter _ _ htext.last]
  refine ⟨by rw [hhead]; exact htext.head, by rw [hlast]; exact htext.last, ?_,
    hsingle.imp fun _ _ hab => hab.1⟩
  intro c hc hblank
  simp only [joinLines, List.mem_reverse] at hc
  have hc' := List.mem_reverse.1 ((dropBlanksAfter_sublist _ _ _).mem hc)
  exact htext.space c ((dropBlanksAfter_sublist _ _ _).mem hc') hblank

/-- A tight line is joined already. -/
theorem joinLines_singleton {cs : List Char} (h : Text.Tight cs) : joinLines [cs] = cs := by
  have htext : Text.join [' '] ([cs].filter fun part => !part.isEmpty) = cs := by
    cases cs <;> simp [Text.join]
  have hopen : dropBlanksAfter '(' false cs = cs :=
    dropBlanksAfter_eq_self (h.imp fun _ _ hab => hab.1) (by simp)
  have hclose : dropBlanksAfter ')' false cs.reverse = cs.reverse :=
    dropBlanksAfter_eq_self (List.isChain_reverse.2 (h.imp fun _ _ hab => hab.2)) (by simp)
  simp only [joinLines]
  rw [htext, hopen, hclose, List.reverse_reverse]

end Joined

/-- **Joining once is enough.** -/
theorem joinLines_joinLines (parts : List (List Char)) :
    joinLines [joinLines parts] = joinLines parts :=
  joinLines_singleton (tight_joinLines parts)

/-- White space after a parenthesis goes even if a comment line has left an empty part there. -/
example : joinLines ["f (".toList, [], " a; b )".toList] = "f (a; b)".toList := by decide

end VhdlCatalog
