import Mathlib.Data.List.Infix
import VhdlCatalog.Text.Word

/-!
**Runs of characters of one kind.**

Words, white space and type marks are runs of characters of one kind.  A run is divided from the
rest of a text by where the next character is of another kind, and then it can be taken off, left
out and compared with other runs.

Main results:

* `VhdlCatalog.takeWhile_append_of_head?`, `VhdlCatalog.dropWhile_append_of_head?` — what is taken
  off as a run, and what is left;
* `VhdlCatalog.append_inj_of_head?` — there is one way only to divide a text after its first run;
* `VhdlCatalog.prefix_of_forall`, `VhdlCatalog.suffix_of_forall` — no run reaches beyond the
  boundary of another;
* `VhdlCatalog.Text.atWordEnd_iff` — where a word ends;
* `VhdlCatalog.search_eq_true_iff` — what a search finds that begins anew at every place but those
  after a character that goes on.
-/

set_option relaxedAutoImplicit false
set_option autoImplicit false

namespace VhdlCatalog

section Boundary

variable {p : Char → Bool} {xs as bs as' bs' : List Char}

/-- A run is taken off up to where the next character is of another kind. -/
theorem takeWhile_append_of_head? (has : ∀ c ∈ as, p c = true) (hbs : ∀ c ∈ bs.head?, p c = false) :
    (as ++ bs).takeWhile p = as := by
  rw [List.takeWhile_append_of_pos has]
  cases bs with
  | nil => simp
  | cons b bs =>
      rw [List.takeWhile_cons_of_neg (by simpa using hbs b rfl), List.append_nil]

theorem dropWhile_append_of_head? (has : ∀ c ∈ as, p c = true) (hbs : ∀ c ∈ bs.head?, p c = false) :
    (as ++ bs).dropWhile p = bs := by
  rw [List.dropWhile_append_of_pos has]
  cases bs with
  | nil => rfl
  | cons b bs => exact List.dropWhile_cons_of_neg (by simpa using hbs b rfl)

/-- A text is divided in one way only into a run and what comes after it. -/
theorem append_inj_of_head? (h : as ++ bs = as' ++ bs') (has : ∀ c ∈ as, p c = true)
    (hbs : ∀ c ∈ bs.head?, p c = false) (has' : ∀ c ∈ as', p c = true)
    (hbs' : ∀ c ∈ bs'.head?, p c = false) : as = as' ∧ bs = bs' := by
  constructor
  · rw [← takeWhile_append_of_head? has hbs, h, takeWhile_append_of_head? has' hbs']
  · rw [← dropWhile_append_of_head? has hbs, h, dropWhile_append_of_head? has' hbs']

/-- A run of one kind ends where the next character is of another kind. -/
theorem prefix_of_forall (h : xs <+: as ++ bs) (hxs : ∀ c ∈ xs, p c = true)
    (hbs : ∀ c ∈ bs.head?, p c = false) : xs <+: as := by
  obtain ⟨rest, heq⟩ := h
  rcases List.append_eq_append_iff.1 heq with ⟨t, rfl, -⟩ | ⟨t, rfl, hbs'⟩
  · exact List.prefix_append xs t
  · obtain rfl : t = [] := by
      cases t with
      | nil => rfl
      | cons c t =>
          have hc : p c = false := hbs c (by simp [hbs'])
          rw [hxs c (by simp)] at hc
          cases hc
    simp

/-- A run of one kind begins where the character before is of another kind. -/
theorem suffix_of_forall (h : xs <:+ as ++ bs) (hxs : ∀ c ∈ xs, p c = true)
    (has : ∀ c ∈ as.getLast?, p c = false) : xs <:+ bs := by
  rw [← List.reverse_prefix, List.reverse_append] at h
  rw [← List.reverse_prefix]
  refine prefix_of_forall h (fun c hc => hxs c (List.mem_reverse.1 hc)) fun c hc => has c ?_
  rwa [List.head?_reverse] at hc

end Boundary

theorem Text.atWordEnd_iff (cs : List Char) :
    atWordEnd cs = true ↔ ∀ c ∈ cs.head?, isWord c = false := by
  cases cs with
  | nil => simp
  | cons c cs => simp

/-! ### Searches -/

/-- **A search finds what stands somewhere.**  It begins anew at every place of a text, except after
a character that sticks to what follows it, and ends where `here` succeeds. -/
theorem search_eq_true_iff {search : Bool → List Char → Bool} {here : List Char → Bool}
    {sticks : Char → Bool} (hnil : ∀ stuck, search stuck [] = (!stuck && here []))
    (hcons : ∀ stuck c cs,
      search stuck (c :: cs) = (!stuck && here (c :: cs) || search (sticks c) cs))
    (stuck : Bool) (cs : List Char) :
    search stuck cs = true ↔ ∃ before rest, cs = before ++ rest ∧
      (before = [] → stuck = false) ∧ (∀ c ∈ before.getLast?, sticks c = false) ∧
      here rest = true := by
  induction cs generalizing stuck with
  | nil =>
      rw [hnil, Bool.and_eq_true, Bool.not_eq_true']
      constructor
      · rintro ⟨hstuck, hhere⟩
        exact ⟨[], [], rfl, fun _ => hstuck, by simp, hhere⟩
      · rintro ⟨before, rest, heq, hfirst, -, hhere⟩
        obtain ⟨rfl, rfl⟩ := List.append_eq_nil_iff.1 heq.symm
        exact ⟨hfirst rfl, hhere⟩
  | cons c cs ih =>
      rw [hcons, Bool.or_eq_true, Bool.and_eq_true, Bool.not_eq_true', ih]
      constructor
      · rintro (⟨hstuck, hhere⟩ | ⟨before, rest, rfl, hfirst, hlast, hhere⟩)
        · exact ⟨[], c :: cs, rfl, fun _ => hstuck, by simp, hhere⟩
        · refine ⟨c :: before, rest, rfl, by simp, ?_, hhere⟩
          cases before with
          | nil => simpa using hfirst rfl
          | cons d before =>
              rw [List.getLast?_cons_cons]
              exact hlast
      · rintro ⟨before, rest, heq, hfirst, hlast, hhere⟩
        cases before with
        | nil =>
            obtain rfl : c :: cs = rest := heq
            exact Or.inl ⟨hfirst rfl, hhere⟩
        | cons d before =>
            obtain ⟨rfl, rfl⟩ := List.cons.inj heq
            refine Or.inr ⟨before, rest, rfl, ?_, ?_, hhere⟩
            · rintro rfl
              exact hlast c rfl
            · intro x hx
              cases before with
              | nil => cases hx
              | cons e before =>
                  rw [List.getLast?_cons_cons] at hlast
                  exact hlast x hx

end VhdlCatalog
