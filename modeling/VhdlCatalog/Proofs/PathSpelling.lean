import VhdlCatalog.Path
import VhdlCatalog.Proofs.DeclaredNames

/-!
**A normal spelling is its own normal spelling.**

A path is spelled anew from its components, which go on a stack one after another.  What is on the
stack has been settled: there is no `.` on it, and `..` stands only below everything else, because
anywhere else it takes back the component before it.  Such a stack comes about again when its own
components go on it, and the spelling that it stands for has these components and begins with the
same number of slashes.

Main definitions:

* `VhdlCatalog.Path.IsPart` — texts that can stand between slashes;
* `VhdlCatalog.Path.Settled` — stacks from which nothing is taken back.

Main results:

* `VhdlCatalog.Path.settled_pushComponent`, `VhdlCatalog.Path.settled_foldl` — what one component
  and several of them leave on a stack;
* `VhdlCatalog.Path.components_spelled` — a spelling has the components that it is made from;
* `VhdlCatalog.Path.normalize_normalize` — **normal spellings are left alone**.
-/

set_option relaxedAutoImplicit false
set_option autoImplicit false

namespace VhdlCatalog.Path

/-! ### Components -/

/-- The text can stand between two slashes. -/
structure IsPart (part : List Char) : Prop where
  nonempty : part ≠ []
  noSlash : '/' ∉ part

theorem isPart_of_mem_components {path part : List Char} (h : part ∈ components path) :
    IsPart part := by
  obtain ⟨hpiece, hpart⟩ := List.mem_filter.1 h
  refine ⟨by simpa using hpart, fun hslash => ?_⟩
  have hcut := (Text.mem_of_mem_pieces hpiece '/' hslash).2
  simp at hcut

/-- Slashes before a path do not matter for its components. -/
theorem components_slashes (n : Nat) (path : List Char) :
    components (List.replicate n '/' ++ path) = components path := by
  induction n with
  | zero => rfl
  | succ n ih =>
      have hcut : Text.pieces (· == '/') ('/' :: (List.replicate n '/' ++ path)) =
          [] :: Text.pieces (· == '/') (List.replicate n '/' ++ path) := by
        rw [Text.pieces_eq_splitOnP, Text.pieces_eq_splitOnP]
        exact List.splitOnP_append_cons [] _ (beq_self_eq_true '/')
      rw [List.replicate_succ, List.cons_append, components, hcut,
        List.filter_cons_of_neg (by simp)]
      exact ih

theorem components_join {parts : List (List Char)} (h : ∀ part ∈ parts, IsPart part) :
    components (Text.join ['/'] parts) = parts := by
  cases parts with
  | nil => rfl
  | cons part parts =>
      have hcut : Text.pieces (· == '/') (Text.join ['/'] (part :: parts)) = part :: parts := by
        rw [Text.pieces_eq_splitOnP]
        exact List.splitOn_intercalate '/' (fun part hpart => (h part hpart).noSlash)
          (List.cons_ne_nil part parts)
      rw [components, hcut, List.filter_eq_self]
      intro part hpart
      simpa using (h part hpart).nonempty

/-- **A spelling has the components** that it is made from. -/
theorem components_spelled (n : Nat) {parts : List (List Char)} (h : ∀ part ∈ parts, IsPart part) :
    components (List.replicate n '/' ++ Text.join ['/'] parts) = parts := by
  rw [components_slashes, components_join h]

/-! ### Slashes -/

theorem leadingSlashes_le (path : List Char) : leadingSlashes path ≤ 2 := by
  unfold leadingSlashes
  split <;> omega

/-- What is between slashes begins with none. -/
theorem takeWhile_join {parts : List (List Char)} (h : ∀ part ∈ parts, IsPart part) :
    (Text.join ['/'] parts).takeWhile (· == '/') = [] := by
  cases parts with
  | nil => rfl
  | cons part parts =>
      obtain ⟨hne, hslash⟩ := h part (by simp)
      obtain ⟨c, rest, rfl⟩ := List.exists_cons_of_ne_nil hne
      have hc : c ≠ '/' := fun hc => hslash (by simp [hc])
      have hhead : ∃ more, Text.join ['/'] ((c :: rest) :: parts) = c :: more := by
        cases parts with
        | nil => exact ⟨rest, by simp [Text.join]⟩
        | cons next parts => exact ⟨_, List.intercalate_cons_cons⟩
      obtain ⟨more, hmore⟩ := hhead
      rw [hmore, List.takeWhile_cons_of_neg (by simpa using hc)]

/-- **A spelling begins with the slashes** that it is made with. -/
theorem leadingSlashes_spelled {n : Nat} (hn : n ≤ 2) {parts : List (List Char)}
    (h : ∀ part ∈ parts, IsPart part) :
    leadingSlashes (List.replicate n '/' ++ Text.join ['/'] parts) = n := by
  have hslashes : ((List.replicate n '/' ++ Text.join ['/'] parts).takeWhile (· == '/')).length =
      n := by
    rw [List.takeWhile_append_of_pos fun c hc => by simp [List.eq_of_mem_replicate hc],
      takeWhile_join h, List.append_nil, List.length_replicate]
  rw [leadingSlashes, hslashes]
  obtain rfl | rfl | rfl : n = 0 ∨ n = 1 ∨ n = 2 := by omega
  · rfl
  · rfl
  · rfl

/-! ### Stacks -/

/-- Nothing is taken back from the stack when its components are pushed again: there is no `.` on
it, and `..` stands only below everything else, in a path that does not start at the root. -/
inductive Settled (rooted : Bool) : List (List Char) → Prop
  | nil : Settled rooted []
  | up {below : List (List Char)} (h : Settled rooted below) (hrooted : rooted = false)
      (hbelow : ∀ top ∈ below.head?, top = ['.', '.']) : Settled rooted (['.', '.'] :: below)
  | down {part : List Char} {below : List (List Char)} (h : Settled rooted below)
      (hdot : part ≠ ['.']) (hdots : part ≠ ['.', '.']) : Settled rooted (part :: below)

variable {rooted : Bool} {stack : List (List Char)} {part x : List Char}

/-- **One component** leaves a settled stack settled. -/
theorem settled_pushComponent (h : Settled rooted stack) (part : List Char) :
    Settled rooted (pushComponent rooted stack part) := by
  unfold pushComponent
  split
  · exact h
  · next hdot =>
      split
      · next hdots =>
          cases h with
          | nil =>
              cases rooted with
              | true => exact .nil
              | false => exact hdots ▸ .up .nil rfl (by simp)
          | up hbelow hrooted htop =>
              simp only [if_true]
              exact hdots ▸ .up (.up hbelow hrooted htop) hrooted (by simp)
          | down hbelow hdot' hdots' =>
              simp only [if_neg hdots']
              exact hbelow
      · next hdots => exact .down h hdot hdots

/-- **Several components** leave a settled stack settled. -/
theorem settled_foldl (h : Settled rooted stack) (parts : List (List Char)) :
    Settled rooted (parts.foldl (pushComponent rooted) stack) := by
  induction parts generalizing stack with
  | nil => exact h
  | cons part parts ih => exact ih (settled_pushComponent h part)

theorem mem_pushComponent (h : x ∈ pushComponent rooted stack part) : x ∈ stack ∨ x = part := by
  unfold pushComponent at h
  split at h
  · exact Or.inl h
  · split at h
    · split at h
      · split at h
        · cases h
        · exact Or.inr (List.mem_singleton.1 h)
      · split at h
        · exact (List.mem_cons.1 h).symm
        · exact Or.inl (List.mem_cons_of_mem _ h)
    · exact (List.mem_cons.1 h).symm

/-- Nothing comes on the stack but components. -/
theorem mem_foldl_pushComponent {parts : List (List Char)}
    (h : x ∈ parts.foldl (pushComponent rooted) stack) : x ∈ stack ∨ x ∈ parts := by
  induction parts generalizing stack with
  | nil => exact Or.inl h
  | cons part parts ih =>
      rcases ih h with hx | hx
      · rcases mem_pushComponent hx with hx | rfl
        · exact Or.inl hx
        · exact Or.inr (List.mem_cons_self ..)
      · exact Or.inr (List.mem_cons_of_mem _ hx)

/-- **A settled stack comes about again** from its own components, the lowest one first. -/
theorem Settled.foldl_reverse (h : Settled rooted stack) :
    stack.reverse.foldl (pushComponent rooted) [] = stack := by
  induction h with
  | nil => rfl
  | @up below _ hrooted htop ih =>
      rw [List.reverse_cons, List.foldl_append, ih, List.foldl_cons, List.foldl_nil, hrooted]
      cases below with
      | nil => rfl
      | cons top below =>
          obtain rfl : top = ['.', '.'] := htop top (by simp)
          rfl
  | @down part below _ hdot hdots ih =>
      rw [List.reverse_cons, List.foldl_append, ih, List.foldl_cons, List.foldl_nil]
      simp only [pushComponent, if_neg hdot, if_neg hdots]

/-! ### Normal spellings -/

theorem normalizeChars_normalizeChars (path : List Char) :
    normalizeChars (normalizeChars path) = normalizeChars path := by
  generalize hslashes : leadingSlashes path = slashes
  generalize hstack : (components path).foldl (pushComponent (slashes != 0)) [] = stack
  have hsettled : Settled (slashes != 0) stack := hstack ▸ settled_foldl .nil _
  have hparts : ∀ part ∈ stack.reverse, IsPart part := by
    intro part hpart
    rw [List.mem_reverse, ← hstack] at hpart
    rcases mem_foldl_pushComponent hpart with hnil | hmem
    · cases hnil
    · exact isPart_of_mem_components hmem
  have hspelled : normalizeChars path =
      if (List.replicate slashes '/' ++ Text.join ['/'] stack.reverse).isEmpty then ['.']
      else List.replicate slashes '/' ++ Text.join ['/'] stack.reverse := by
    rw [normalizeChars, hslashes, hstack]
  rw [hspelled]
  split
  · rfl
  · next hempty =>
      have hle : slashes ≤ 2 := hslashes ▸ leadingSlashes_le path
      rw [normalizeChars, leadingSlashes_spelled hle hparts, components_spelled _ hparts,
        hsettled.foldl_reverse, if_neg hempty]

/-- **Normal spellings are left alone.** -/
@[simp] theorem normalize_normalize (path : String) :
    normalize (normalize path) = normalize path := by
  rw [normalize, normalize, String.toList_ofList, normalizeChars_normalizeChars]

end VhdlCatalog.Path
