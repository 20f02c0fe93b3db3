import VhdlCatalog.Text.Blank
import VhdlCatalog.Text.Word

/-!
**Reading a line from the left.**

Lines are not parsed.  They are recognised by the few words and marks they begin with, which the
readers of this module take off one after another.  A reader skips white space, takes its word or
mark, and returns what is left of the line, or nothing when the line goes on differently.

Main definitions:

* `VhdlCatalog.Token.keyword?` — takes off a whole word that is given;
* `VhdlCatalog.Token.identifier?` — takes off any word;
* `VhdlCatalog.Token.mark?` — takes off one character;
* `VhdlCatalog.Token.moreIdentifiers` — takes off further words with commas before them.
-/

set_option relaxedAutoImplicit false
set_option autoImplicit false

namespace VhdlCatalog.Token

/-- Takes off `word`, which must not go on with another word character. -/
def keyword? (word : String) (cs : List Char) : Option (List Char) := do
  let rest ← Text.afterLiteral? word.toList (Text.skipBlanks cs)
  if Text.atWordEnd rest then some rest else none

/-- The line goes on with the whole word `word`. -/
def hasKeyword (word : String) (cs : List Char) : Bool := (keyword? word cs).isSome

/-- Takes off the longest word that comes next; it is returned with what is left. -/
def identifier? (cs : List Char) : Option (List Char × List Char) :=
  match (Text.skipBlanks cs).takeWhile isWord with
  | [] => none
  | c :: name => some (c :: name, (Text.skipBlanks cs).dropWhile isWord)

/-- Takes off the character `c`. -/
def mark? (c : Char) (cs : List Char) : Option (List Char) :=
  match Text.skipBlanks cs with
  | d :: rest => if d = c then some rest else none
  | [] => none

/-- White space comes next. -/
def startsBlank : List Char → Bool
  | [] => false
  | c :: _ => isBlank c

theorem length_skipBlanks_le (cs : List Char) : (Text.skipBlanks cs).length ≤ cs.length :=
  (List.dropWhile_sublist _).length_le

theorem length_of_mark? {c : Char} {cs rest : List Char} (h : mark? c cs = some rest) :
    rest.length < cs.length := by
  have hle := length_skipBlanks_le cs
  unfold mark? at h
  split at h
  · next d r heq =>
      split at h
      · simp only [Option.some.injEq] at h
        subst h
        simp only [heq, List.length_cons] at hle
        omega
      · exact absurd h (by simp)
  · exact absurd h (by simp)

theorem length_of_identifier? {cs name rest : List Char}
    (h : identifier? cs = some (name, rest)) : rest.length < cs.length := by
  have hle := length_skipBlanks_le cs
  have hsplit := List.takeWhile_append_dropWhile (p := isWord) (l := Text.skipBlanks cs)
  unfold identifier? at h
  split at h
  · exact absurd h (by simp)
  · next c n heq =>
      simp only [Option.some.injEq, Prod.mk.injEq] at h
      obtain ⟨-, rfl⟩ := h
      have hlen := congrArg List.length hsplit
      rw [heq] at hlen
      simp only [List.length_append, List.length_cons] at hlen
      omega

/-- Takes off a comma and the word after it. -/
def nextIdentifier? (cs : List Char) : Option (List Char × List Char) :=
  (mark? ',' cs).bind identifier?

theorem length_of_nextIdentifier? {cs name rest : List Char}
    (h : nextIdentifier? cs = some (name, rest)) : rest.length < cs.length := by
  obtain ⟨afterComma, hm, hi⟩ := Option.bind_eq_some_iff.1 h
  have := length_of_mark? hm
  have := length_of_identifier? hi
  omega

/-- Takes off further words, each after a comma. -/
def moreIdentifiers (cs : List Char) : List (List Char) :=
  match _h : nextIdentifier? cs with
  | none => []
  | some (name, rest) => name :: moreIdentifiers rest
termination_by cs.length
decreasing_by exact length_of_nextIdentifier? _h

end VhdlCatalog.Token
