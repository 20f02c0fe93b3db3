import VhdlCatalog.Proofs.CommentRun
import VhdlCatalog.Scan.Closing

/-!
**When a line closes a declaration.**

`VhdlCatalog.Construct.closing` looks at one line at a time and, for a procedure, hands the depth of
parentheses from line to line.  The rules themselves need no such hand-over: a procedure ends with a
semicolon outside all parentheses, where parentheses are counted from the start of its opening line.
This module states the rules of all forms over whole lines and shows that the line-by-line search
follows them.

Main definitions:

* `VhdlCatalog.depthFrom` — the depth of parentheses after a text;
* `VhdlCatalog.Construct.ClosedBy` — **the rules**: a line closes a declaration, given the lines of
  the declaration before it;
* `VhdlCatalog.NoneCloses`, `VhdlCatalog.EndsAtFirst` — no line closes yet, and an offset is the
  end of the first line that does.

Main results:

* `VhdlCatalog.closesOutside_eq_true_iff`, `VhdlCatalog.snd_closesOutside` — the search for a
  semicolon outside all parentheses;
* `VhdlCatalog.Construct.closing_eq_true_iff`, `VhdlCatalog.Construct.snd_closing` — the search
  follows the rules as long as the depth is that of the lines before.
-/

set_option relaxedAutoImplicit false
set_option autoImplicit false

namespace VhdlCatalog

open Source

/-! ### Depth of parentheses -/

/-- The depth of parentheses after one character. -/
def depthStep (depth : Nat) (c : Char) : Nat :=
  if c = '(' then depth + 1 else if c = ')' then depth - 1 else depth

/-- The depth of parentheses after a text that begins at the given depth.  A closing parenthesis
too many counts for nothing. -/
def depthFrom (depth : Nat) (cs : List Char) : Nat := cs.foldl depthStep depth

theorem depthFrom_append (depth : Nat) (as bs : List Char) :
    depthFrom depth (as ++ bs) = depthFrom (depthFrom depth as) bs := by
  simp [depthFrom, List.foldl_append]

/-- One character of the search: it ends at a semicolon outside, and else goes on at the depth
after the character. -/
theorem closesOutside_cons (depth : Nat) (c : Char) (cs : List Char) :
    closesOutside depth (c :: cs) =
      if c = ';' ∧ depth = 0 then (true, (depth : Int))
      else closesOutside (depthStep depth c : Nat) cs := by
  by_cases hopen : c = '('
  · simp [closesOutside, depthStep, hopen]
  · by_cases hclose : c = ')'
    · have hmax : max ((depth : Int) - 1) 0 = ((depth - 1 : Nat) : Int) := by omega
      simp [closesOutside, depthStep, hclose, hmax]
    · simp [closesOutside, depthStep, hopen, hclose]

/-- The search succeeds exactly when some semicolon stands outside all parentheses. -/
theorem closesOutside_eq_true_iff (depth : Nat) (cs : List Char) :
    (closesOutside depth cs).1 = true ↔
      ∃ as bs, cs = as ++ ';' :: bs ∧ depthFrom depth as = 0 := by
  induction cs generalizing depth with
  | nil => simp [closesOutside]
  | cons c cs ih =>
      rw [closesOutside_cons]
      split
      · next h =>
          obtain ⟨rfl, rfl⟩ := h
          exact iff_of_true rfl ⟨[], cs, rfl, rfl⟩
      · next h =>
          rw [ih]
          constructor
          · rintro ⟨as, bs, rfl, hd⟩
            exact ⟨c :: as, bs, rfl, hd⟩
          · rintro ⟨as, bs, heq, hd⟩
            cases as with
            -- the first character would have ended the search
            | nil =>
                obtain ⟨rfl, rfl⟩ := List.cons.inj heq
                exact absurd ⟨rfl, hd⟩ h
            | cons a as =>
                obtain ⟨rfl, rfl⟩ := List.cons.inj heq
                exact ⟨as, bs, rfl, hd⟩

/-- A search that fails ends at the depth after the text. -/
theorem snd_closesOutside {depth : Nat} {cs : List Char} (h : (closesOutside depth cs).1 = false) :
    (closesOutside depth cs).2 = depthFrom depth cs := by
  induction cs generalizing depth with
  | nil => rfl
  | cons c cs ih =>
      rw [closesOutside_cons] at h ⊢
      split at h
      · exact absurd h (by simp)
      · next hc =>
          rw [if_neg hc]
          exact ih h

/-! ### The rules -/

namespace Construct

/-- The line `l` closes a declaration of the given form and name whose earlier lines are
`before`. -/
def ClosedBy (construct : Construct) (name : List Char) (before : List SourceLine)
    (l : SourceLine) : Prop :=
  match construct with
  | .unit .entity => startsEnd l.line = true
  | .unit .package =>
      startsEnd l.line = true ∧ (startsEndOf "package" l.line = true ∨ mentions name l.code = true)
  | .member .function => returnsType l.code = true
  | .member .procedure =>
      ∃ as bs, l.code = as ++ ';' :: bs ∧ depthFrom 0 (before.flatMap SourceLine.code ++ as) = 0
  | .member .recordType =>
      startsEnd l.line = true ∧ (startsEndOf "record" l.line = true ∨
        startsEndMark l.line = true ∨ mentions name l.code = true)
  | .member .constant | .member .arrayType | .member .enumType | .member .subtype =>
      endsInSemicolon l.code = true

/-- The depth that is handed on after the lines `before`.  Only procedures count parentheses. -/
def depthAfter (construct : Construct) (before : List SourceLine) : Nat :=
  match construct with
  | .member .procedure => depthFrom 0 (before.flatMap SourceLine.code)
  | _ => 0

/-- **The search follows the rules** when it knows the depth after the lines before. -/
theorem closing_eq_true_iff (construct : Construct) (name : List Char) (before : List SourceLine)
    (l : CodeLine) :
    (construct.closing name (construct.depthAfter before) l).1 = true ↔
      construct.ClosedBy name before l.place := by
  cases construct with
  | unit form => cases form <;> simp [closing, ClosedBy, closesPackage]
  | member form =>
      cases form with
      | procedure =>
          simp only [closing, ClosedBy, depthAfter, depthFrom_append, CodeLine.place_code]
          exact closesOutside_eq_true_iff _ _
      | _ => simp [closing, ClosedBy, closesRecord, or_assoc]

/-- A line that does not close the declaration hands on the depth after it. -/
theorem snd_closing {construct : Construct} {name : List Char} {before : List SourceLine}
    {l : CodeLine} (h : (construct.closing name (construct.depthAfter before) l).1 = false) :
    (construct.closing name (construct.depthAfter before) l).2 =
      construct.depthAfter (before ++ [l.place]) := by
  cases construct with
  | unit form => cases form <;> rfl
  | member form =>
      cases form with
      | procedure =>
          simp only [closing, depthAfter] at h ⊢
          rw [snd_closesOutside h, List.flatMap_append, depthFrom_append]
          simp
      | _ => rfl

end Construct

/-! ### First closing lines -/

/-- None of the lines closes.  Whether a line closes may depend on the lines before it. -/
def NoneCloses (closes : List SourceLine → SourceLine → Prop) (ls : List SourceLine) : Prop :=
  ∀ as l bs, ls = as ++ l :: bs → ¬closes as l

/-- `stop` is the end of the first of the given lines that closes. -/
def EndsAtFirst (closes : List SourceLine → SourceLine → Prop) (ls : List SourceLine)
    (stop : Int) : Prop :=
  ∃ before last after, ls = before ++ last :: after ∧ closes before last ∧ stop = last.stop ∧
    NoneCloses closes before

theorem noneCloses_nil (closes : List SourceLine → SourceLine → Prop) : NoneCloses closes [] := by
  intro as l bs h
  simp at h

theorem NoneCloses.concat {closes : List SourceLine → SourceLine → Prop} {ls : List SourceLine}
    {l : SourceLine} (h : NoneCloses closes ls) (hl : ¬closes ls l) :
    NoneCloses closes (ls ++ [l]) := by
  intro as x bs heq
  -- the line is the new one, or one of those before
  rcases List.eq_nil_or_concat' bs with rfl | ⟨bs, y, rfl⟩
  · obtain ⟨rfl, hx⟩ := List.append_inj' heq rfl
    obtain rfl : l = x := by simpa using hx
    exact hl
  · rw [← List.cons_append, ← List.append_assoc] at heq
    exact h as x bs (List.append_inj' heq rfl).1

theorem NoneCloses.of_concat {closes : List SourceLine → SourceLine → Prop} {ls : List SourceLine}
    {l : SourceLine} (h : NoneCloses closes (ls ++ [l])) : NoneCloses closes ls ∧ ¬closes ls l := by
  refine ⟨fun as x bs heq => ?_, h ls l [] rfl⟩
  exact h as x (bs ++ [l]) (by rw [heq, List.append_assoc, List.cons_append])

end VhdlCatalog
