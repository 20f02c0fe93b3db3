import Mathlib.Data.List.Infix
import VhdlCatalog.Proofs.ClosingRule

/-!
**The end of a procedure, line by line and in one pass.**

A procedure ends with the first semicolon outside all parentheses.  The sign of its end is shown one
line after another; it answers whether the line closes the procedure, and the depth of parentheses
that it answers is what it is told about the next line.  The answers are those of one pass over the
whole code: the first line that closes is the one with the first semicolon outside, and up to there
the depth is that of the code so far, wherever the code is divided into lines.

Main definitions:

* `VhdlCatalog.NoneOutside`, `VhdlCatalog.FirstOutside` — **the one pass**: no semicolon of a text
  stands outside all parentheses, and the first one that does;
* `VhdlCatalog.Construct.answers` — the answers to lines that are shown one after another.

Main results:

* `VhdlCatalog.depthFrom_eq_sub` — where no parenthesis is closed that has not been opened, the
  depth is the difference of the counts;
* `VhdlCatalog.findIdx?_answers_eq_some_iff`, `VhdlCatalog.depth_of_answers` — the answers of the
  sign of a procedure;
* `VhdlCatalog.procedure_answers_in_one_pass` — **both searches agree**.
-/

set_option relaxedAutoImplicit false
set_option autoImplicit false

namespace VhdlCatalog

open Source

/-! ### One pass -/

/-- No semicolon of the text, which begins at the given depth, stands outside all parentheses. -/
def NoneOutside (depth : Nat) (text : List Char) : Prop :=
  ∀ as bs, text = as ++ ';' :: bs → depthFrom depth as ≠ 0

/-- The first semicolon of the text outside all parentheses comes after `before`. -/
structure FirstOutside (text before after : List Char) : Prop where
  split : text = before ++ ';' :: after
  outside : depthFrom 0 before = 0
  first : NoneOutside 0 before

section OnePass

variable {depth : Nat} {c : Char} {as bs cs : List Char}

theorem depthFrom_cons (depth : Nat) (c : Char) (cs : List Char) :
    depthFrom depth (c :: cs) = depthFrom (depthStep depth c) cs := rfl

theorem noneOutside_nil (depth : Nat) : NoneOutside depth [] := by
  intro as bs h
  simp at h

/-- One character of the pass. -/
theorem noneOutside_cons :
    NoneOutside depth (c :: cs) ↔ ¬(c = ';' ∧ depth = 0) ∧ NoneOutside (depthStep depth c) cs := by
  constructor
  · intro h
    refine ⟨?_, fun as bs heq => ?_⟩
    · rintro ⟨rfl, rfl⟩
      exact h [] cs rfl rfl
    · exact h (c :: as) bs (by rw [heq, List.cons_append])
  · rintro ⟨hc, hcs⟩ as bs heq hdepth
    cases as with
    | nil =>
        obtain ⟨rfl, rfl⟩ := List.cons.inj heq
        exact hc ⟨rfl, hdepth⟩
    | cons a as =>
        obtain ⟨rfl, rfl⟩ := List.cons.inj heq
        exact hcs as bs rfl hdepth

theorem noneOutside_append :
    NoneOutside depth (as ++ bs) ↔ NoneOutside depth as ∧ NoneOutside (depthFrom depth as) bs := by
  induction as generalizing depth with
  | nil => simp [noneOutside_nil, depthFrom]
  | cons a as ih =>
      rw [List.cons_append, noneOutside_cons, noneOutside_cons, ih, and_assoc, depthFrom_cons]

/-- Where some semicolon stands outside, there is a first one. -/
theorem exists_first_of_not_noneOutside (h : ¬NoneOutside depth cs) :
    ∃ as bs, cs = as ++ ';' :: bs ∧ depthFrom depth as = 0 ∧ NoneOutside depth as := by
  induction cs generalizing depth with
  | nil => exact absurd (noneOutside_nil depth) h
  | cons c cs ih =>
      by_cases hc : c = ';' ∧ depth = 0
      · obtain ⟨rfl, rfl⟩ := hc
        exact ⟨[], cs, rfl, rfl, noneOutside_nil 0⟩
      · rw [noneOutside_cons, not_and] at h
        obtain ⟨as, bs, rfl, houtside, hfirst⟩ := ih (h hc)
        exact ⟨c :: as, bs, rfl, houtside, noneOutside_cons.2 ⟨hc, hfirst⟩⟩

/-- The search for a semicolon succeeds exactly where there is one outside. -/
theorem closesOutside_eq_false_iff (depth : Nat) (cs : List Char) :
    (closesOutside depth cs).1 = false ↔ NoneOutside depth cs := by
  rw [← Bool.not_eq_true, closesOutside_eq_true_iff]
  constructor
  · intro h as bs heq hdepth
    exact h ⟨as, bs, heq, hdepth⟩
  · rintro h ⟨as, bs, heq, hdepth⟩
    exact h as bs heq hdepth

/-- The depth never falls below zero. -/
theorem snd_closesOutside_nonneg {depth : Int} (h : 0 ≤ depth) (cs : List Char) :
    0 ≤ (closesOutside depth cs).2 := by
  induction cs generalizing depth with
  | nil => exact h
  | cons c cs ih =>
      rw [closesOutside]
      split
      · exact ih (by omega)
      · split
        · exact ih (by omega)
        · split
          · exact h
          · exact ih h

/-- Where no parenthesis is closed that has not been opened, the depth is the difference of the
counts. -/
theorem depthFrom_eq_sub {text : List Char}
    (h : ∀ before, before <+: text → before.count ')' ≤ before.count '(') :
    (depthFrom 0 text : Int) = text.count '(' - text.count ')' := by
  -- the depth is known from the left, so the induction takes characters off the right end
  induction text using List.reverseRecOn with
  | nil => rfl
  | append_singleton text c ih =>
      have hbefore := ih fun before hinit => h before (hinit.trans (List.prefix_append _ _))
      have hwhole := h (text ++ [c]) List.prefix_rfl
      have hstep : depthFrom 0 (text ++ [c]) = depthStep (depthFrom 0 text) c :=
        depthFrom_append 0 text [c]
      simp only [List.count_append, List.count_singleton] at hwhole ⊢
      rw [hstep, depthStep]
      by_cases hopen : c = '('
      · simp only [hopen] at hwhole ⊢
        simp
        omega
      · by_cases hclose : c = ')'
        · simp only [hclose] at hwhole ⊢
          simp at hwhole ⊢
          omega
        · simp [hopen, hclose, hbefore]

end OnePass

/-! ### Line by line -/

/-- The answers to lines that are shown one after another: whether the line closes the declaration,
and the depth of parentheses after it, which is handed on to the next line. -/
def Construct.answers (construct : Construct) (name : List Char) (depth : Int) :
    List CodeLine → List (Bool × Int)
  | [] => []
  | l :: ls =>
      construct.closing name depth l ::
        construct.answers name (construct.closing name depth l).2 ls

theorem length_answers (construct : Construct) (name : List Char) (depth : Int)
    (ls : List CodeLine) : (construct.answers name depth ls).length = ls.length := by
  induction ls generalizing depth with
  | nil => rfl
  | cons l ls ih => rw [Construct.answers, List.length_cons, List.length_cons, ih]

section Answers

variable {name : List Char} {depth : Nat}

theorem closing_procedure (name : List Char) (depth : Int) (l : CodeLine) :
    (Construct.member .procedure).closing name depth l = closesOutside depth l.code := rfl

/-- **The first line that closes** has a semicolon outside, and the lines before it have none. -/
theorem findIdx?_answers_eq_some_iff (ls : List CodeLine) (i : Nat) :
    ((Construct.member .procedure).answers name depth ls).findIdx? Prod.fst = some i ↔
      ∃ before l after, ls = before ++ l :: after ∧ before.length = i ∧
        NoneOutside depth (before.flatMap CodeLine.code) ∧
        ¬NoneOutside (depthFrom depth (before.flatMap CodeLine.code)) l.code := by
  induction ls generalizing depth i with
  | nil => simp [Construct.answers]
  | cons l ls ih =>
      rw [Construct.answers, List.findIdx?_cons, closing_procedure]
      cases hclosed : (closesOutside depth l.code).1 with
      | true =>
          have houtside : ¬NoneOutside depth l.code := by
            rw [← closesOutside_eq_false_iff, hclosed]
            simp
          constructor
          · intro h
            obtain rfl : 0 = i := by simpa using h
            exact ⟨[], l, ls, rfl, rfl, noneOutside_nil depth, houtside⟩
          · rintro ⟨before, l', after, heq, rfl, hbefore, -⟩
            cases before with
            | nil => rfl
            | cons x before =>
                obtain ⟨rfl, rfl⟩ := List.cons.inj heq
                exact absurd (noneOutside_append.1 hbefore).1 houtside
      | false =>
          have hnone := (closesOutside_eq_false_iff depth l.code).1 hclosed
          rw [snd_closesOutside hclosed]
          simp only [Bool.false_eq_true, if_false, Option.map_eq_some_iff, ih]
          constructor
          · rintro ⟨j, ⟨before, l', after, rfl, rfl, hbefore, hl'⟩, rfl⟩
            refine ⟨l :: before, l', after, rfl, rfl, ?_, ?_⟩
            · exact noneOutside_append.2 ⟨hnone, hbefore⟩
            · rwa [List.flatMap_cons, depthFrom_append]
          · rintro ⟨before, l', after, heq, rfl, hbefore, hl'⟩
            cases before with
            | nil =>
                obtain ⟨rfl, rfl⟩ := List.cons.inj heq
                exact absurd hnone hl'
            | cons x before =>
                obtain ⟨rfl, rfl⟩ := List.cons.inj heq
                rw [List.flatMap_cons, depthFrom_append] at hl'
                exact ⟨before.length, ⟨before, l', after, rfl, rfl,
                  (noneOutside_append.1 hbefore).2, hl'⟩, rfl⟩

/-- No line closes exactly where no semicolon stands outside. -/
theorem findIdx?_answers_eq_none_iff (ls : List CodeLine) :
    ((Construct.member .procedure).answers name depth ls).findIdx? Prod.fst = none ↔
      NoneOutside depth (ls.flatMap CodeLine.code) := by
  induction ls generalizing depth with
  | nil => simp [Construct.answers, noneOutside_nil]
  | cons l ls ih =>
      rw [Construct.answers, List.findIdx?_cons, closing_procedure, List.flatMap_cons,
        noneOutside_append, ← closesOutside_eq_false_iff]
      cases hclosed : (closesOutside depth l.code).1 with
      | true => simp
      | false =>
          rw [snd_closesOutside hclosed]
          simpa using ih

/-- **The depth** is that of the code so far, as long as no line has closed. -/
theorem depth_of_answers {ls : List CodeLine} {i : Nat} {a : Bool × Int}
    (h : ((Construct.member .procedure).answers name depth ls)[i]? = some a)
    (hopen : ∀ b ∈ ((Construct.member .procedure).answers name depth ls).take (i + 1),
      b.1 = false) :
    a.2 = depthFrom depth ((ls.take (i + 1)).flatMap CodeLine.code) := by
  induction ls generalizing depth i with
  | nil => simp [Construct.answers] at h
  | cons l ls ih =>
      rw [Construct.answers, closing_procedure] at h hopen
      obtain ⟨hfirst, hrest⟩ := List.forall_mem_cons.1 hopen
      rw [snd_closesOutside hfirst] at h hrest
      rw [List.take_succ_cons, List.flatMap_cons, depthFrom_append]
      cases i with
      | zero =>
          rw [List.getElem?_cons_zero, Option.some.injEq] at h
          rw [← h, snd_closesOutside hfirst]
          rfl
      | succ i =>
          rw [List.getElem?_cons_succ] at h
          exact ih h hrest

theorem answers_nonneg {depth : Int} (h : 0 ≤ depth) (ls : List CodeLine) :
    ∀ a ∈ (Construct.member .procedure).answers name depth ls, 0 ≤ a.2 := by
  induction ls generalizing depth with
  | nil => simp [Construct.answers]
  | cons l ls ih =>
      have hnext := snd_closesOutside_nonneg h l.code
      exact List.forall_mem_cons.2 ⟨hnext, ih hnext⟩

end Answers

/-! ### Both searches -/

/-- A line that has the first semicolon outside has it after the lines before, none of which has
one. -/
theorem exists_firstOutside_iff {before after : List CodeLine} {l : CodeLine} :
    (∃ as bs, l.code = as ++ ';' :: bs ∧
      FirstOutside ((before ++ l :: after).flatMap CodeLine.code)
        (before.flatMap CodeLine.code ++ as) (bs ++ after.flatMap CodeLine.code)) ↔
      NoneOutside 0 (before.flatMap CodeLine.code) ∧
        ¬NoneOutside (depthFrom 0 (before.flatMap CodeLine.code)) l.code := by
  constructor
  · rintro ⟨as, bs, hl, -, houtside, hfirst⟩
    rw [depthFrom_append] at houtside
    exact ⟨(noneOutside_append.1 hfirst).1, fun hnone => hnone as bs hl houtside⟩
  · rintro ⟨hbefore, hl⟩
    obtain ⟨as, bs, heq, houtside, hfirst⟩ := exists_first_of_not_noneOutside hl
    refine ⟨as, bs, heq, ?_, ?_, noneOutside_append.2 ⟨hbefore, hfirst⟩⟩
    · simp [heq]
    · rwa [depthFrom_append]

/-- No semicolon stands outside exactly where none is the first one. -/
theorem noneOutside_iff_not_exists (text : List Char) :
    NoneOutside 0 text ↔ ¬∃ before after, FirstOutside text before after := by
  constructor
  · rintro h ⟨before, after, hfirst⟩
    exact h before after hfirst.split hfirst.outside
  · intro h
    by_contra hsome
    obtain ⟨before, after, heq, houtside, hfirst⟩ := exists_first_of_not_noneOutside hsome
    exact h ⟨before, after, heq, houtside, hfirst⟩

/-- **The search for the end of a procedure, line by line and in one pass.**  Let code lines be
shown to the sign one after another, from depth zero on.  The first line that it says closes the
procedure is the one with the first semicolon of the whole code outside all parentheses; it says so
of no line exactly when there is no such semicolon.  The depth it answers is never negative, and
that of the code so far as long as no line has closed.  In a text that never closes a parenthesis it
has not opened, the depth is how many more parentheses are opened than closed. -/
theorem procedure_answers_in_one_pass (name : List Char) (ls : List CodeLine) :
    let code := ls.flatMap CodeLine.code
    let answers := (Construct.member .procedure).answers name 0 ls
    answers.length = ls.length ∧
    (∀ i, answers.findIdx? Prod.fst = some i ↔ ∃ before l after,
      ls = before ++ l :: after ∧ before.length = i ∧ ∃ as bs, l.code = as ++ ';' :: bs ∧
        FirstOutside code (before.flatMap CodeLine.code ++ as)
          (bs ++ after.flatMap CodeLine.code)) ∧
    (answers.findIdx? Prod.fst = none ↔ ¬∃ before after, FirstOutside code before after) ∧
    (∀ a ∈ answers, 0 ≤ a.2) ∧
    (∀ (i : Nat) (a : Bool × Int), answers[i]? = some a →
      (∀ b ∈ answers.take (i + 1), b.1 = false) →
      a.2 = depthFrom 0 ((ls.take (i + 1)).flatMap CodeLine.code)) ∧
    ∀ text, (∀ before, before <+: text → before.count ')' ≤ before.count '(') →
      (depthFrom 0 text : Int) = text.count '(' - text.count ')' := by
  intro code answers
  refine ⟨length_answers _ name 0 ls, fun i => ?_, ?_, answers_nonneg (Int.le_refl 0) ls,
    fun i a => depth_of_answers, fun text => depthFrom_eq_sub⟩
  · refine (findIdx?_answers_eq_some_iff ls i).trans ?_
    constructor
    · rintro ⟨before, l, after, rfl, hlength, hfirst⟩
      exact ⟨before, l, after, rfl, hlength, exists_firstOutside_iff.2 hfirst⟩
    · rintro ⟨before, l, after, hls, hlength, as, bs, hl, hfirst⟩
      subst hls
      exact ⟨before, l, after, rfl, hlength, exists_firstOutside_iff.1 ⟨as, bs, hl, hfirst⟩⟩
  · exact (findIdx?_answers_eq_none_iff ls).trans (noneOutside_iff_not_exists code)

/-- A procedure over three lines, with a parenthesis too many on the first one, and its code up to
the end of the second. -/
theorem procedure_answers_in_one_pass_sample :
    let ls : List CodeLine := [⟨2, 13, 35, 13, 13, "procedure p) (a : t;".toList⟩,
      ⟨3, 35, 60, 35, 35, "  b : t (1 to 2) -- ; )".toList⟩, ⟨4, 60, 70, 60, 60, ") ; x ;".toList⟩]
    let answers := (Construct.member .procedure).answers ['p'] 0 ls
    answers = [(false, 1), (false, 1), (true, 0)] ∧
    (∃ before after, FirstOutside (ls.flatMap CodeLine.code) before after) ∧
    (1 : Int) = depthFrom 0 ((ls.take 2).flatMap CodeLine.code) ∧
    (depthFrom 0 "(a; (b)".toList : Int) = 1 := by
  intro ls answers
  have hanswers : answers = [(false, 1), (false, 1), (true, 0)] := by decide +kernel
  obtain ⟨-, hfirst, -, -, hdepth, hcount⟩ := procedure_answers_in_one_pass ['p'] ls
  refine ⟨hanswers, ?_, hdepth 1 (false, 1) (by decide +kernel) (by decide +kernel), ?_⟩
  · obtain ⟨before, l, after, -, -, as, bs, -, houtside⟩ := (hfirst 2).1 (by decide +kernel)
    exact ⟨_, _, houtside⟩
  · refine hcount _ fun before hinit => ?_
    exact (by decide : ∀ before ∈ "(a; (b)".toList.inits, before.count ')' ≤ before.count '(')
      before ((List.mem_inits _ _).2 hinit)

end VhdlCatalog
