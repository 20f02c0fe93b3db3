import Mathlib.Data.List.Basic
import VhdlCatalog.Config
import VhdlCatalog.Proofs.Piece

/-!
**Library names are in lower case.**

A name is lower-cased when a library is assigned to a file, and again when the file is scanned.  The
second time changes nothing: what lower-casing makes of a character is left alone by it, wherever it
stands.  So the library that a configuration gives for a file is the one that the units of the file
are filed under.

Main definitions:

* `VhdlCatalog.isLowered` — a character that lower-casing leaves alone;
* `VhdlCatalog.Config.Built` — configurations as they can come about.

Main results:

* `VhdlCatalog.Text.lower_lower` — **lower-casing twice** is lower-casing once;
* `VhdlCatalog.Config.Built.lowerName_libraryFor` — libraries of files are in lower case.
-/

set_option relaxedAutoImplicit false
set_option autoImplicit false

namespace VhdlCatalog

/-! ### Lower-casing -/

/-- Lower-casing leaves the character alone, wherever it stands. -/
def isLowered (c : Char) : Bool := decide (c ≠ 'Σ') && decide (lowerChar c = [c])

namespace CaseRun

/-- No image of a character of `r` is a character of `q`.  Most runs are far apart. -/
def clearOf (r q : CaseRun) : Bool :=
  Nat.blt q.last r.image || Nat.blt (r.image + (r.last - r.first)) q.first ||
    (List.range (r.last + 1 - r.first)).all fun k =>
      !(r.holds (r.first + k) && q.holds (r.image + k))

/-- No image of a character of `r` has to be treated in a special way. -/
def isPlain (r : CaseRun) : Bool :=
  (List.range (r.last + 1 - r.first)).all fun k =>
    !r.holds (r.first + k) || (decide (r.image + k).isValidChar && decide (r.image + k ≠ 0x3a3) &&
      decide (r.image + k ≠ 0x130) && (decide (0x80 ≤ r.image + k) ||
        (Char.ofNat (r.image + k)).toLower == Char.ofNat (r.image + k)))

variable {r q : CaseRun} {n : Nat}

theorem bounds_of_holds (h : r.holds n = true) : r.first ≤ n ∧ n ≤ r.last := by
  simp only [holds, Bool.and_eq_true, decide_eq_true_eq] at h
  exact h.1

theorem holds_image (hclear : r.clearOf q = true) (h : r.holds n = true) :
    q.holds (r.image + (n - r.first)) = false := by
  obtain ⟨hfirst, hlast⟩ := bounds_of_holds h
  cases hq : q.holds (r.image + (n - r.first)) with
  | false => rfl
  | true =>
      obtain ⟨hqfirst, hqlast⟩ := bounds_of_holds hq
      simp only [clearOf, Bool.or_eq_true, Nat.blt_eq, List.all_eq_true, List.mem_range] at hclear
      rcases hclear with (hclear | hclear) | hclear
      · omega
      · omega
      · have hk := hclear (n - r.first) (by omega)
        rw [Nat.add_sub_cancel' hfirst, h, hq] at hk
        cases hk

end CaseRun

theorem clearOf_caseRuns : (caseRuns.all fun r => caseRuns.all r.clearOf) = true := by
  decide +kernel

theorem isPlain_caseRuns : caseRuns.all CaseRun.isPlain = true := by decide +kernel

/-- The images of the runs are left alone. -/
theorem isLowered_image {r : CaseRun} (hr : r ∈ caseRuns) {n : Nat} (h : r.holds n = true) :
    isLowered (Char.ofNat (r.image + (n - r.first))) = true := by
  obtain ⟨hfirst, hlast⟩ := CaseRun.bounds_of_holds h
  have hplain := List.all_eq_true.1 isPlain_caseRuns r hr
  simp only [CaseRun.isPlain, List.all_eq_true, List.mem_range] at hplain
  have hk := hplain (n - r.first) (by omega)
  rw [Nat.add_sub_cancel' hfirst, h] at hk
  simp only [Bool.not_true, Bool.false_or, Bool.and_eq_true, Bool.or_eq_true, decide_eq_true_eq,
    beq_iff_eq] at hk
  obtain ⟨⟨⟨hvalid, hsigma⟩, hdotted⟩, hascii⟩ := hk
  have htoNat : (Char.ofNat (r.image + (n - r.first))).toNat = r.image + (n - r.first) := by
    rw [Char.toNat_ofNat, if_pos hvalid]
  have hne : ∀ c : Char, c.toNat ≠ r.image + (n - r.first) →
      Char.ofNat (r.image + (n - r.first)) ≠ c := by
    intro c hc heq
    rw [heq] at htoNat
    exact hc htoNat
  have hnone : (caseRuns.find? fun q => q.holds (r.image + (n - r.first))) = none := by
    refine List.find?_eq_none.2 fun q hq => ?_
    have hclear := List.all_eq_true.1 (List.all_eq_true.1 clearOf_caseRuns r hr) q hq
    simp [CaseRun.holds_image hclear h]
  simp only [isLowered, Bool.and_eq_true, decide_eq_true_eq]
  refine ⟨hne 'Σ' fun heq => hsigma heq.symm, ?_⟩
  rw [lowerChar, htoNat]
  split
  · next hlt =>
      rcases hascii with hge | hlower
      · omega
      · rw [hlower]
  · rw [if_neg (hne 'İ' fun heq => hdotted heq.symm), hnone]

theorem isLowered_of_mem_lowerChar {c x : Char} (hc : c ≠ 'Σ') (h : x ∈ lowerChar c) :
    isLowered x = true := by
  unfold lowerChar at h
  split at h
  · next hascii =>
      have hall : ∀ n < 0x80, isLowered (Char.ofNat n).toLower = true := by decide +kernel
      rw [List.mem_singleton.1 h]
      exact Canonical.forall_ascii (P := fun c => isLowered c.toLower) hall hascii
  · next hascii =>
      split at h
      · rcases List.mem_cons.1 h with rfl | h
        · decide +kernel
        · rw [List.mem_singleton.1 h]
          decide +kernel
      · next hdotted =>
          split at h
          · next r hr =>
              rw [List.mem_singleton.1 h]
              have hholds := List.find?_some hr
              exact isLowered_image (List.mem_of_find?_eq_some hr) hholds
          · next hr =>
              rw [List.mem_singleton.1 h]
              simp [isLowered, hc, lowerChar, hascii, hdotted, hr]

namespace Text

variable {afterCased : Bool} {cs : List Char} {x : Char}

theorem isLowered_of_mem_lowerFrom (h : x ∈ lowerFrom afterCased cs) : isLowered x = true := by
  induction cs generalizing afterCased with
  | nil => cases h
  | cons c cs ih =>
      rw [lowerFrom_cons, List.mem_append] at h
      rcases h with h | h
      · unfold image at h
        split at h
        · rw [List.mem_singleton.1 h]
          -- both images of the sigma
          split <;> decide +kernel
        · next hc => exact isLowered_of_mem_lowerChar hc h
      · exact ih h

theorem lowerFrom_of_isLowered (h : ∀ x ∈ cs, isLowered x = true) :
    lowerFrom afterCased cs = cs := by
  induction cs generalizing afterCased with
  | nil => rfl
  | cons c cs ih =>
      have hc := h c (by simp)
      simp only [isLowered, Bool.and_eq_true, decide_eq_true_eq] at hc
      rw [lowerFrom_cons, image, if_neg hc.1, hc.2, ih fun x hx => h x (by simp [hx])]
      rfl

/-- **Lower-casing twice** is lower-casing once. -/
theorem lower_lower (cs : List Char) : lower (lower cs) = lower cs :=
  lowerFrom_of_isLowered fun _ h => isLowered_of_mem_lowerFrom h

end Text

/-! ### Configurations -/

namespace Config

theorem lowerName_lowerName (name : String) : lowerName (lowerName name) = lowerName name := by
  rw [lowerName, lowerName, String.toList_ofList, Text.lower_lower]

/-- A configuration that has been made, and to which files may have been assigned since. -/
inductive Built : Config → Prop
  /-- A configuration that is not refused. -/
  | make {defaultLibrary : String} {libraries : Table String String} {workers : Option Int}
      {c : Config} (h : make? defaultLibrary libraries workers = .ok c) : Built c
  /-- More files are assigned to a library. -/
  | assign {c : Config} (h : Built c) (library : String) (paths : List String) :
      Built (c.assign library paths)

/-- The values of the table are names in lower case. -/
def Lowered (t : Table String String) : Prop := ∀ e ∈ t.entries, lowerName e.2 = e.2

theorem Lowered.assignOne {t : Table String String} (h : Lowered t) (path library : String) :
    Lowered (assignOne t path library) := by
  intro e he
  simp only [Config.assignOne, Table.put] at he
  split at he
  · obtain ⟨e', he', rfl⟩ := List.mem_map.1 he
    split
    · exact lowerName_lowerName library
    · exact h e' he'
  · rcases List.mem_append.1 he with he | he
    · exact h e he
    · rw [List.mem_singleton.1 he]
      exact lowerName_lowerName library

/-- What one assignment keeps, several keep. -/
theorem Lowered.foldl {α : Type} {t : Table String String} (h : Lowered t) (xs : List α)
    (path library : α → String) :
    Lowered (xs.foldl (fun t x => Config.assignOne t (path x) (library x)) t) := by
  induction xs generalizing t with
  | nil => exact h
  | cons x xs ih => exact ih (h.assignOne (path x) (library x))

/-- A configuration that is made has its names in lower case. -/
theorem eq_of_make? {defaultLibrary : String} {libraries : Table String String}
    {workers : Option Int} {c : Config} (h : make? defaultLibrary libraries workers = .ok c) :
    c = ⟨lowerName defaultLibrary,
      libraries.entries.foldl (fun t e => Config.assignOne t e.1 e.2) .empty, workers⟩ := by
  simp only [make?] at h
  split at h
  · cases h
  · split at h
    · split at h
      · cases h
      · exact (Except.ok.inj h).symm
    · exact (Except.ok.inj h).symm

namespace Built

variable {c : Config}

theorem lowered (h : Built c) : lowerName c.defaultLibrary = c.defaultLibrary ∧
    Lowered c.libraries := by
  induction h with
  | make h =>
      have hempty : Lowered .empty := fun e he => by cases he
      rw [eq_of_make? h]
      exact ⟨lowerName_lowerName _, hempty.foldl _ _ _⟩
  | assign _ library paths ih => exact ⟨ih.1, ih.2.foldl paths _ _⟩

/-- **The library of a file** is in lower case. -/
theorem lowerName_libraryFor (h : Built c) (path : String) :
    lowerName (c.libraryFor path) = c.libraryFor path := by
  obtain ⟨hdefault, hlibraries⟩ := h.lowered
  rw [libraryFor, Table.get?]
  cases hfind : c.libraries.entries.find? fun e => decide (e.1 = Path.normalize path) with
  | none => exact hdefault
  | some e => exact hlibraries e (List.mem_of_find?_eq_some hfind)

end Built

end Config

end VhdlCatalog
