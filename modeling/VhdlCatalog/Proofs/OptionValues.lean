import Mathlib.Data.List.Basic
import VhdlCatalog.CommandLine.Options

/-!
**Options have their values.**

An option that takes values has as many as it takes, wherever it stands on a line and however its
flag is written, with one exception: a `--` that is attached to a flag is dropped, and the option is
mentioned without a value.  On a line on which every `--` stands apart this does not happen.

Main definitions:

* `VhdlCatalog.CommandLine.DashesApart` — no word but `--` itself ends in `--`;
* `VhdlCatalog.CommandLine.Item.Complete` — what is read has its values, and they are from the line;
* `VhdlCatalog.CommandLine.DocRequest.Valued`, `VhdlCatalog.CommandLine.Request.Valued` — no option
  is mentioned without a value.

Main results:

* `VhdlCatalog.CommandLine.Grammar.complete_read` — **whatever is read is complete**;
* `VhdlCatalog.CommandLine.valued_parse` — **a request has its values**.
-/

set_option relaxedAutoImplicit false
set_option autoImplicit false

namespace VhdlCatalog.CommandLine

/-! ### Steps that can be refused -/

section Steps

variable {σ α β ε : Type}

theorem exists_ok_of_bind {x : Except ε α} {f : α → Except ε β} {b : β} (h : x >>= f = .ok b) :
    ∃ a, x = .ok a ∧ f a = .ok b := by
  cases x with
  | error e => cases h
  | ok a => exact ⟨a, rfl, h⟩

/-- What every step preserves, a run preserves that comes to its end. -/
theorem of_foldlM_ok {step : σ → α → Except ε σ} {P : σ → Prop} {xs : List α} {s s' : σ}
    (hs : P s) (hstep : ∀ s, P s → ∀ x ∈ xs, ∀ s', step s x = .ok s' → P s')
    (h : xs.foldlM step s = .ok s') : P s' := by
  induction xs generalizing s with
  | nil =>
      cases h
      exact hs
  | cons x xs ih =>
      rw [List.foldlM_cons] at h
      obtain ⟨t, ht, h⟩ := exists_ok_of_bind h
      exact ih (hstep s hs x List.mem_cons_self t ht)
        (fun s hs y hy => hstep s hs y (List.mem_cons_of_mem x hy)) h

end Steps

/-! ### Values -/

/-- Every `--` on the line is a word of its own. -/
def DashesApart (words : List String) : Prop :=
  ∀ word ∈ words, ['-', '-'] <:+ word.toList → word = "--"

theorem DashesApart.mono {words words' : List String} (h : DashesApart words)
    (hsub : words' ⊆ words) : DashesApart words' :=
  fun word hword => h word (hsub hword)

variable {ο : Type}

/-- What is read has its values: an option as many as it takes, and the slot some of the words. -/
def Item.Complete (g : Grammar ο) (words : List String) : Item ο → Prop
  | option o values => values.length = g.arity o
  | slot values => values ⊆ words

theorem Item.Complete.mono {g : Grammar ο} {words words' : List String} {item : Item ο}
    (h : item.Complete g words) (hsub : words ⊆ words') : item.Complete g words' := by
  cases item with
  | option o values => exact h
  | slot values => exact List.Subset.trans h hsub

/-- What is attached to the word does not end in `--`. -/
def Word.Undashed : Word ο → Prop
  | option _ _ (some value) => ¬['-', '-'] <:+ value
  | _ => True

/-! ### Words -/

theorem suffix_tail_of_cons {c : Char} {cs word : List Char} (h : c :: cs <:+ word) :
    cs <:+ word.tail := by
  obtain ⟨before, rfl⟩ := h
  cases before with
  | nil => exact List.suffix_rfl
  | cons d before => exact ⟨before ++ [c], by simp⟩

theorem suffix_of_splitEquals {word value : List Char} (h : (splitEquals word).2 = some value) :
    value <:+ word.tail := by
  have hsuffix : word.dropWhile (· != '=') <:+ word := List.dropWhile_suffix _
  simp only [splitEquals] at h
  cases hdrop : word.dropWhile (· != '=') with
  | nil =>
      rw [hdrop] at h
      cases h
  | cons c cs =>
      rw [hdrop] at h hsuffix
      obtain rfl := Option.some.inj h
      exact suffix_tail_of_cons hsuffix

namespace Grammar

variable {g : Grammar ο}

theorem suffix_of_candidates {word value : List Char} {o : ο} {flag : String}
    (h : (o, flag, some value) ∈ g.candidates word) : value <:+ word.tail := by
  unfold candidates at h
  split at h
  · obtain ⟨f, -, heq⟩ := List.mem_map.1 h
    simp only [Prod.mk.injEq] at heq
    exact suffix_of_splitEquals heq.2.2
  · obtain ⟨f, -, heq⟩ := List.mem_filterMap.1 h
    split at heq
    · cases heq
      rw [← List.drop_tail]
      exact List.drop_suffix _ _
    · split at heq
      · cases heq
      · cases heq

theorem suffix_of_dashed {word flag value : List Char} {o : ο}
    (h : g.dashed word = .ok (.option o flag (some value))) : value <:+ word.tail := by
  unfold dashed at h
  split at h
  · next hcandidates =>
      cases h
      exact suffix_of_candidates (hcandidates ▸ List.mem_singleton_self _)
  · split at h
    · cases h
    · cases h
  · cases h

/-- **What is attached to a flag** is an end of its word, which has begun before. -/
theorem suffix_of_classify {word flag value : List Char} {o : ο}
    (h : g.classify word = .ok (.option o flag (some value))) : value <:+ word.tail := by
  unfold classify at h
  split at h
  · cases h
  · split at h
    · cases h
    · split at h
      · cases h
      · split at h
        · next hsplit =>
            split at h
            · cases h
              exact suffix_of_splitEquals (by rw [hsplit])
            · exact suffix_of_dashed h
        · exact suffix_of_dashed h

/-- Nothing that ends in `--` is attached to a flag where every `--` stands apart. -/
theorem undashed_of_classify {word : String} {w : Word ο}
    (hword : ['-', '-'] <:+ word.toList → word = "--") (h : g.classify word.toList = .ok w) :
    w.Undashed := by
  cases w with
  | option o flag attached =>
      cases attached with
      | none => trivial
      | some value =>
          intro hdashes
          have htail : ['-', '-'] <:+ word.toList.tail := hdashes.trans (suffix_of_classify h)
          have hlength := htail.length_le
          rw [hword (htail.trans (List.tail_suffix _))] at hlength
          simp at hlength
  | _ => trivial

theorem undashed_of_classifyAll {words : List String} {ws : List (String × Word ο)}
    (hwords : DashesApart words) (h : g.classifyAll words = .ok ws) :
    ws.map Prod.fst = words ∧ ∀ w ∈ ws, w.2.Undashed := by
  induction words generalizing ws with
  | nil =>
      cases h
      exact ⟨rfl, fun w hw => (List.not_mem_nil hw).elim⟩
  | cons word rest ih =>
      rw [classifyAll] at h
      split at h
      · cases h
        refine ⟨by simp [Function.comp_def], List.forall_mem_cons.2 ⟨trivial, fun w hw => ?_⟩⟩
        obtain ⟨v, -, rfl⟩ := List.mem_map.1 hw
        trivial
      · obtain ⟨w, hword, hbind⟩ := exists_ok_of_bind h
        obtain ⟨ws', hrest, heq⟩ := exists_ok_of_bind hbind
        cases heq
        obtain ⟨hmap, hundashed⟩ := ih (hwords.mono (List.subset_cons_self word rest)) hrest
        exact ⟨congrArg (word :: ·) hmap, List.forall_mem_cons.2
          ⟨undashed_of_classify (hwords word List.mem_cons_self) hword, hundashed⟩⟩

/-! ### Lines without flags -/

theorem complete_readEnd (filled : Bool) (ws : List (String × Word ο)) :
    ∀ item ∈ (g.readEnd filled ws).items, item.Complete g (ws.map Prod.fst) := by
  unfold readEnd
  split
  · simp
  · split
    · exact List.forall_mem_singleton.2 List.erase_subset
    · split
      · simp
      · exact List.forall_mem_singleton.2 (List.Subset.refl _)

/-! ### Options -/

variable [DecidableEq ο]

theorem complete_takeValues {o : ο} {following : List (String × Word ο)} {taken : Taken ο}
    {words : List String} (h : g.takeValues o following = .ok taken) :
    ∀ item ∈ taken.items, item.Complete g words := by
  rw [takeValues] at h
  split at h
  · next hvalues =>
      cases h
      rw [Bool.and_eq_true, decide_eq_true_eq] at hvalues
      rw [List.forall_mem_singleton, Item.Complete, List.length_map]
      exact hvalues.1
  · cases h

theorem length_attachedValues {value : List Char} (hvalue : ¬['-', '-'] <:+ value) :
    (attachedValues value).length = 1 := by
  rw [attachedValues, if_neg]
  · rfl
  · rintro rfl
    exact hvalue List.suffix_rfl

theorem complete_takeAttached {following : List (String × Word ο)} {o : ο} {long : Bool}
    {value : List Char} {taken : Taken ο} {words : List String} (hvalue : ¬['-', '-'] <:+ value)
    (h : g.takeAttached following o long value = .ok taken) :
    ∀ item ∈ taken.items, item.Complete g words := by
  induction value generalizing o long taken with
  | nil =>
      unfold takeAttached at h
      split at h
      · cases h
      · next heq => cases heq
      · next harity =>
          cases h
          exact List.forall_mem_singleton.2 ((length_attachedValues hvalue).trans harity.symm)
      · cases h
  | cons c rest ih =>
      unfold takeAttached at h
      split at h
      · next heq => cases heq
      · next harity heq =>
          cases heq
          split at h
          · cases h
          · next other _ =>
              have hrest : ¬['-', '-'] <:+ rest := fun hdashes =>
                hvalue (hdashes.trans (List.suffix_cons c rest))
              -- `other` is the last flag of the word, or has more attached to it
              split at h
              · obtain ⟨taken', htaken, heq⟩ := exists_ok_of_bind h
                cases heq
                exact List.forall_mem_cons.2 ⟨harity.symm, complete_takeValues htaken⟩
              · obtain ⟨taken', htaken, heq⟩ := exists_ok_of_bind h
                cases heq
                exact List.forall_mem_cons.2 ⟨harity.symm, ih hrest htaken⟩
      · next harity =>
          cases h
          exact List.forall_mem_singleton.2 ((length_attachedValues hvalue).trans harity.symm)
      · cases h

theorem complete_takeOption {o : ο} {flag : List Char} {attached : Option (List Char)}
    {following : List (String × Word ο)} {taken : Taken ο} {words : List String}
    (hword : (Word.option o flag attached).Undashed)
    (h : g.takeOption o flag attached following = .ok taken) :
    ∀ item ∈ taken.items, item.Complete g words := by
  cases attached with
  | none => exact complete_takeValues h
  | some value => exact complete_takeAttached hword h

/-! ### Lines -/

/-- **Whatever is read is complete**, from any place on. -/
theorem complete_readFrom {filled : Bool} {ws : List (String × Word ο)}
    (hws : ∀ w ∈ ws, w.2.Undashed) :
    ∀ item ∈ (g.readFrom filled ws).items, item.Complete g (ws.map Prod.fst) := by
  -- in every case what is left of the line is a part of it, so `Item.Complete.mono` carries over
  fun_induction readFrom g filled ws with
  | case1 filled ws => exact complete_readEnd filled ws
  | case2 filled => exact complete_readEnd filled []
  | case3 => exact fun item hitem => (List.not_mem_nil hitem).elim
  | case4 filled word o flag attached rest taken htaken _ ih =>
      obtain ⟨hword, hrest⟩ := List.forall_mem_cons.1 hws
      have hdrop : rest.drop taken.used ⊆ rest := List.drop_subset _ _
      refine List.forall_mem_append.2 ⟨complete_takeOption hword htaken, fun item hitem => ?_⟩
      exact (ih (fun w hw => hrest w (hdrop hw)) item hitem).mono
        (List.subset_cons_of_subset _ (List.map_subset _ hdrop))
  | case5 filled word rest _ ih =>
      obtain ⟨-, hrest⟩ := List.forall_mem_cons.1 hws
      exact fun item hitem => (ih hrest item hitem).mono (List.subset_cons_self _ _)
  | case6 word w rest _ _ _ left _ ih =>
      obtain ⟨-, hrest⟩ := List.forall_mem_cons.1 hws
      have hleft : left ⊆ rest := List.dropWhile_subset _
      exact fun item hitem => (ih (fun w hw => hrest w (hleft hw)) item hitem).mono
        (List.subset_cons_of_subset _ (List.map_subset _ hleft))
  | case7 filled word w rest _ _ _ left _ _ _ ih =>
      obtain ⟨-, hrest⟩ := List.forall_mem_cons.1 hws
      have hleft : left ⊆ rest := List.dropWhile_subset _
      refine List.forall_mem_append.2 ⟨List.forall_mem_singleton.2 ?_, fun item hitem => ?_⟩
      · exact List.cons_subset_cons _ (List.map_subset _ (List.takeWhile_subset _))
      · exact (ih (fun w hw => hrest w (hleft hw)) item hitem).mono
          (List.subset_cons_of_subset _ (List.map_subset _ hleft))
  | case8 => exact List.forall_mem_singleton.2 (List.Subset.refl _)

/-- **Whatever is read is complete** where every `--` stands apart. -/
theorem complete_read {words : List String} (hwords : DashesApart words) :
    ∀ item ∈ (g.read words).items, item.Complete g words := by
  rw [read]
  split
  · exact fun item hitem => (List.not_mem_nil hitem).elim
  · next hws =>
      obtain ⟨hmap, hundashed⟩ := undashed_of_classifyAll hwords hws
      rw [← hmap]
      exact complete_readFrom hundashed

end Grammar

/-! ### Requests -/

/-- No option of the command `doc` is mentioned without a value. -/
structure DocRequest.Valued (r : DocRequest) : Prop where
  defaultLibrary : r.defaultLibrary ≠ .blank
  workers : r.workers ≠ .blank
  symbol : r.symbol ≠ .blank

/-- No option of the program or of its command is mentioned without a value. -/
structure Request.Valued (r : Request) : Prop where
  format : r.format ≠ .blank
  doc : ∀ doc, r.doc = some doc → doc.Valued

theorem setting?_ne_blank {α : Type} {read : String → Except UsageError α} {values : List String}
    {setting : Setting α} (hvalues : values.length = 1)
    (h : setting? read values = .ok setting) : setting ≠ .blank := by
  obtain ⟨text, rfl⟩ := List.length_eq_one_iff.1 hvalues
  rw [setting?] at h
  cases hread : read text with
  | error e =>
      rw [hread] at h
      cases h
  | ok a =>
      rw [hread] at h
      cases h
      exact nofun

theorem docSetting?_ne_blank {α : Type} {read : String → Except UsageError α}
    {values : List String} {setting : Setting α} (hvalues : values.length = 1)
    (h : docSetting? read values = .ok setting) : setting ≠ .blank := by
  rw [docSetting?] at h
  cases hsetting : setting? read values with
  | error e =>
      rw [hsetting] at h
      cases h
  | ok setting' =>
      rw [hsetting] at h
      cases h
      exact setting?_ne_blank hvalues hsetting

/-- One item on the line of the command `doc`. -/
theorem DocRequest.Valued.next {r r' : DocRequest} {item : Item DocOption} {words : List String}
    (hr : r.Valued) (hitem : item.Complete DocOption.grammar words) (h : r.next item = .ok r') :
    r'.Valued := by
  cases item with
  | slot files =>
      cases h
      exact ⟨hr.defaultLibrary, hr.workers, hr.symbol⟩
  | option o values =>
      cases o with
      | help => cases h
      | library =>
          obtain ⟨library, file, rfl⟩ := List.length_eq_two.1 hitem
          cases h
          exact ⟨hr.defaultLibrary, hr.workers, hr.symbol⟩
      | defaultLibrary =>
          obtain ⟨setting, hsetting, heq⟩ := exists_ok_of_bind h
          cases heq
          exact ⟨docSetting?_ne_blank hitem hsetting, hr.workers, hr.symbol⟩
      | workers =>
          obtain ⟨setting, hsetting, heq⟩ := exists_ok_of_bind h
          cases heq
          exact ⟨hr.defaultLibrary, docSetting?_ne_blank hitem hsetting, hr.symbol⟩
      | symbol =>
          obtain ⟨setting, hsetting, heq⟩ := exists_ok_of_bind h
          cases heq
          exact ⟨hr.defaultLibrary, hr.workers, docSetting?_ne_blank hitem hsetting⟩
      | noBold =>
          cases h
          exact ⟨hr.defaultLibrary, hr.workers, hr.symbol⟩

theorem valued_parseDoc {words extras : List String} {r : DocRequest} (hwords : DashesApart words)
    (h : parseDoc words = .ok (r, extras)) : r.Valued := by
  obtain ⟨r', hitems, hending⟩ := exists_ok_of_bind h
  have hempty : DocRequest.empty.Valued := ⟨nofun, nofun, nofun⟩
  have hr' : r'.Valued := of_foldlM_ok hempty
    (fun s hs item hitem s' => hs.next (Grammar.complete_read hwords item hitem)) hitems
  split at hending
  · cases hending
    exact hr'
  · cases hending

/-- One item on the line of the program. -/
theorem Request.Valued.next {state state' : Request × List String} {item : Item ProgramOption}
    {words : List String} (hwords : DashesApart words) (hstate : state.1.Valued)
    (hitem : item.Complete ProgramOption.grammar words)
    (h : Request.next state item = .ok state') : state'.1.Valued := by
  cases item with
  | slot values =>
      cases values with
      | nil =>
          cases h
          exact hstate
      | cons command rest =>
          rw [Request.next] at h
          split at h
          · obtain ⟨⟨doc, extras⟩, hdoc, heq⟩ := exists_ok_of_bind h
            cases heq
            have hrest : rest ⊆ words := fun w hw => hitem (List.mem_cons_of_mem command hw)
            refine ⟨hstate.format, fun doc' hdoc' => ?_⟩
            obtain rfl := Option.some.inj hdoc'
            exact valued_parseDoc (hwords.mono hrest) hdoc
          · cases h
  | option o values =>
      cases o with
      | help => cases h
      | debug =>
          cases h
          exact ⟨hstate.format, hstate.doc⟩
      | format =>
          rw [Request.next] at h
          split at h
          · next hformat =>
              cases h
              exact ⟨setting?_ne_blank hitem hformat, hstate.doc⟩
          · cases h

end VhdlCatalog.CommandLine
