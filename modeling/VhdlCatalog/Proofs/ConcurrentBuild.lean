import Mathlib.Data.List.Nodup
import Mathlib.Logic.Relation
import VhdlCatalog.Build
import VhdlCatalog.Proofs.DisplayOrder
import VhdlCatalog.Proofs.Failures
import VhdlCatalog.Proofs.LibraryUnits
import VhdlCatalog.Proofs.Nesting

/-!
**A concurrent build comes to the same as a sequential one.**

The tasks of a build wait in a queue, a pool of workers takes them up, and they finish in any order.
The merge begins when none is left.  It goes through the results in the order of the files, so it
sees what a build one file after another would see: what a task yields depends on its file only, and
what merging a result does depends on the results before it only.

A merge catches scan errors and nothing else.  Whether anything else can come up is decided here:
a scan yields units, so a library has nothing to refuse but duplicates, and a task turns whatever
else goes wrong with its file into a scan error.

Main definitions:

* `VhdlCatalog.Error.isScanError` — the errors that a build collects;
* `VhdlCatalog.Build.Pool`, `VhdlCatalog.Build.Pool.Step` — the workers;
* `VhdlCatalog.Catalog.takeUp` — what a catalog makes of the result of a task;
* `VhdlCatalog.Build.errors` — the errors of a build, file after file;
* `VhdlCatalog.Build.concurrentCatching`, `VhdlCatalog.Build.sequentialCatching` — the two builds
  with the errors that escape them.

Main results:

* `VhdlCatalog.Build.Pool.Reaches.finished_perm`, `VhdlCatalog.Build.Pool.exists_isDone` — no task
  is lost, and the workers never get stuck;
* `VhdlCatalog.Build.isScanError_of_scanTask`, `VhdlCatalog.Build.scanned_of_scanTask` — what a task
  can yield;
* `VhdlCatalog.Build.agrees_concurrent` — the order in which tasks finish does not matter;
* `VhdlCatalog.Build.failures_sequential` — the failures are the errors, the last one for each path;
* `VhdlCatalog.Build.concurrent_build_agrees` — **the two builds come to the same**, and none of
  them ends with an error.
-/

set_option relaxedAutoImplicit false
set_option autoImplicit false

namespace VhdlCatalog

/-! ### Lists and tables -/

section Occurrences

variable {α : Type}

/-- The elements of `xs`, each with those before it, of which `before` are the first. -/
def occurrencesFrom (before : List α) : List α → List (List α × α)
  | [] => []
  | x :: xs => (before, x) :: occurrencesFrom (before ++ [x]) xs

/-- The elements of a list, each with those before it. -/
def occurrences (xs : List α) : List (List α × α) := occurrencesFrom [] xs

theorem occurrencesFrom_concat (before xs : List α) (x : α) :
    occurrencesFrom before (xs ++ [x]) = occurrencesFrom before xs ++ [(before ++ xs, x)] := by
  induction xs generalizing before with
  | nil => simp [occurrencesFrom]
  | cons y xs ih => simp [occurrencesFrom, ih]

theorem occurrences_concat (xs : List α) (x : α) :
    occurrences (xs ++ [x]) = occurrences xs ++ [(xs, x)] :=
  occurrencesFrom_concat [] xs x

end Occurrences

theorem Table.ofPairs_concat {κ α : Type} [DecidableEq κ] (pairs : List (κ × α)) (p : κ × α) :
    Table.ofPairs (pairs ++ [p]) = (Table.ofPairs pairs).put p.1 p.2 := by
  simp [Table.ofPairs]

theorem Table.mem_keys_put {κ α : Type} [DecidableEq κ] {t : Table κ α} {j k : κ} {a : α} :
    j ∈ (t.put k a).keys ↔ j ∈ t.keys ∨ j = k := by
  rw [Table.keys_put]
  split
  · next hk => exact ⟨Or.inl, fun h => h.elim id fun h => h ▸ hk⟩
  · rw [List.mem_append, List.mem_singleton]

theorem Report.ok_iff {r : Report} : r.ok = true ↔ r.failures.keys = [] := by
  simp [Report.ok, Table.keys]

/-! ### Errors -/

/-- The error is one that a build collects.  The others are about a path or a symbol that nobody
should have come up with. -/
def Error.isScanError : Error → Bool
  | unreadable .. | unterminated .. | duplicate .. | taskFailed .. => true
  | badPath _ | notAUnit _ | notAMember .. => false

namespace Library

theorem isScanError_of_add {lib : Library} {s : Symbol} {e : Error} (hs : s.isUnit = true)
    (h : lib.add s = .error e) : e.isScanError = true := by
  cases s with
  | entity d =>
      simp only [add] at h
      split at h
      · cases h
        rfl
      · cases h
  | package p =>
      simp only [add] at h
      split at h
      · cases h
        rfl
      · cases h
  | member m => cases hs

/-- A library refuses units only as duplicates. -/
theorem isScanError_of_addAll {lib : Library} {us : List Symbol} {e : Error}
    (hus : ∀ s ∈ us, s.isUnit = true) (h : lib.addAll us = .error e) : e.isScanError = true := by
  induction us generalizing lib with
  | nil => cases h
  | cons s us ih =>
      have hcons : lib.addAll (s :: us) = (lib.add s).bind fun lib => lib.addAll us := rfl
      rw [hcons] at h
      cases hs : lib.add s with
      | error e' =>
          rw [hs] at h
          cases h
          exact isScanError_of_add (hus s (by simp)) hs
      | ok lib' =>
          rw [hs] at h
          exact ih (fun s' hs' => hus s' (by simp [hs'])) h

end Library

/-! ### Scanned files -/

/-- **The units of a file fit into an empty library**: no two of them are on one line. -/
theorem fits_of_scanSource {filepath library : String} {data : Bytes} {file : FileScan}
    (h : (scanSource filepath library data).result = .ok file) : Library.Fits [] file.units := by
  obtain ⟨items, hlines, hunits⟩ := exists_items_of_scanSource h
  have hlt := Scan.pairwise_units_apart (t := .ofFile filepath library) hlines
  rw [hunits]
  refine ⟨fun s hs => ?_, ?_, by simp⟩
  · obtain ⟨item, -, hs⟩ := List.mem_flatMap.1 hs
    cases item with
    | other l _ => simp [Scan.FileItem.units] at hs
    | entity b =>
        obtain rfl := List.mem_singleton.1 hs
        rfl
    | package b =>
        obtain rfl := List.mem_singleton.1 hs
        rfl
  · refine List.pairwise_map.2 (hlt.imp fun hline heq => ?_)
    have hid := congrArg (fun key => key.2.line) heq
    simp only [Symbol.key, Declaration.id] at hid
    omega

theorem library_of_scanSource {filepath library : String} {data : Bytes} {file : FileScan}
    (h : (scanSource filepath library data).result = .ok file) :
    file.library = Config.lowerName library := by
  have hphase := (run_of_scanSource h).1
  rw [result_scanSource, Scan.Progress.result, hphase] at h
  cases h
  rfl

theorem isScanError_of_scanSource {filepath library : String} {data : Bytes} {e : Error}
    (h : (scanSource filepath library data).result = .error e) : e.isScanError = true := by
  have hn := Source.numbered_codeLines data
  rw [result_scanSource] at h
  rcases Scan.complete_or_cutOff_or_repeats (Source.codeLines data) with
    hc | ⟨u, hu⟩ | ⟨k, b, x, hr⟩
  · obtain ⟨file, hfile⟩ := Scan.result_of_complete (t := .ofFile filepath library) hc hn
    rw [hfile] at h
    cases h
  · rw [Scan.result_of_cutOff hu hn] at h
    cases h
    rfl
  · rw [Scan.result_of_repeats hr hn] at h
    cases h
    rfl

namespace Build

/-! ### Workers -/

/-- The tasks of a build while the workers are busy. -/
structure Pool where
  /-- Tasks that no worker has taken up, in the order of the files. -/
  waiting : List Task
  /-- Tasks that a worker is busy with. -/
  running : List Task
  /-- Tasks that are done, in the order in which they finished. -/
  finished : List Task

/-- How many workers a build has: as many as the configuration says, or one for every file. -/
def poolWidth (config : Config) (paths : List String) : Nat :=
  match config.workers with
  | some n => n.toNat
  | none => paths.length

namespace Pool

/-- Before the first task is taken up. -/
def start (ts : List Task) : Pool := ⟨ts, [], []⟩

/-- No task is left. -/
def IsDone (p : Pool) : Prop := p.waiting = [] ∧ p.running = []

/-- One thing that can happen in a pool of `width` workers. -/
inductive Step (width : Nat) : Pool → Pool → Prop
  /-- A worker that is free takes up the task that has waited longest. -/
  | take (t : Task) (waiting running finished : List Task) (free : running.length < width) :
      Step width ⟨t :: waiting, running, finished⟩ ⟨waiting, running ++ [t], finished⟩
  /-- Any of the tasks that are running finishes. -/
  | finish (t : Task) (waiting before after finished : List Task) :
      Step width ⟨waiting, before ++ t :: after, finished⟩
        ⟨waiting, before ++ after, finished ++ [t]⟩

/-- What can happen in a pool of `width` workers, one thing after another. -/
def Reaches (width : Nat) : Pool → Pool → Prop := Relation.ReflTransGen (Step width)

/-- All tasks. -/
def allTasks (p : Pool) : List Task := p.waiting ++ (p.running ++ p.finished)

/-- What remains to be done: a task has to be taken up and to be finished. -/
def work (p : Pool) : Nat := 2 * p.waiting.length + p.running.length

variable {width : Nat} {p q : Pool} {ts : List Task}

/-- No task is lost or done twice. -/
theorem Step.perm (h : Step width p q) : q.allTasks.Perm p.allTasks := by
  cases h with
  | take t waiting running finished free =>
      simp only [allTasks, List.append_assoc, List.singleton_append]
      rw [← List.append_assoc, List.cons_append, ← List.append_assoc]
      exact List.perm_middle
  | finish t waiting before after finished =>
      refine List.Perm.append_left waiting ?_
      simp only [List.append_assoc, List.cons_append]
      refine List.Perm.append_left before ?_
      rw [← List.append_assoc]
      exact List.perm_append_singleton t (after ++ finished)

theorem Step.work_lt (h : Step width p q) : q.work < p.work := by
  cases h with
  | take t waiting running finished free => simp [work]; omega
  | finish t waiting before after finished => simp [work]

theorem Reaches.perm (h : Reaches width p q) : q.allTasks.Perm p.allTasks := by
  induction h with
  | refl => exact List.Perm.refl _
  | tail _ hstep ih => exact hstep.perm.trans ih

/-- **No task is lost**: when all are done, those that were there are done, in some order. -/
theorem Reaches.finished_perm (h : Reaches width (start ts) p) (hdone : p.IsDone) :
    p.finished.Perm ts := by
  have hperm := h.perm
  simpa only [allTasks, start, hdone.1, hdone.2, List.nil_append, List.append_nil] using hperm

theorem Reaches.isDone_of_nil (h : Reaches width (start []) p) : p.IsDone := by
  have hnil := h.perm.eq_nil
  simp only [allTasks, List.append_eq_nil_iff] at hnil
  exact ⟨hnil.1, hnil.2.1⟩

/-- A pool with a worker is never stuck. -/
theorem isDone_or_exists_step (hwidth : 0 < width) (p : Pool) : p.IsDone ∨ ∃ q, Step width p q := by
  obtain ⟨waiting, running, finished⟩ := p
  cases running with
  | cons t running => exact Or.inr ⟨_, .finish t waiting [] running finished⟩
  | nil =>
      cases waiting with
      | nil => exact Or.inl ⟨rfl, rfl⟩
      | cons t waiting => exact Or.inr ⟨_, .take t waiting [] finished hwidth⟩

/-- **The workers get done**, whatever has happened so far. -/
theorem exists_isDone (hwidth : 0 < width) (p : Pool) : ∃ q, Reaches width p q ∧ q.IsDone := by
  induction hn : p.work using Nat.strong_induction_on generalizing p with
  | _ n ih =>
      rcases isDone_or_exists_step hwidth p with hdone | ⟨q, hstep⟩
      · exact ⟨p, .refl, hdone⟩
      · obtain ⟨r, hr, hdone⟩ := ih q.work (hn ▸ hstep.work_lt) q rfl
        exact ⟨r, hr.head hstep, hdone⟩

end Pool

theorem poolWidth_pos {config : Config} {paths : List String}
    (hworkers : ∀ n, config.workers = some n → 1 ≤ n) (hpaths : paths ≠ []) :
    0 < poolWidth config paths := by
  unfold poolWidth
  split
  · next n hn =>
      have := hworkers n hn
      omega
  · exact List.length_pos_iff.2 hpaths

/-! ### Tasks -/

theorem index_tasks (config : Config) (paths : List String) :
    (tasks config paths).map Task.index = List.range paths.length := by
  rw [tasks, List.map_map, List.range_eq_range']
  exact List.zipIdx_map_snd 0 paths

/-- The tasks of a build come in the order of their places. -/
theorem pairwise_index_tasks (config : Config) (paths : List String) :
    (tasks config paths).Pairwise fun a b => a.index < b.index := by
  have hrange := List.pairwise_lt_range (n := paths.length)
  rw [← index_tasks config] at hrange
  exact List.pairwise_map.1 hrange

/-- Reading and scanning a file fails with a scan error, or because the path is none. -/
theorem error_of_scanFile {read : Reader} {path library : String} {e : Error}
    (h : (scanFile read path library).result = .error e) :
    e.isScanError = true ∨ ∃ fault, e = .badPath fault := by
  unfold scanFile at h
  split at h
  · exact Or.inl (isScanError_of_scanSource h)
  · next fault _ =>
      cases h
      cases fault with
      | zeroCharacter => exact Or.inr ⟨.zeroCharacter, rfl⟩
      | _ => exact Or.inl rfl

theorem taskError_of_isScanError {path : String} {e : Error} (h : e.isScanError = true) :
    taskError path e = e := by
  cases e with
  | badPath fault => cases h
  | _ => rfl

theorem result_scanTask (read : Reader) (t : Task) :
    (scanTask read t).result =
      (scanFile read t.path t.library).result.mapError (taskError t.path) :=
  rfl

/-- Scan errors are kept as they are, and any other error becomes one. -/
theorem scanTask_of_error {read : Reader} {t : Task} {e : Error}
    (h : (scanFile read t.path t.library).result = .error e) :
    (e.isScanError = true → (scanTask read t).result = .error e) ∧
    (e.isScanError = false → ∃ fault, e = .badPath fault ∧
      (scanTask read t).result = .error (.taskFailed t.path fault)) := by
  have hresult : (scanTask read t).result = .error (taskError t.path e) := by
    rw [result_scanTask, h]
    rfl
  refine ⟨fun hscan => ?_, fun hscan => ?_⟩
  · rw [hresult, taskError_of_isScanError hscan]
  · rcases error_of_scanFile h with hscan' | ⟨fault, rfl⟩
    · exact absurd (hscan.symm.trans hscan') Bool.false_ne_true
    · exact ⟨fault, rfl, hresult⟩

/-- A task that fails ends with a scan error. -/
theorem isScanError_of_scanTask {read : Reader} {t : Task} {e : Error}
    (h : (scanTask read t).result = .error e) : e.isScanError = true := by
  cases hfile : (scanFile read t.path t.library).result with
  | ok file =>
      rw [result_scanTask, hfile] at h
      cases h
  | error e' =>
      obtain ⟨hkept, hwrapped⟩ := scanTask_of_error hfile
      rcases error_of_scanFile hfile with hscan | ⟨fault, rfl⟩
      · rw [hkept hscan] at h
        cases h
        exact hscan
      · obtain ⟨fault', -, hresult⟩ := hwrapped rfl
        rw [hresult] at h
        cases h
        rfl

/-- A task that succeeds yields units that fit into an empty library. -/
theorem scanned_of_scanTask {read : Reader} {t : Task} {file : FileScan}
    (h : (scanTask read t).result = .ok file) :
    file.library = Config.lowerName t.library ∧ Library.Fits [] file.units := by
  have hfile : (scanFile read t.path t.library).result = .ok file := by
    rw [result_scanTask] at h
    cases hfile : (scanFile read t.path t.library).result with
    | ok file' =>
        rw [hfile] at h
        exact h
    | error e =>
        rw [hfile] at h
        cases h
  unfold scanFile at hfile
  split at hfile
  · exact ⟨library_of_scanSource hfile, fits_of_scanSource hfile⟩
  · cases hfile

end Build

/-! ### Merging -/

/-- What a catalog makes of the result of a task: the catalog after it, and the error with which
the file fails. -/
def Catalog.takeUp (c : Catalog) : Except Error FileScan → Catalog × Option Error
  | .error e => (c, some e)
  | .ok file => c.addSymbols file.library file.units

/-- The report with the error, if there is one, with which a file fails. -/
def Report.note (r : Report) (path : String) : Option Error → Report
  | none => r
  | some e => r.fail path e

/-- The two reports differ at most in what has been reported along the way. -/
structure Report.Agrees (r s : Report) : Prop where
  catalog : r.catalog = s.catalog
  failures : r.failures = s.failures

theorem Report.Agrees.ok {r s : Report} (h : r.Agrees s) : r.ok = s.ok := by
  rw [Report.ok, Report.ok, h.failures]

namespace Build

variable {read : Reader} {r s : Report} {path : String} {result : Except Error FileScan}

/-- Merging a result is having the catalog take it up, and noting its error. -/
theorem merge_eq (r : Report) (path : String) (result : Except Error FileScan) :
    merge r path result =
      ({ r with catalog := (r.catalog.takeUp result).1 } : Report).note path
        (r.catalog.takeUp result).2 := by
  cases result with
  | error e => rfl
  | ok file =>
      simp only [merge, Catalog.takeUp]
      split
      · next catalog h =>
          rw [h]
          rfl
      · next catalog e h =>
          rw [h]
          rfl

theorem catalog_merge : (merge r path result).catalog = (r.catalog.takeUp result).1 := by
  rw [merge_eq]
  cases (r.catalog.takeUp result).2 <;> rfl

theorem failures_merge : (merge r path result).failures =
    ((r.catalog.takeUp result).2.map (r.failures.put path)).getD r.failures := by
  rw [merge_eq]
  cases (r.catalog.takeUp result).2 <;> rfl

theorem log_merge : (merge r path result).log =
    r.log ++ ((r.catalog.takeUp result).2.map Event.failed).toList := by
  rw [merge_eq]
  cases (r.catalog.takeUp result).2 with
  | none => exact (List.append_nil _).symm
  | some e => rfl

theorem ok_merge :
    (merge r path result).ok = true ↔ r.ok = true ∧ (r.catalog.takeUp result).2 = none := by
  rw [Report.ok_iff, Report.ok_iff, failures_merge]
  cases (r.catalog.takeUp result).2 with
  | none => simp
  | some e =>
      simp only [Option.map_some, Option.getD_some, reduceCtorEq, and_false, iff_false]
      intro hnil
      have hmem : path ∈ (r.failures.put path e).keys := Table.mem_keys_put.2 (Or.inr rfl)
      rw [hnil] at hmem
      cases hmem

/-- **One result**: what has been reported so far does not matter. -/
theorem agrees_merge (h : r.Agrees s) (path : String) (result : Except Error FileScan) :
    (merge r path result).Agrees (merge s path result) where
  catalog := by rw [catalog_merge, catalog_merge, h.catalog]
  failures := by rw [failures_merge, failures_merge, h.catalog, h.failures]

/-- **All results**: the tasks may as well be run one by one, each before its result is merged. -/
theorem agrees_foldl (read : Reader) (h : r.Agrees s) (ts : List Task) :
    (ts.foldl (fun r t => merge r t.path (scanTask read t).result) r).Agrees
      (ts.foldl (sequentialStep read) s) := by
  induction ts generalizing r s with
  | nil => exact h
  | cons t ts ih =>
      have hlog : Report.Agrees r { s with log := s.log ++ (scanTask read t).log } :=
        ⟨h.catalog, h.failures⟩
      exact ih (agrees_merge hlog t.path (scanTask read t).result)

/-- A task with its outcome. -/
def outcomeOf (read : Reader) (t : Task) : Task × ScanOutcome := (t, scanTask read t)

/-- **The merge goes through the results in the order of the files**, in whatever order the tasks
finished: no two tasks have the same place. -/
theorem sort_outcomes (read : Reader) {ts finished : List Task}
    (hts : ts.Pairwise fun a b => a.index < b.index) (h : finished.Perm ts) :
    ((finished.map (outcomeOf read)).mergeSort fun a b => decide (a.1.index ≤ b.1.index)) =
      ts.map (outcomeOf read) := by
  have horder : SortOrder fun a b : Task × ScanOutcome => decide (a.1.index ≤ b.1.index) :=
    .of_key (fun o => o.1.index) fun a b => by simp
  have hindex : (ts.map Task.index).Nodup := List.pairwise_map.2 (hts.imp Nat.ne_of_lt)
  have hsorted : (ts.map (outcomeOf read)).Pairwise fun a b =>
      decide (a.1.index ≤ b.1.index) = true :=
    List.pairwise_map.2 (hts.imp fun hlt => decide_eq_true (Nat.le_of_lt hlt))
  rw [← mergeSort_eq_of_perm horder ?_ (h.symm.map (outcomeOf read))]
  · exact List.mergeSort_of_pairwise hsorted
  · intro a ha b hb htie
    obtain ⟨hab, hba⟩ := ties_iff.1 htie
    obtain ⟨t, ht, rfl⟩ := List.mem_map.1 ha
    obtain ⟨u, hu, rfl⟩ := List.mem_map.1 hb
    have hle : t.index = u.index := Nat.le_antisymm (of_decide_eq_true hab) (of_decide_eq_true hba)
    rw [List.inj_on_of_nodup_map hindex ht hu hle]

/-- **The order in which tasks finish does not matter**: the build comes to what a build one file
after another comes to. -/
theorem agrees_concurrent (read : Reader) {ts finished : List Task}
    (hts : ts.Pairwise fun a b => a.index < b.index) (h : finished.Perm ts) :
    (concurrent read finished).Agrees (sequential read ts) := by
  have hsort := sort_outcomes read hts h
  have hfold := agrees_foldl read (r := { Report.empty with
    log := (finished.map (outcomeOf read)).flatMap fun o => o.2.log }) (s := .empty) ⟨rfl, rfl⟩ ts
  unfold outcomeOf at hsort hfold
  simp only [concurrent, hsort, List.foldl_map]
  split
  · exact hfold
  · exact ⟨hfold.catalog, hfold.failures⟩

/-- The concurrent build comes to what the sequential one comes to. -/
theorem agrees_scanFiles (read : Reader) (config : Config) (paths : List String) :
    (scanFiles read config paths).Agrees (scanFilesSequentially read config paths) :=
  agrees_concurrent read (pairwise_index_tasks config paths) (List.Perm.refl _)

theorem sequential_concat (ts : List Task) (t : Task) :
    sequential read (ts ++ [t]) = sequentialStep read (sequential read ts) t := by
  simp [sequential]

/-! ### Failures -/

/-- The error of a task in a build one file after another, in which it comes after `before`. -/
def error? (read : Reader) (before : List Task) (t : Task) : Option Error :=
  ((sequential read before).catalog.takeUp (scanTask read t).result).2

/-- The errors of a build one file after another, each with the path of its file. -/
def errors (read : Reader) (ts : List Task) : List (String × Error) :=
  (occurrences ts).filterMap fun o => (error? read o.1 o.2).map (o.2.path, ·)

theorem errors_concat (read : Reader) (ts : List Task) (t : Task) :
    errors read (ts ++ [t]) = errors read ts ++ ((error? read ts t).map (t.path, ·)).toList := by
  rw [errors, occurrences_concat, List.filterMap_append, ← errors]
  cases h : error? read ts t with
  | none => simp [h]
  | some e => simp [h]

/-- **The failures are the errors**, the last one for each path, in the order of the files that
failed first. -/
theorem failures_sequential (read : Reader) (ts : List Task) :
    (sequential read ts).failures = Table.ofPairs (errors read ts) := by
  induction ts using List.reverseRecOn with
  | nil => rfl
  | append_singleton ts t ih =>
      rw [sequential_concat, sequentialStep, failures_merge, errors_concat, ih, error?]
      cases ((sequential read ts).catalog.takeUp (scanTask read t).result).2 with
      | none => simp
      | some e => simp [Table.ofPairs_concat]

/-! ### What is not caught -/

/-- Merges the result of one task into a report.  Scan errors are caught; any other error of the
task or of the catalog escapes. -/
def mergeCatching (r : Report) (path : String) (result : Except Error FileScan) :
    Except Error Report :=
  match (r.catalog.takeUp result).2 with
  | none => .ok (merge r path result)
  | some e => if e.isScanError then .ok (merge r path result) else .error e

/-- The build one file after another, with the errors that escape it. -/
def sequentialCatching (read : Reader) (ts : List Task) : Except Error Report :=
  ts.foldlM
    (fun r t =>
      let outcome := scanTask read t
      mergeCatching { r with log := r.log ++ outcome.log } t.path outcome.result)
    .empty

/-- The build whose tasks finish in the order `finished`, with the errors that escape it. -/
def concurrentCatching (read : Reader) (finished : List Task) : Except Error Report := do
  let outcomes := finished.map fun t => (t, scanTask read t)
  let inOrder := outcomes.mergeSort fun a b => decide (a.1.index ≤ b.1.index)
  let start : Report := { Report.empty with log := outcomes.flatMap fun o => o.2.log }
  let done ← inOrder.foldlM (fun r o => mergeCatching r o.1.path o.2.result) start
  return if finished.isEmpty then done
    else { done with log := done.log ++ [.built finished.length done.failures.size] }

/-- A catalog finds nothing wrong with the result of a task but scan errors. -/
theorem isScanError_of_takeUp {c : Catalog} {t : Task} {e : Error}
    (h : (c.takeUp (scanTask read t).result).2 = some e) : e.isScanError = true := by
  cases hresult : (scanTask read t).result with
  | error e' =>
      rw [hresult] at h
      cases h
      exact isScanError_of_scanTask hresult
  | ok file =>
      rw [hresult] at h
      simp only [Catalog.takeUp, Catalog.addSymbols, Catalog.update] at h
      split at h
      · cases h
      · next e' hadd =>
          cases h
          exact Library.isScanError_of_addAll (scanned_of_scanTask hresult).2.units hadd

/-- Nothing escapes when the result of a task is merged. -/
theorem mergeCatching_scanTask (r : Report) (path : String) (t : Task) :
    mergeCatching r path (scanTask read t).result =
      .ok (merge r path (scanTask read t).result) := by
  unfold mergeCatching
  split
  · rfl
  · next e he => rw [if_pos (isScanError_of_takeUp he)]

theorem sequentialCatching_eq (read : Reader) (ts : List Task) :
    sequentialCatching read ts = .ok (sequential read ts) := by
  simp only [sequentialCatching, mergeCatching_scanTask]
  exact List.foldlM_pure

theorem concurrentCatching_eq (read : Reader) {ts finished : List Task}
    (hts : ts.Pairwise fun a b => a.index < b.index) (h : finished.Perm ts) :
    concurrentCatching read finished = .ok (concurrent read finished) := by
  have hsort := sort_outcomes read hts h
  unfold outcomeOf at hsort
  have hfold : ∀ start, ts.foldlM (fun r t => (Except.ok (merge r t.path (scanTask read t).result) :
      Except Error Report)) start =
        .ok (ts.foldl (fun r t => merge r t.path (scanTask read t).result) start) := fun start =>
    List.foldlM_pure
  simp only [concurrentCatching, concurrent, hsort, List.foldlM_map, List.foldl_map,
    mergeCatching_scanTask, hfold]
  rfl

/-! ### Builds -/

/-- **The two builds come to the same.**  Let the configuration ask for at least one worker, or not
say how many.  Whatever the workers have done so far, they can get done, and when they are done all
tasks have finished, each once, in some order.  From any such order the concurrent build comes to
the catalog and the failures of the sequential one, with libraries, units and paths in the same
order.  Nothing escapes from either: the failures are all errors of reading, scanning and merging,
the last one for each path, and what is not a scan error has been turned into one. -/
theorem concurrent_build_agrees (read : Reader) (config : Config) (paths : List String)
    (hworkers : ∀ n, config.workers = some n → 1 ≤ n) :
    (∀ p, Pool.Reaches (poolWidth config paths) (.start (tasks config paths)) p →
      (∃ q, Pool.Reaches (poolWidth config paths) p q ∧ q.IsDone) ∧
      (p.IsDone → p.finished.Perm (tasks config paths))) ∧
    (∀ finished, finished.Perm (tasks config paths) →
      concurrentCatching read finished = .ok (concurrent read finished) ∧
      (concurrent read finished).catalog = (scanFilesSequentially read config paths).catalog ∧
      (concurrent read finished).catalog.identities =
        (scanFilesSequentially read config paths).catalog.identities ∧
      (concurrent read finished).failures = (scanFilesSequentially read config paths).failures ∧
      (concurrent read finished).ok = (scanFilesSequentially read config paths).ok) ∧
    sequentialCatching read (tasks config paths) = .ok (scanFilesSequentially read config paths) ∧
    (scanFilesSequentially read config paths).failures =
      Table.ofPairs (errors read (tasks config paths)) ∧
    ∀ t ∈ tasks config paths, ∀ e, (scanFile read t.path t.library).result = .error e →
      (e.isScanError = true → (scanTask read t).result = .error e) ∧
      (e.isScanError = false → ∃ fault, e = .badPath fault ∧
        (scanTask read t).result = .error (.taskFailed t.path fault)) := by
  have hts := pairwise_index_tasks config paths
  refine ⟨fun p hp => ⟨?_, hp.finished_perm⟩, fun finished hfinished => ?_,
    sequentialCatching_eq read _, failures_sequential read _, fun t _ e he => scanTask_of_error he⟩
  · cases paths with
    | nil => exact ⟨p, .refl, hp.isDone_of_nil⟩
    | cons path paths => exact Pool.exists_isDone (poolWidth_pos hworkers (List.cons_ne_nil _ _)) p
  · have hagrees := agrees_concurrent read hts hfinished
    exact ⟨concurrentCatching_eq read hts hfinished, hagrees.catalog,
      congrArg Catalog.identities hagrees.catalog, hagrees.failures, hagrees.ok⟩

/-- Two files that declare the same entity on the same line, and no others. -/
def sampleFiles : Reader := fun path =>
  if path = "a.vhd" then .ok "entity e is\nend;\npackage p is\nend p;\n".toUTF8.data.toList
  else if path = "b.vhd" then .ok "entity e is\nend;\nentity f is\nend;\n".toUTF8.data.toList
  else if '\x00' ∈ path.toList then .error .zeroCharacter
  else .error .missing

/-- A build with five workers, in which the tasks finish in the reverse order of the files.  One
file comes twice, one declares what another has declared, one does not exist, and one path is
none. -/
theorem concurrent_build_agrees_sample :
    let config : Config := ⟨"work", .empty, some 5⟩
    let paths := ["a.vhd", "b.vhd", "\x00", "c.vhd", "a.vhd"]
    (∀ n, config.workers = some n → 1 ≤ n) ∧
    concurrentCatching sampleFiles (tasks config paths).reverse =
      .ok (concurrent sampleFiles (tasks config paths).reverse) ∧
    (concurrent sampleFiles (tasks config paths).reverse).catalog =
      (scanFilesSequentially sampleFiles config paths).catalog ∧
    (concurrent sampleFiles (tasks config paths).reverse).failures =
      (scanFilesSequentially sampleFiles config paths).failures ∧
    (scanFilesSequentially sampleFiles config paths).failures.entries =
      [("b.vhd", .duplicate "b.vhd" "e" 1 "work"), ("\x00", .taskFailed "\x00" .zeroCharacter),
        ("c.vhd", .unreadable "c.vhd" .missing), ("a.vhd", .duplicate "a.vhd" "e" 1 "work")] := by
  intro config paths
  have hworkers : ∀ n, config.workers = some n → 1 ≤ n := by
    intro n hn
    obtain rfl : (5 : Int) = n := Option.some.inj hn
    decide
  obtain ⟨-, hfinished, -⟩ := concurrent_build_agrees sampleFiles config paths hworkers
  obtain ⟨hcatching, hcatalog, -, hfailures, -⟩ := hfinished _ (List.reverse_perm _)
  exact ⟨hworkers, hcatching, hcatalog, hfailures, by decide +kernel⟩

end Build

end VhdlCatalog
