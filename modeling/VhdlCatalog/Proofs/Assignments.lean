import VhdlCatalog.Proofs.CatalogRuns
import VhdlCatalog.Proofs.PathSpelling

/-!
**Of several assignments of a file the last one counts.**

Files are assigned to libraries when a configuration is made, and later on, file by file.  Whichever
way an assignment comes in, it takes the place of the earlier ones of the same file, in whatever
spelling these named it.  The files are listed in the order in which they were first assigned.

Main definitions:

* `VhdlCatalog.Assignment` — a file is assigned to a library;
* `VhdlCatalog.Config.assigned` — the table that assignments leave, one after another;
* `VhdlCatalog.Config.assignAll` — a configuration to which files are assigned, call after call;
* `VhdlCatalog.Config.Follows` — the configuration answers as the assignments say.

Main results:

* `VhdlCatalog.Config.get?_assigned_last`, `VhdlCatalog.Config.keys_assigned` — the table after
  several assignments, from what one of them does;
* `VhdlCatalog.Config.exists_make?_iff`, `VhdlCatalog.Config.exists_ofOptions?_iff` — which
  configurations are refused;
* `VhdlCatalog.Config.last_assignment_counts` — **the last assignment counts**.
-/

set_option relaxedAutoImplicit false
set_option autoImplicit false

namespace VhdlCatalog

/-! ### Assignments -/

/-- A file is assigned to a library. -/
structure Assignment where
  /-- The path of the file, in any spelling. -/
  path : String
  /-- The name of the library, in any case. -/
  library : String
  deriving DecidableEq, Repr

namespace Assignment

/-- The normal spelling of the path. -/
def file (a : Assignment) : String := Path.normalize a.path

/-- The entries of a table of paths and libraries. -/
def ofTable (t : Table String String) : List Assignment := t.entries.map fun e => ⟨e.1, e.2⟩

/-- What calls assign, each some files to one library. -/
def ofCalls (calls : List (String × List String)) : List Assignment :=
  calls.flatMap fun call => call.2.map fun path => ⟨path, call.1⟩

/-- Pairs of a library and a file. -/
def ofPairs (pairs : List (String × String)) : List Assignment := pairs.map fun p => ⟨p.2, p.1⟩

theorem ofCalls_concat (calls : List (String × List String)) (call : String × List String) :
    ofCalls (calls ++ [call]) = ofCalls calls ++ call.2.map fun path => ⟨path, call.1⟩ := by
  simp [ofCalls]

/-- Pairs are calls with one file each. -/
theorem ofCalls_pairs (pairs : List (String × String)) :
    ofCalls (pairs.map fun p => (p.1, [p.2])) = ofPairs pairs := by
  simp only [ofCalls, ofPairs, List.flatMap_map, List.map_singleton]
  exact List.flatMap_pure_eq_map _ pairs

end Assignment

namespace Config

open Assignment

/-! ### The table that assignments leave -/

/-- The table that assignments leave, one after another. -/
def assigned (as : List Assignment) : Table String String :=
  as.foldl (fun t a => assignOne t a.path a.library) .empty

theorem assigned_append (as bs : List Assignment) :
    assigned (as ++ bs) = bs.foldl (fun t a => assignOne t a.path a.library) (assigned as) :=
  List.foldl_append

/-- **One more assignment**: its file gets its library, and the other files keep theirs. -/
theorem get?_assigned_concat (as : List Assignment) (a : Assignment) (file : String) :
    (assigned (as ++ [a])).get? file =
      if file = a.file then some (lowerName a.library) else (assigned as).get? file := by
  rw [assigned_append]
  exact Table.get?_put (assigned as) a.file (lowerName a.library) file

/-- **The files** come in the order of their first assignments. -/
theorem keys_assigned (as : List Assignment) :
    (assigned as).keys = (as.map Assignment.file).eraseDups := by
  induction as using List.reverseRecOn with
  | nil => rfl
  | append_singleton as a ih =>
      have hput : (assigned (as ++ [a])).keys =
          if a.file ∈ (assigned as).keys then (assigned as).keys
          else (assigned as).keys ++ [a.file] := by
        rw [assigned_append]
        exact Table.keys_put (assigned as) a.file (lowerName a.library)
      rw [hput, ih, List.map_append, List.map_singleton, eraseDups_concat]
      simp only [List.mem_eraseDups]

/-- **The last assignment** of a file is in the table. -/
theorem get?_assigned_last (before : List Assignment) {a : Assignment} {after : List Assignment}
    {file : String} (ha : a.file = file) (hafter : ∀ b ∈ after, b.file ≠ file) :
    (assigned (before ++ a :: after)).get? file = some (lowerName a.library) := by
  induction after using List.reverseRecOn with
  | nil => rw [get?_assigned_concat, if_pos ha.symm]
  | append_singleton after b ih =>
      have hb : b.file ≠ file := hafter b (by simp)
      rw [← List.cons_append, ← List.append_assoc, get?_assigned_concat, if_neg hb.symm]
      exact ih fun b' hb' => hafter b' (by simp [hb'])

/-- A file that is never assigned is not in the table. -/
theorem get?_assigned_of_forall {as : List Assignment} {file : String}
    (h : ∀ a ∈ as, a.file ≠ file) : (assigned as).get? file = none := by
  refine Table.get?_eq_none (decide_eq_false ?_)
  rw [keys_assigned, List.mem_eraseDups]
  intro hmem
  obtain ⟨a, ha, hfile⟩ := List.mem_map.1 hmem
  exact h a ha hfile

/-! ### Configurations that follow assignments -/

/-- The configuration answers as the assignments `as` and the default library say. -/
structure Follows (c : Config) (as : List Assignment) (defaultLibrary : String) : Prop where
  /-- The last assignment of a file counts, whichever way the path is spelled. -/
  last : ∀ before a after path, as = before ++ a :: after →
    Path.normalize a.path = Path.normalize path →
    (∀ b ∈ after, Path.normalize b.path ≠ Path.normalize path) →
    c.libraryFor path = lowerName a.library
  /-- A file without an assignment goes to the default library. -/
  unassigned : ∀ path, (∀ a ∈ as, Path.normalize a.path ≠ Path.normalize path) →
    c.libraryFor path = lowerName defaultLibrary
  /-- The normal spelling of a path stands for all its spellings. -/
  spelling : ∀ path, c.libraryFor (Path.normalize path) = c.libraryFor path
  /-- The files are those of the assignments, in the order of the first ones. -/
  files : c.files = (as.map fun a => Path.normalize a.path).eraseDups
  /-- No file is listed twice. -/
  nodup : c.files.Nodup
  /-- Every file is listed in its normal spelling. -/
  normal : ∀ path ∈ c.files, Path.normalize path = path

/-- A configuration with the table that assignments leave follows them. -/
theorem follows_of_assigned {c : Config} {as : List Assignment} {defaultLibrary : String}
    (hdefault : c.defaultLibrary = lowerName defaultLibrary) (htable : c.libraries = assigned as) :
    c.Follows as defaultLibrary where
  last := by
    intro before a after path has ha hafter
    rw [libraryFor, htable, has, get?_assigned_last before ha hafter, Option.getD_some]
  unassigned := by
    intro path h
    rw [libraryFor, htable, get?_assigned_of_forall h, Option.getD_none, hdefault]
  spelling := by
    intro path
    rw [libraryFor, libraryFor, Path.normalize_normalize]
  files := by
    rw [files, htable]
    exact keys_assigned as
  nodup := by
    rw [files, htable, keys_assigned]
    exact nodup_eraseDups _
  normal := by
    intro path hpath
    rw [files, htable, keys_assigned, List.mem_eraseDups] at hpath
    obtain ⟨a, -, rfl⟩ := List.mem_map.1 hpath
    exact Path.normalize_normalize a.path

/-! ### Building configurations -/

/-- The configuration to which more files are assigned, call after call. -/
def assignAll (c : Config) (calls : List (String × List String)) : Config :=
  calls.foldl (fun c call => c.assign call.1 call.2) c

/-- **One call** comes to its assignments. -/
theorem libraries_assign {c : Config} {as : List Assignment} (h : c.libraries = assigned as)
    (library : String) (paths : List String) :
    (c.assign library paths).libraries =
      assigned (as ++ paths.map fun path => ⟨path, library⟩) := by
  rw [assigned_append, List.foldl_map, assign, h]

/-- **Several calls** come to theirs, and leave the default library alone. -/
theorem assignAll_eq {c : Config} {as : List Assignment} (h : c.libraries = assigned as)
    (calls : List (String × List String)) :
    (c.assignAll calls).libraries = assigned (as ++ ofCalls calls) ∧
      (c.assignAll calls).defaultLibrary = c.defaultLibrary := by
  induction calls using List.reverseRecOn with
  | nil => exact ⟨by rw [show ofCalls [] = [] from rfl, List.append_nil]; exact h, rfl⟩
  | append_singleton calls call ih =>
      have hlast : c.assignAll (calls ++ [call]) = (c.assignAll calls).assign call.1 call.2 := by
        simp [assignAll]
      rw [hlast, libraries_assign ih.1, ofCalls_concat, List.append_assoc]
      exact ⟨rfl, ih.2⟩

/-- The table with which a configuration is made is a row of assignments. -/
theorem libraries_of_make? {defaultLibrary : String} {libraries : Table String String}
    {workers : Option Int} {c : Config} (h : make? defaultLibrary libraries workers = .ok c) :
    c.libraries = assigned (ofTable libraries) ∧ c.defaultLibrary = lowerName defaultLibrary := by
  rw [eq_of_make? h, assigned, ofTable, List.foldl_map]
  exact ⟨rfl, rfl⟩

/-- A configuration is refused for want of a default library or of workers, and for nothing else. -/
theorem exists_make?_iff {defaultLibrary : String} {libraries : Table String String}
    {workers : Option Int} :
    (∃ c, make? defaultLibrary libraries workers = .ok c) ↔
      defaultLibrary ≠ "" ∧ ∀ n, workers = some n → 1 ≤ n := by
  have hempty : defaultLibrary.isEmpty = true ↔ defaultLibrary = "" := String.isEmpty_iff
  unfold make?
  by_cases hname : defaultLibrary = ""
  · rw [if_pos (hempty.2 hname)]
    simp [hname]
  · rw [if_neg fun h => hname (hempty.1 h)]
    cases workers with
    | none => simp [hname]
    | some n =>
        by_cases hn : n < 1
        · have hle : ¬1 ≤ n := by omega
          simp [hname, hn, hle]
        · have hle : 1 ≤ n := by omega
          simp [hname, hn, hle]

/-- The name of the default library, when one may be asked for. -/
def defaultName (preferred : Option String) : String :=
  match preferred with
  | some name => if name.isEmpty then standardLibrary else name
  | none => standardLibrary

theorem defaultName_ne (preferred : Option String) : defaultName preferred ≠ "" := by
  unfold defaultName
  split
  · split
    · decide
    · next name hname => exact fun h => hname (by rw [h]; rfl)
  · decide

/-- The options make a configuration without assignments and assign the files one by one. -/
theorem ofOptions?_eq (pairs : List (String × String)) (preferred : Option String)
    (workers : Option Int) :
    ofOptions? pairs preferred workers =
      (make? (defaultName preferred) .empty workers).map fun c =>
        c.assignAll (pairs.map fun p => (p.1, [p.2])) := by
  have hoptions : ofOptions? pairs preferred workers =
      (make? (defaultName preferred) .empty workers).bind fun c =>
        .ok (pairs.foldl (fun c pair => c.assign pair.1 [pair.2]) c) := rfl
  simp only [hoptions, assignAll, List.foldl_map]
  cases make? (defaultName preferred) .empty workers with
  | error e => rfl
  | ok c => rfl

theorem ofOptions?_eq_ok_iff {pairs : List (String × String)} {preferred : Option String}
    {workers : Option Int} {c : Config} :
    ofOptions? pairs preferred workers = .ok c ↔
      ∃ c', make? (defaultName preferred) .empty workers = .ok c' ∧
        c'.assignAll (pairs.map fun p => (p.1, [p.2])) = c := by
  rw [ofOptions?_eq]
  cases make? (defaultName preferred) .empty workers with
  | error e => simp [Except.map]
  | ok c' => simp [Except.map]

/-- Options are refused for want of workers, and for nothing else. -/
theorem exists_ofOptions?_iff {pairs : List (String × String)} {preferred : Option String}
    {workers : Option Int} :
    (∃ c, ofOptions? pairs preferred workers = .ok c) ↔ ∀ n, workers = some n → 1 ≤ n := by
  have hmake : (∃ c, make? (defaultName preferred) .empty workers = .ok c) ↔ _ := exists_make?_iff
  constructor
  · rintro ⟨c, hc⟩
    obtain ⟨c', hc', -⟩ := ofOptions?_eq_ok_iff.1 hc
    exact (hmake.1 ⟨c', hc'⟩).2
  · intro hworkers
    obtain ⟨c', hc'⟩ := hmake.2 ⟨defaultName_ne preferred, hworkers⟩
    exact ⟨_, ofOptions?_eq_ok_iff.2 ⟨c', hc', rfl⟩⟩

theorem follows_assignAll {defaultLibrary : String} {libraries : Table String String}
    {workers : Option Int} {c : Config} (h : make? defaultLibrary libraries workers = .ok c)
    (calls : List (String × List String)) :
    (c.assignAll calls).Follows (ofTable libraries ++ ofCalls calls) defaultLibrary := by
  obtain ⟨htable, hdefault⟩ := libraries_of_make? h
  obtain ⟨htable', hdefault'⟩ := assignAll_eq htable calls
  exact follows_of_assigned (hdefault'.trans hdefault) htable'

theorem follows_ofOptions? {pairs : List (String × String)} {preferred : Option String}
    {workers : Option Int} {c : Config} (h : ofOptions? pairs preferred workers = .ok c) :
    c.Follows (ofPairs pairs) (defaultName preferred) := by
  obtain ⟨c', hmake, rfl⟩ := ofOptions?_eq_ok_iff.1 h
  have hfollows := follows_assignAll hmake (pairs.map fun p => (p.1, [p.2]))
  rw [ofCalls_pairs] at hfollows
  exact hfollows

/-- **The last assignment counts.**  A configuration can be made from any table of paths and
libraries, if the default library has a name and the number of workers is positive; options can be
followed whenever the number of workers is positive.  Take a configuration that is made from a
table, in the order of its entries, and to which files are assigned afterwards in any calls; or one
that is made from options.  Then every path goes to the library, in lower case, of the last
assignment whose path has the same normal spelling, or to the default library, in lower case, if
there is none; its normal spelling goes to the same library.  The files are listed once each in
their normal spelling, in the order of their first assignments. -/
theorem last_assignment_counts (defaultLibrary : String) (libraries : Table String String)
    (workers : Option Int) (calls : List (String × List String)) (pairs : List (String × String))
    (preferred : Option String) :
    ((∃ c, make? defaultLibrary libraries workers = .ok c) ↔
      defaultLibrary ≠ "" ∧ ∀ n, workers = some n → 1 ≤ n) ∧
    (∀ c, make? defaultLibrary libraries workers = .ok c →
      (c.assignAll calls).Follows (ofTable libraries ++ ofCalls calls) defaultLibrary) ∧
    ((∃ c, ofOptions? pairs preferred workers = .ok c) ↔ ∀ n, workers = some n → 1 ≤ n) ∧
    ∀ c, ofOptions? pairs preferred workers = .ok c →
      c.Follows (ofPairs pairs) (defaultName preferred) :=
  ⟨exists_make?_iff, fun _ h => follows_assignAll h calls, exists_ofOptions?_iff,
    fun _ h => follows_ofOptions? h⟩

/-- A table with two spellings of one path and two calls after it, and options that name a file
twice. -/
theorem last_assignment_counts_sample :
    let table : Table String String := ⟨[("a//b.vhd", "One"), ("./a/b.vhd", "Two")]⟩
    let calls := [("THREE", ["c.vhd", "x/../a/b.vhd"]), ("Four", ["./c.vhd"])]
    (∃ c, make? "Main" table none = .ok c ∧ (c.assignAll calls).libraryFor "a/./b.vhd" = "three" ∧
      (c.assignAll calls).libraryFor "d.vhd" = "main" ∧
      (c.assignAll calls).files = ["a/b.vhd", "c.vhd"]) ∧
    ∃ c, ofOptions? [("L1", "a.vhd"), ("L2", "./a.vhd")] (some "") (some 2) = .ok c ∧
      c.libraryFor "a.vhd" = "l2" ∧ c.libraryFor "b.vhd" = "work" := by
  intro table calls
  obtain ⟨hmade, hfollows, -⟩ := last_assignment_counts "Main" table none calls
    [("L1", "a.vhd"), ("L2", "./a.vhd")] (some "")
  obtain ⟨c, hc⟩ := hmade.2 ⟨by decide, by simp⟩
  obtain ⟨-, -, hoptions, hfollows'⟩ := last_assignment_counts "Main" table (some 2) calls
    [("L1", "a.vhd"), ("L2", "./a.vhd")] (some "")
  obtain ⟨c', hc'⟩ := hoptions.2 fun n hn => by
    obtain rfl : (2 : Int) = n := Option.some.inj hn
    decide
  refine ⟨⟨c, hc, ?_, ?_, ?_⟩, c', hc', ?_, ?_⟩
  · have hlast := (hfollows c hc).last
      [⟨"a//b.vhd", "One"⟩, ⟨"./a/b.vhd", "Two"⟩, ⟨"c.vhd", "THREE"⟩] ⟨"x/../a/b.vhd", "THREE"⟩
      [⟨"./c.vhd", "Four"⟩] "a/./b.vhd" rfl (by decide +kernel) (by decide +kernel)
    rw [hlast]
    decide +kernel
  · rw [(hfollows c hc).unassigned "d.vhd" (by decide +kernel)]
    decide +kernel
  · rw [(hfollows c hc).files]
    decide +kernel
  · have hlast := (hfollows' c' hc').last [⟨"a.vhd", "L1"⟩] ⟨"./a.vhd", "L2"⟩ [] "a.vhd" rfl
      (by decide +kernel) (by simp)
    rw [hlast]
    decide +kernel
  · rw [(hfollows' c' hc').unassigned "b.vhd" (by decide +kernel)]
    decide +kernel

end Config

end VhdlCatalog
