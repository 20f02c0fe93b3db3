import VhdlCatalog.Proofs.CatalogBatches
import VhdlCatalog.Proofs.ConcurrentBuild
import VhdlCatalog.Proofs.LibraryNames

/-!
**A catalog holds the symbols of the files that did not fail, and nothing else.**

A file fails when it cannot be read or scanned, and when one of its units clashes with a unit of an
earlier file in the same library that did not fail.  A file that fails leaves no trace in the
catalog.  This is not because nothing is done for it: a merge makes the library of the file before
it looks at the units.  But the units of one file never clash among themselves, so a file that is
refused clashes with an earlier file, and then the library is there already.

Main definitions:

* `VhdlCatalog.Build.fileUnits` — the units of a file;
* `VhdlCatalog.Build.clashes` — two files that declare the same unit;
* `VhdlCatalog.Build.survivors` — the files that do not fail, in their order;
* `VhdlCatalog.Build.failing` — whether a file fails, given the files before it.

Main results:

* `VhdlCatalog.Build.failing_iff` — when a file fails;
* `VhdlCatalog.Build.takeUp_survivors` — one more file for the catalog of the survivors;
* `VhdlCatalog.Build.catalog_sequential`, `VhdlCatalog.Build.mem_keys_failures` — what a build one
  file after another leaves;
* `VhdlCatalog.Build.catalog_of_survivors` — **exactly the survivors** are in the catalog.
-/

set_option relaxedAutoImplicit false
set_option autoImplicit false

namespace VhdlCatalog

/-! ### Lists -/

section Occurrences

variable {α : Type}

theorem map_snd_occurrences (xs : List α) : (occurrences xs).map Prod.snd = xs := by
  induction xs using List.reverseRecOn with
  | nil => rfl
  | append_singleton xs x ih => rw [occurrences_concat, List.map_append, ih]; rfl

end Occurrences

namespace Build

variable (read : Reader) (config : Config)

/-! ### Files that fail -/

/-- What reading and scanning a file comes to. -/
def fileResult (path : String) : Except Error FileScan :=
  (scanFile read path (config.libraryFor path)).result

/-- The units of a file; none if it cannot be read or scanned. -/
def fileUnits (path : String) : List Symbol :=
  match fileResult read config path with
  | .ok file => file.units
  | .error _ => []

/-- The two files belong to one library and declare a unit of the same kind, name and line. -/
def clashes (path path' : String) : Bool :=
  decide (config.libraryFor path' = config.libraryFor path) &&
    (fileUnits read config path).any fun u =>
      (fileUnits read config path').any fun u' => decide (u.key = u'.key)

/-- The file fails after the files `kept`, which did not. -/
def failsAfter (kept : List String) (path : String) : Bool :=
  !(fileResult read config path).isOk || kept.any (clashes read config path)

/-- The files that do not fail, in their order. -/
def survivors (paths : List String) : List String :=
  paths.foldl (fun kept path =>
    if failsAfter read config kept path then kept else kept ++ [path]) []

/-- The file fails when it comes after the files `before`. -/
def failing (before : List String) (path : String) : Bool :=
  failsAfter read config (survivors read config before) path

theorem survivors_concat (paths : List String) (path : String) :
    survivors read config (paths ++ [path]) =
      if failing read config paths path then survivors read config paths
      else survivors read config paths ++ [path] := by
  rw [survivors, List.foldl_append]
  rfl

/-- The survivors are the files that do not fail after those before them. -/
theorem survivors_eq (paths : List String) :
    survivors read config paths =
      ((occurrences paths).filter fun o => !failing read config o.1 o.2).map Prod.snd := by
  induction paths using List.reverseRecOn with
  | nil => rfl
  | append_singleton paths path ih =>
      rw [survivors_concat, occurrences_concat, List.filter_append, List.map_append, ← ih]
      cases h : failing read config paths path with
      | true => simp [h]
      | false => simp [h]

theorem mem_survivors {paths : List String} {path : String} :
    path ∈ survivors read config paths ↔
      ∃ o ∈ occurrences paths, failing read config o.1 o.2 = false ∧ o.2 = path := by
  rw [survivors_eq, List.mem_map]
  constructor
  · rintro ⟨o, ho, rfl⟩
    obtain ⟨ho, hf⟩ := List.mem_filter.1 ho
    exact ⟨o, ho, by simpa using hf, rfl⟩
  · rintro ⟨o, ho, hf, rfl⟩
    exact ⟨o, List.mem_filter.2 ⟨ho, by simp [hf]⟩, rfl⟩

/-- **When a file fails**: it cannot be read or scanned, or it has a unit of the same kind, name and
line as an earlier file that belongs to the same library and does not fail. -/
theorem failing_iff (before : List String) (path : String) :
    failing read config before path = true ↔
      (∃ e, fileResult read config path = .error e) ∨
      ∃ o ∈ occurrences before, failing read config o.1 o.2 = false ∧
        config.libraryFor o.2 = config.libraryFor path ∧
        ∃ u ∈ fileUnits read config path, ∃ u' ∈ fileUnits read config o.2,
          u.kind = u'.kind ∧ u.declaration.name = u'.declaration.name ∧
          u.declaration.line = u'.declaration.line := by
  have hkey : ∀ u u' : Symbol, u.key = u'.key ↔ u.kind = u'.kind ∧
      u.declaration.name = u'.declaration.name ∧ u.declaration.line = u'.declaration.line := by
    intro u u'
    simp [Symbol.key, Declaration.id]
  rw [failing, failsAfter, Bool.or_eq_true]
  refine or_congr ?_ ?_
  · cases fileResult read config path with
    | ok file => simp [Except.isOk, Except.toBool]
    | error e => simp [Except.isOk, Except.toBool]
  · simp only [List.any_eq_true, clashes, Bool.and_eq_true, decide_eq_true_eq, mem_survivors, hkey]
    constructor
    · rintro ⟨_, ⟨o, ho, hf, rfl⟩, hclash⟩
      exact ⟨o, ho, hf, hclash⟩
    · rintro ⟨o, ho, hf, hclash⟩
      exact ⟨o.2, ⟨o, ho, hf, rfl⟩, hclash⟩

/-- None of the survivors fails when the others are left out. -/
theorem survivors_survivors (paths : List String) :
    survivors read config (survivors read config paths) = survivors read config paths := by
  induction paths using List.reverseRecOn with
  | nil => rfl
  | append_singleton paths path ih =>
      rw [survivors_concat]
      cases h : failing read config paths path with
      | true => simpa using ih
      | false =>
          have hagain : failing read config (survivors read config paths) path = false := by
            rw [failing, ih, ← failing, h]
          simp [survivors_concat, hagain, ih]

/-- When all files survive, none fails. -/
theorem failing_of_survivors_eq {paths : List String} (h : survivors read config paths = paths)
    {o : List String × String} (ho : o ∈ occurrences paths) :
    failing read config o.1 o.2 = false := by
  have hlength : ((occurrences paths).filter fun o => !failing read config o.1 o.2).length =
      (occurrences paths).length := by
    have hmap := congrArg List.length (map_snd_occurrences paths)
    rw [← List.length_map Prod.snd, ← survivors_eq, h]
    simpa using hmap.symm
  have hall := List.length_filter_eq_length_iff.1 hlength o ho
  simpa using hall

/-! ### The catalog of the survivors -/

/-- What a file brings to the catalog. -/
def batchOf (path : String) : Batch := ⟨config.libraryFor path, fileUnits read config path⟩

/-- The task of a file, whatever its place. -/
def taskOf (index : Nat) (path : String) : Task := ⟨index, path, config.libraryFor path⟩

theorem tasks_concat (paths : List String) (path : String) :
    tasks config (paths ++ [path]) = tasks config paths ++ [taskOf config paths.length path] := by
  simp [tasks, taskOf, List.zipIdx_append]

theorem result_taskOf (index : Nat) (path : String) :
    (scanTask read (taskOf config index path)).result =
      (fileResult read config path).mapError (taskError path) :=
  rfl

theorem fits_fileUnits (path : String) : Library.Fits [] (fileUnits read config path) := by
  unfold fileUnits
  split
  · next file h =>
      have htask : (scanTask read (taskOf config 0 path)).result = .ok file := by
        rw [result_taskOf, h]
        rfl
      exact (scanned_of_scanTask htask).2
  · exact Library.fits_nil []

theorem mem_unitsOf {name : String} {kept : List String} {s : Symbol} :
    s ∈ Batch.unitsOf name (kept.map (batchOf read config)) ↔
      ∃ path ∈ kept, config.libraryFor path = name ∧ s ∈ fileUnits read config path := by
  simp [Batch.unitsOf, batchOf, and_assoc]

/-- The units of a file fit into its library unless it clashes with a file before it. -/
theorem fits_survivors (kept : List String) (path : String) :
    Library.Fits (Batch.unitsOf (config.libraryFor path) (kept.map (batchOf read config)))
        (fileUnits read config path) ↔
      kept.any (clashes read config path) = false := by
  have hself := fits_fileUnits read config path
  rw [List.any_eq_false]
  constructor
  · intro hfits path' hpath' hclash
    simp only [clashes, Bool.and_eq_true, decide_eq_true_eq, List.any_eq_true] at hclash
    obtain ⟨hlibrary, u, hu, u', hu', hkey⟩ := hclash
    refine hfits.fresh u hu (hkey ▸ List.mem_map_of_mem ?_)
    exact (mem_unitsOf read config).2 ⟨path', hpath', hlibrary, hu'⟩
  · intro hclear
    refine ⟨hself.units, hself.distinct, fun u hu hmem => ?_⟩
    obtain ⟨u', hu', hkey⟩ := List.mem_map.1 hmem
    obtain ⟨path', hpath', hlibrary, hu'⟩ := (mem_unitsOf read config).1 hu'
    refine hclear path' hpath' ?_
    simp only [clashes, Bool.and_eq_true, decide_eq_true_eq, List.any_eq_true]
    exact ⟨hlibrary, u, hu, u', hu', hkey.symm⟩

variable {config}

/-- **One more file** for the catalog of the survivors: it joins them, or it fails and leaves no
trace. -/
theorem takeUp_survivors (hconfig : config.Built) (kept : List String) (index : Nat)
    (path : String) :
    (failsAfter read config kept path = false ∧
      (Catalog.ofBatches (kept.map (batchOf read config))).takeUp
          (scanTask read (taskOf config index path)).result =
        (.ofBatches ((kept ++ [path]).map (batchOf read config)), none)) ∨
    ∃ e, failsAfter read config kept path = true ∧
      (Catalog.ofBatches (kept.map (batchOf read config))).takeUp
          (scanTask read (taskOf config index path)).result =
        (.ofBatches (kept.map (batchOf read config)), some e) := by
  cases hresult : fileResult read config path with
  | error e =>
      refine Or.inr ⟨taskError path e, ?_, ?_⟩
      · simp [failsAfter, hresult, Except.isOk, Except.toBool]
      · rw [result_taskOf, hresult]
        rfl
  | ok file =>
      have htask : (scanTask read (taskOf config index path)).result = .ok file := by
        rw [result_taskOf, hresult]
        rfl
      have hlibrary : file.library = config.libraryFor path :=
        (scanned_of_scanTask htask).1.trans (hconfig.lowerName_libraryFor path)
      have hunits : file.units = fileUnits read config path := by
        rw [fileUnits, hresult]
      have hfails : failsAfter read config kept path = kept.any (clashes read config path) := by
        simp [failsAfter, hresult, Except.isOk, Except.toBool]
      rw [htask, hfails, Catalog.takeUp, hlibrary, hunits]
      have hfits := fits_survivors read config kept path
      cases hclash : kept.any (clashes read config path) with
      | false =>
          refine Or.inl ⟨rfl, ?_⟩
          rw [List.map_append]
          exact Catalog.addSymbols_of_fits (b := batchOf read config path) (hfits.2 hclash)
      | true =>
          rcases Catalog.addSymbols_ofBatches (kept.map (batchOf read config))
            (batchOf read config path) with ⟨hall, -⟩ | ⟨_, _, _, e, -, -, -, hadd⟩
          · exact absurd (hclash.symm.trans (hfits.1 hall)) Bool.true_eq_false_eq_False
          · refine Or.inr ⟨e, rfl, hadd.trans ?_⟩
            -- the file it clashes with has made the library
            obtain ⟨path', hpath', hclash⟩ := List.any_eq_true.1 hclash
            simp only [clashes, Bool.and_eq_true, decide_eq_true_eq] at hclash
            have hmem : config.libraryFor path ∈ Batch.libraries (kept.map (batchOf read config)) :=
              Batch.mem_libraries.2 ⟨_, List.mem_map_of_mem hpath', hclash.1⟩
            exact congrArg (·, some e) (Catalog.ensure_of_mem hmem)

/-- **The catalog of a build** is that of the survivors. -/
theorem catalog_sequential (hconfig : config.Built) (paths : List String) :
    (sequential read (tasks config paths)).catalog =
      .ofBatches ((survivors read config paths).map (batchOf read config)) := by
  induction paths using List.reverseRecOn with
  | nil => rfl
  | append_singleton paths path ih =>
      rw [tasks_concat, sequential_concat, sequentialStep, catalog_merge, ih, survivors_concat,
        failing]
      rcases takeUp_survivors read hconfig (survivors read config paths) paths.length path with
        ⟨hfails, htake⟩ | ⟨e, hfails, htake⟩
      · rw [htake, hfails, if_neg Bool.false_ne_true]
      · rw [htake, hfails, if_pos rfl]

/-- **The failures of a build** are about the files that fail. -/
theorem mem_keys_failures (hconfig : config.Built) (paths : List String) (path : String) :
    path ∈ (sequential read (tasks config paths)).failures.keys ↔
      ∃ o ∈ occurrences paths, failing read config o.1 o.2 = true ∧ o.2 = path := by
  induction paths using List.reverseRecOn with
  | nil => simp [sequential, tasks, Report.empty, occurrences, occurrencesFrom]
  | append_singleton paths last ih =>
      rw [tasks_concat, sequential_concat, sequentialStep, failures_merge,
        catalog_sequential read hconfig, occurrences_concat]
      rcases takeUp_survivors read hconfig (survivors read config paths) paths.length last with
        ⟨hfails, htake⟩ | ⟨e, hfails, htake⟩
      · have hlast : failing read config paths last = false := hfails
        simp [htake, ih, hlast, or_and_right, exists_or]
      · have hlast : failing read config paths last = true := hfails
        have hpath : path = (taskOf config paths.length last).path ↔ last = path := eq_comm
        rw [htake, Option.map_some, Option.getD_some, Table.mem_keys_put, ih, hpath]
        simp [hlast, or_and_right, exists_or]

/-! ### Builds -/

variable (config)

theorem unitsOf_survivors (paths : List String) (name : String) :
    Batch.unitsOf name ((survivors read config paths).map (batchOf read config)) =
      ((occurrences paths).filter fun o => !failing read config o.1 o.2 &&
        decide (config.libraryFor o.2 = name)).flatMap fun o => fileUnits read config o.2 := by
  rw [survivors_eq, Batch.unitsOf, List.map_map, List.filter_map, List.flatMap_map,
    List.filter_filter]
  simp only [Function.comp_def, batchOf, Bool.and_comm]

variable {config}

/-- **Exactly the survivors are in the catalog.**  An occurrence of a path fails when the file
cannot be read or scanned, or has a unit of the same kind, name and line as an earlier occurrence
that belongs to the same library and does not fail.  The libraries are those of the occurrences that
do not fail; a library has the units of its occurrences that do not fail, in their order and as they
were scanned, and nothing else.  The failures are about the paths that have an occurrence that
fails, and the build is all right exactly when there is none.  So a build of the other occurrences
leaves the same catalog and is all right. -/
theorem catalog_of_survivors (read : Reader) (config : Config) (hconfig : config.Built)
    (paths : List String) :
    (∀ before path, failing read config before path = true ↔
      (∃ e, (scanFile read path (config.libraryFor path)).result = .error e) ∨
      ∃ o ∈ occurrences before, failing read config o.1 o.2 = false ∧
        config.libraryFor o.2 = config.libraryFor path ∧
        ∃ u ∈ fileUnits read config path, ∃ u' ∈ fileUnits read config o.2,
          u.kind = u'.kind ∧ u.declaration.name = u'.declaration.name ∧
          u.declaration.line = u'.declaration.line) ∧
    (∀ name, name ∈ (scanFiles read config paths).catalog.libraryNames ↔
      ∃ o ∈ occurrences paths, failing read config o.1 o.2 = false ∧
        config.libraryFor o.2 = name) ∧
    (∀ name, (scanFiles read config paths).catalog.get? name =
      if ∃ o ∈ occurrences paths, failing read config o.1 o.2 = false ∧ config.libraryFor o.2 = name
      then some (Library.ofUnits name (((occurrences paths).filter fun o =>
        !failing read config o.1 o.2 && decide (config.libraryFor o.2 = name)).flatMap fun o =>
          fileUnits read config o.2))
      else none) ∧
    (∀ path, path ∈ (scanFiles read config paths).failures.keys ↔
      ∃ o ∈ occurrences paths, failing read config o.1 o.2 = true ∧ o.2 = path) ∧
    ((scanFiles read config paths).ok = true ↔
      ∀ o ∈ occurrences paths, failing read config o.1 o.2 = false) ∧
    (scanFiles read config (((occurrences paths).filter fun o =>
        !failing read config o.1 o.2).map Prod.snd)).catalog =
      (scanFiles read config paths).catalog ∧
    (scanFiles read config (((occurrences paths).filter fun o =>
      !failing read config o.1 o.2).map Prod.snd)).ok = true := by
  have hcatalog : ∀ paths, (scanFiles read config paths).catalog =
      .ofBatches ((survivors read config paths).map (batchOf read config)) := fun paths =>
    (agrees_scanFiles read config paths).catalog.trans (catalog_sequential read hconfig paths)
  have hkeys : ∀ paths path, path ∈ (scanFiles read config paths).failures.keys ↔
      ∃ o ∈ occurrences paths, failing read config o.1 o.2 = true ∧ o.2 = path := by
    intro paths path
    rw [(agrees_scanFiles read config paths).failures]
    exact mem_keys_failures read hconfig paths path
  have hmem : ∀ name, name ∈ Batch.libraries ((survivors read config paths).map
      (batchOf read config)) ↔ ∃ o ∈ occurrences paths, failing read config o.1 o.2 = false ∧
        config.libraryFor o.2 = name := by
    intro name
    simp only [Batch.mem_libraries, List.mem_map, mem_survivors]
    constructor
    · rintro ⟨_, ⟨_, ⟨o, ho, hf, rfl⟩, rfl⟩, hname⟩
      exact ⟨o, ho, hf, hname⟩
    · rintro ⟨o, ho, hf, hname⟩
      exact ⟨_, ⟨_, ⟨o, ho, hf, rfl⟩, rfl⟩, hname⟩
  have hok : ∀ paths, (scanFiles read config paths).ok = true ↔
      ∀ o ∈ occurrences paths, failing read config o.1 o.2 = false := by
    intro paths
    rw [Report.ok_iff, List.eq_nil_iff_forall_not_mem]
    simp only [hkeys paths]
    constructor
    · intro h o ho
      rw [← Bool.not_eq_true]
      exact fun hf => h o.2 ⟨o, ho, hf, rfl⟩
    · rintro h _ ⟨o, ho, hf, rfl⟩
      rw [h o ho] at hf
      cases hf
  refine ⟨failing_iff read config, fun name => ?_, fun name => ?_, hkeys paths, hok paths, ?_, ?_⟩
  · rw [hcatalog, Catalog.libraryNames, Catalog.keys_ofBatches, sortNames, List.mem_mergeSort, hmem]
  · rw [hcatalog, Catalog.get?_ofBatches, unitsOf_survivors]
    exact if_congr (hmem name) rfl rfl
  · rw [← survivors_eq, hcatalog, hcatalog, survivors_survivors]
  · rw [← survivors_eq, hok]
    exact fun o ho => failing_of_survivors_eq read config (survivors_survivors read config paths) ho

/-- Of four occurrences only the first does not fail: the second declares an entity that the first
has declared, the third cannot be read, and the fourth is the first again. -/
theorem catalog_of_survivors_sample :
    let config : Config := ⟨"work", .empty, none⟩
    let paths := ["a.vhd", "b.vhd", "c.vhd", "a.vhd"]
    config.Built ∧
    ((occurrences paths).filter fun o => !failing sampleFiles config o.1 o.2).map Prod.snd =
      ["a.vhd"] ∧
    "work" ∈ (scanFiles sampleFiles config paths).catalog.libraryNames ∧
    "a.vhd" ∈ (scanFiles sampleFiles config paths).failures.keys ∧
    (scanFiles sampleFiles config ["a.vhd"]).catalog =
      (scanFiles sampleFiles config paths).catalog ∧
    (scanFiles sampleFiles config ["a.vhd"]).ok = true := by
  intro config paths
  have hname : Config.lowerName "Work" = "work" := by decide +kernel
  have hmake : Config.make? "Work" .empty none = .ok config := by
    simp only [Config.make?, hname]
    rfl
  have hbuilt : config.Built := .make hmake
  have hkept : ((occurrences paths).filter fun o =>
      !failing sampleFiles config o.1 o.2).map Prod.snd = ["a.vhd"] := by
    decide +kernel
  have hfirst : failing sampleFiles config [] "a.vhd" = false := by decide +kernel
  have hlast : failing sampleFiles config ["a.vhd", "b.vhd", "c.vhd"] "a.vhd" = true := by
    decide +kernel
  obtain ⟨-, hlibraries, -, hfailures, -, hcatalog, hok⟩ :=
    catalog_of_survivors sampleFiles config hbuilt paths
  rw [hkept] at hcatalog hok
  refine ⟨hbuilt, hkept, (hlibraries "work").2 ⟨([], "a.vhd"), ?_, hfirst, rfl⟩,
    (hfailures "a.vhd").2 ⟨(["a.vhd", "b.vhd", "c.vhd"], "a.vhd"), ?_, hlast, rfl⟩, hcatalog, hok⟩
  · simp [paths, occurrences, occurrencesFrom]
  · simp [paths, occurrences, occurrencesFrom]

end Build

end VhdlCatalog
