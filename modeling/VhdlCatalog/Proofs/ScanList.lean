import VhdlCatalog.CommandLine.Doc
import VhdlCatalog.Proofs.Assignments

/-!
**A request scans every file that it names once.**

A request names files as such and together with a library, and may name a file both ways and in
several spellings.  The files that are named as such are kept as they are first spelled, those that
are named with a library come in their normal spelling, and the normal spelling tells whether a file
has been named before.  Since a normal spelling is its own, it does not matter which of the two
spellings is looked at.

Main definitions:

* `VhdlCatalog.CommandLine.firstSpellings` — the paths that lead to a file for the first time.

Main results:

* `VhdlCatalog.CommandLine.distinct_eq` — the search with the files seen so far finds these paths;
* `VhdlCatalog.CommandLine.map_normalize_firstSpellings` — every file is found once;
* `VhdlCatalog.CommandLine.firstSpellings_append` — paths after others;
* `VhdlCatalog.CommandLine.scanList_once` — **every file that is named is scanned once**.
-/

set_option relaxedAutoImplicit false
set_option autoImplicit false

namespace VhdlCatalog.CommandLine

/-! ### First spellings -/

/-- The paths that lead to a file to which no path before them leads. -/
def firstSpellings (paths : List String) : List String :=
  ((occurrences paths).filter fun o =>
    decide (Path.normalize o.2 ∉ o.1.map Path.normalize)).map Prod.snd

/-- The search for paths, after the paths `before`, finds those that lead to a new file. -/
theorem distinct_from {seen before : List String} (paths : List String)
    (hseen : ∀ file, file ∈ seen ↔ file ∈ before.map Path.normalize) :
    DocRequest.distinct seen paths =
      ((occurrencesFrom before paths).filter fun o =>
        decide (Path.normalize o.2 ∉ o.1.map Path.normalize)).map Prod.snd := by
  induction paths generalizing seen before with
  | nil => rfl
  | cons path paths ih =>
      simp only [DocRequest.distinct, occurrencesFrom, List.contains_eq_mem, decide_eq_true_eq]
      by_cases hpath : Path.normalize path ∈ seen
      · have hold : Path.normalize path ∈ before.map Path.normalize := (hseen _).1 hpath
        have hseen' : ∀ file, file ∈ seen ↔ file ∈ (before ++ [path]).map Path.normalize := by
          intro file
          rw [List.map_append, List.mem_append, hseen, List.map_singleton, List.mem_singleton]
          exact ⟨Or.inl, fun h => h.elim id fun h => h ▸ hold⟩
        rw [if_pos hpath, List.filter_cons_of_neg (by simpa using hold), ih hseen']
      · have hnew : Path.normalize path ∉ before.map Path.normalize :=
          fun h => hpath ((hseen _).2 h)
        have hseen' : ∀ file, file ∈ Path.normalize path :: seen ↔
            file ∈ (before ++ [path]).map Path.normalize := by
          intro file
          rw [List.map_append, List.mem_append, List.mem_cons, hseen, List.map_singleton,
            List.mem_singleton]
          exact or_comm
        rw [if_neg hpath, List.filter_cons_of_pos (by simpa using hnew), ih hseen', List.map_cons]

theorem distinct_eq (paths : List String) : DocRequest.distinct [] paths = firstSpellings paths :=
  distinct_from paths fun _ => by simp

/-- **One more path** is found if it leads to a new file. -/
theorem firstSpellings_concat (paths : List String) (path : String) :
    firstSpellings (paths ++ [path]) =
      firstSpellings paths ++
        if Path.normalize path ∈ paths.map Path.normalize then [] else [path] := by
  rw [firstSpellings, occurrences_concat, List.filter_append, List.map_append, ← firstSpellings]
  congr 1
  by_cases h : Path.normalize path ∈ paths.map Path.normalize
  · rw [if_pos h, List.filter_cons_of_neg (by simpa using h)]
    rfl
  · rw [if_neg h, List.filter_cons_of_pos (by simpa using h)]
    rfl

/-- **Every file is found once**, in the order in which the files are first named. -/
theorem map_normalize_firstSpellings (paths : List String) :
    (firstSpellings paths).map Path.normalize = (paths.map Path.normalize).eraseDups := by
  induction paths using List.reverseRecOn with
  | nil => rfl
  | append_singleton paths path ih =>
      rw [firstSpellings_concat, List.map_append, ih, List.map_append, List.map_singleton,
        eraseDups_concat]
      by_cases h : Path.normalize path ∈ paths.map Path.normalize
      · rw [if_pos h, if_pos h, List.map_nil, List.append_nil]
      · rw [if_neg h, if_neg h, List.map_singleton]

/-- **Paths after others**: those are found that lead to a file which the others do not name. -/
theorem firstSpellings_append (paths more : List String) :
    firstSpellings (paths ++ more) = firstSpellings paths ++
      (firstSpellings more).filter fun path =>
        decide (Path.normalize path ∉ paths.map Path.normalize) := by
  induction more using List.reverseRecOn with
  | nil => rw [List.append_nil]; exact (List.append_nil _).symm
  | append_singleton more path ih =>
      rw [← List.append_assoc, firstSpellings_concat, ih, firstSpellings_concat, List.filter_append,
        List.append_assoc, List.map_append]
      congr 2
      by_cases hold : Path.normalize path ∈ paths.map Path.normalize
      · rw [if_pos (List.mem_append_left _ hold)]
        split
        · rfl
        · rw [List.filter_cons_of_neg (by simpa using hold)]
          rfl
      · by_cases hmore : Path.normalize path ∈ more.map Path.normalize
        · rw [if_pos (List.mem_append_right _ hmore), if_pos hmore]
          rfl
        · rw [if_neg fun h => (List.mem_append.1 h).elim hold hmore, if_neg hmore,
            List.filter_cons_of_pos (by simpa using hold)]
          rfl

/-- Paths that all lead to different files are all found. -/
theorem firstSpellings_of_nodup {paths : List String} (h : (paths.map Path.normalize).Nodup) :
    firstSpellings paths = paths := by
  induction paths using List.reverseRecOn with
  | nil => rfl
  | append_singleton paths path ih =>
      rw [List.map_append, List.nodup_append, List.map_singleton] at h
      obtain ⟨hpaths, -, hapart⟩ := h
      have hnew : Path.normalize path ∉ paths.map Path.normalize := fun hmem =>
        hapart _ hmem _ (List.mem_singleton_self _) rfl
      rw [firstSpellings_concat, ih hpaths, if_neg hnew]

/-! ### The files of a request -/

theorem map_normalize_files {config : Config} {as : List Assignment} {defaultLibrary : String}
    (h : config.Follows as defaultLibrary) : config.files.map Path.normalize = config.files :=
  (List.map_congr_left h.normal).trans (List.map_id _)

/-- The files that a configuration lists are found as they are. -/
theorem firstSpellings_files {config : Config} {as : List Assignment} {defaultLibrary : String}
    (h : config.Follows as defaultLibrary) : firstSpellings config.files = config.files := by
  refine firstSpellings_of_nodup ?_
  rw [map_normalize_files h]
  exact h.nodup

theorem scanList_eq (r : DocRequest) {config : Config} {defaultLibrary : String}
    (h : config.Follows (Assignment.ofPairs r.libraries) defaultLibrary) :
    r.scanList config = firstSpellings r.files ++
      ((r.libraries.map fun p => Path.normalize p.2).eraseDups.filter fun file =>
        decide (file ∉ r.files.map Path.normalize)) := by
  have hfiles : config.files = (r.libraries.map fun p => Path.normalize p.2).eraseDups := by
    rw [h.files, Assignment.ofPairs, List.map_map]
    rfl
  have hnormal : (config.files.filter fun file =>
      decide (Path.normalize file ∉ r.files.map Path.normalize)) =
      config.files.filter fun file => decide (file ∉ r.files.map Path.normalize) :=
    List.filter_congr fun file hfile => by rw [h.normal file hfile]
  rw [DocRequest.scanList, distinct_eq, firstSpellings_append, firstSpellings_files h, hnormal,
    hfiles]

theorem count_scanList (r : DocRequest) {config : Config} {defaultLibrary : String}
    (h : config.Follows (Assignment.ofPairs r.libraries) defaultLibrary) (file : String) :
    ((r.scanList config).map Path.normalize).count file =
      if file ∈ (r.files ++ r.libraries.map Prod.snd).map Path.normalize then 1 else 0 := by
  have hnamed : file ∈ (r.files ++ config.files).map Path.normalize ↔
      file ∈ (r.files ++ r.libraries.map Prod.snd).map Path.normalize := by
    rw [List.map_append, List.map_append, List.mem_append, List.mem_append, map_normalize_files h,
      h.files, List.mem_eraseDups, Assignment.ofPairs, List.map_map, List.map_map]
    rfl
  rw [DocRequest.scanList, distinct_eq, map_normalize_firstSpellings]
  split
  · next hmem =>
      exact List.count_eq_one_of_mem (nodup_eraseDups _) (List.mem_eraseDups.2 (hnamed.2 hmem))
  · next hmem =>
      exact List.count_eq_zero.2 fun h => hmem (hnamed.1 (List.mem_eraseDups.1 h))

/-- **Every file that is named is scanned once.**  Let a request, if it asks for a number of
workers, ask for a positive one.  Then it has a configuration, and of the paths that are scanned
exactly one leads to each file that the request names, as such or with a library, and none to
another file.  First come those named as such, in the order in which the files are first named and
as they are spelled there; then those only named with a library, in the order of the first
assignments.  Every path goes to the library, in lower case, of the last pair that names its file in
any spelling, or else to the default library. -/
theorem scanList_once (r : DocRequest) (hworkers : ∀ n, r.workers = .given n → 1 ≤ n) :
    ∃ config, r.config = .ok config ∧
      (∀ file, ((r.scanList config).map Path.normalize).count file =
        if file ∈ (r.files ++ r.libraries.map Prod.snd).map Path.normalize then 1 else 0) ∧
      r.scanList config = firstSpellings r.files ++
        ((r.libraries.map fun p => Path.normalize p.2).eraseDups.filter fun file =>
          decide (file ∉ r.files.map Path.normalize)) ∧
      (∀ path ∈ r.scanList config, ∀ before pair after, r.libraries = before ++ pair :: after →
        Path.normalize pair.2 = Path.normalize path →
        (∀ p ∈ after, Path.normalize p.2 ≠ Path.normalize path) →
        config.libraryFor path = Config.lowerName pair.1) ∧
      ∀ path ∈ r.scanList config, (∀ p ∈ r.libraries, Path.normalize p.2 ≠ Path.normalize path) →
        config.libraryFor path =
          Config.lowerName (Config.defaultName r.defaultLibrary.value?) := by
  have hpositive : ∀ n, r.workers.value? = some n → 1 ≤ n := by
    intro n hn
    cases hr : r.workers with
    | unset => rw [hr] at hn; cases hn
    | blank => rw [hr] at hn; cases hn
    | given m =>
        rw [hr] at hn
        obtain rfl : m = n := Option.some.inj hn
        exact hworkers m hr
  obtain ⟨config, hconfig⟩ := Config.exists_ofOptions?_iff.2 hpositive
  have hfollows := Config.follows_ofOptions? hconfig
  refine ⟨config, hconfig, count_scanList r hfollows, scanList_eq r hfollows, ?_, ?_⟩
  · intro path _ before pair after hpairs hpair hafter
    have hsplit : Assignment.ofPairs r.libraries =
        Assignment.ofPairs before ++ ⟨pair.2, pair.1⟩ :: Assignment.ofPairs after := by
      simp [Assignment.ofPairs, hpairs]
    have hafter' : ∀ a ∈ Assignment.ofPairs after, Path.normalize a.path ≠ Path.normalize path := by
      intro a ha
      obtain ⟨p, hp, rfl⟩ := List.mem_map.1 ha
      exact hafter p hp
    exact hfollows.last (Assignment.ofPairs before) ⟨pair.2, pair.1⟩ (Assignment.ofPairs after)
      path hsplit hpair hafter'
  · intro path _ hpairs
    refine hfollows.unassigned path fun a ha => ?_
    obtain ⟨p, hp, rfl⟩ := List.mem_map.1 ha
    exact hpairs p hp

/-- A request that names one file in three spellings, one of them with a library, and another file
with two libraries. -/
theorem scanList_once_sample :
    let r : DocRequest := ⟨["a//b.vhd", "x.vhd", "a/b.vhd"],
      [("One", "y.vhd"), ("Two", "./a/b.vhd"), ("Three", "./y.vhd")], .unset, .given 2, .unset,
      false⟩
    ∃ config, r.config = .ok config ∧ r.scanList config = ["a//b.vhd", "x.vhd", "y.vhd"] ∧
      ((r.scanList config).map Path.normalize).count "a/b.vhd" = 1 ∧
      config.libraryFor "a//b.vhd" = "two" ∧ config.libraryFor "x.vhd" = "work" ∧
      config.libraryFor "y.vhd" = "three" := by
  intro r
  obtain ⟨config, hconfig, hcount, hlist, hlast, hdefault⟩ := scanList_once r fun n hn => by
    cases hn
    decide
  have hpaths : r.scanList config = ["a//b.vhd", "x.vhd", "y.vhd"] := by
    rw [hlist]
    decide +kernel
  rw [hpaths] at hlast hdefault
  refine ⟨config, hconfig, hpaths, ?_, ?_, ?_, ?_⟩
  · rw [hcount]
    decide +kernel
  · rw [hlast "a//b.vhd" (by simp) [("One", "y.vhd")] ("Two", "./a/b.vhd") [("Three", "./y.vhd")]
      rfl (by decide +kernel) (by decide +kernel)]
    decide +kernel
  · rw [hdefault "x.vhd" (by simp) (by decide +kernel)]
    decide +kernel
  · rw [hlast "y.vhd" (by simp) [("One", "y.vhd"), ("Two", "./a/b.vhd")] ("Three", "./y.vhd") [] rfl
      (by decide +kernel) (by simp)]
    decide +kernel

end VhdlCatalog.CommandLine
