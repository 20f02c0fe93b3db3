import Mathlib.Data.List.Forall2
import VhdlCatalog.CommandLine.Doc
import VhdlCatalog.Proofs.CatalogBatches
import VhdlCatalog.Proofs.ConcurrentBuild

/-!
**The order of insertion is invisible.**

Symbols can be put into a catalog in any order.  Whether one of them is refused does not depend on
the order, and when none is, no answer of the catalog does: libraries are shown by name, and their
units in an order that the units themselves decide.

Main definitions:

* `VhdlCatalog.Insertion`, `VhdlCatalog.Insertion.runAll` — calls that fill a catalog;
* `VhdlCatalog.Library.SameAnswers`, `VhdlCatalog.Catalog.SameAnswers` — what consumers can see of a
  library, and of a catalog.

Main results:

* `VhdlCatalog.Insertion.runAll_eq` — calls that all succeed leave the catalog of their batches;
* `VhdlCatalog.Catalog.sameAnswers_ofBatches` — batches in another order, same answers;
* `VhdlCatalog.Catalog.SameAnswers.resolve`, `VhdlCatalog.Catalog.SameAnswers.identities`,
  `VhdlCatalog.Catalog.SameAnswers.outline` — all other answers follow;
* `VhdlCatalog.Build.ok_sequential_iff` — a build that is all right is a run of such calls;
* `VhdlCatalog.insertion_order_invisible` — **the order of insertion is invisible**, for calls and
  for the files of a build.
-/

set_option relaxedAutoImplicit false
set_option autoImplicit false

namespace VhdlCatalog

open Source

/-! ### Calls -/

/-- A call that brings symbols to a catalog. -/
inductive Insertion where
  /-- One symbol for a library. -/
  | symbol (library : String) (symbol : Symbol)
  /-- The symbols of a file. -/
  | file (file : FileScan)

namespace Insertion

/-- What the call brings. -/
def batch : Insertion → Batch
  | symbol library s => ⟨library, [s]⟩
  | file f => ⟨f.library, f.units⟩

/-- Makes the call. -/
def run (c : Catalog) : Insertion → Catalog × Option Error
  | symbol library s => c.addSymbol library s
  | file f => c.addSymbols f.library f.units

/-- Makes a call after others, and notes its error. -/
def next (state : Catalog × List Error) (call : Insertion) : Catalog × List Error :=
  let (c, e?) := call.run state.1
  (c, state.2 ++ e?.toList)

/-- Makes calls one after another on an empty catalog: the catalog after them, and all errors. -/
def runAll (calls : List Insertion) : Catalog × List Error := calls.foldl next (.empty, [])

theorem run_eq (c : Catalog) (call : Insertion) :
    call.run c = c.addSymbols call.batch.library call.batch.symbols := by
  cases call with
  | symbol library s => exact c.addSymbol_eq_addSymbols library s
  | file f => rfl

theorem runAll_concat (calls : List Insertion) (call : Insertion) :
    runAll (calls ++ [call]) = next (runAll calls) call := by
  simp [runAll]

/-- **All calls succeed** exactly when their batches are compatible, and then leave their
catalog. -/
theorem runAll_eq (calls : List Insertion) :
    ((runAll calls).2 = [] ↔ Batch.Compatible (calls.map batch)) ∧
    ((runAll calls).2 = [] → (runAll calls).1 = .ofBatches (calls.map batch)) := by
  induction calls using List.reverseRecOn with
  | nil => exact ⟨⟨fun _ => Batch.compatible_nil, fun _ => rfl⟩, fun _ => rfl⟩
  | append_singleton calls call ih =>
      obtain ⟨ihok, ihcatalog⟩ := ih
      rw [runAll_concat, List.map_append, List.map_singleton, Batch.compatible_concat, next, run_eq]
      by_cases hok : (runAll calls).2 = []
      · rw [ihcatalog hok, hok]
        rcases Catalog.addSymbols_ofBatches (calls.map batch) call.batch with
          ⟨hfits, hadd⟩ | ⟨as, s, bs, e, hsplit, has, hs, hadd⟩
        · rw [hadd]
          exact ⟨⟨fun _ => ⟨ihok.1 hok, hfits⟩, fun _ => rfl⟩, fun _ => rfl⟩
        · rw [hadd]
          refine ⟨⟨fun h => ?_, fun h => ?_⟩, fun h => ?_⟩
          · cases h
          · exact absurd h.2 (Library.not_fits_of_refusal hsplit hs)
          · cases h
      · refine ⟨⟨fun h => ?_, fun h => absurd (ihok.2 h.1) hok⟩, fun h => ?_⟩
        · exact absurd (List.append_eq_nil_iff.1 h).1 hok
        · exact absurd (List.append_eq_nil_iff.1 h).1 hok

end Insertion

/-! ### Answers -/

theorem map_eq_map_of_forall₂ {α β : Type} {R : α → α → Prop} {f : α → β} {xs ys : List α}
    (h : List.Forall₂ R xs ys) (hf : ∀ x y, R x y → f x = f y) : xs.map f = ys.map f := by
  induction h with
  | nil => rfl
  | cons hxy _ ih => rw [List.map_cons, List.map_cons, hf _ _ hxy, ih]

/-- Consumers cannot tell the two libraries apart. -/
structure Library.SameAnswers (lib lib' : Library) : Prop where
  name : lib.name = lib'.name
  units : lib.units = lib'.units
  named : ∀ unit, lib.named unit = lib'.named unit
  entityNames : lib.entityNames = lib'.entityNames
  packageNames : lib.packageNames = lib'.packageNames

/-- Consumers find the same libraries in the two catalogs. -/
structure Catalog.SameAnswers (c c' : Catalog) : Prop where
  libraryNames : c.libraryNames = c'.libraryNames
  libraries : ∀ name, Option.Rel Library.SameAnswers (c.get? name) (c'.get? name)

namespace Catalog

/-- **Batches in another order** give the same answers. -/
theorem sameAnswers_ofBatches {bs bs' : List Batch} (h : Batch.Compatible bs) (hp : bs.Perm bs') :
    (ofBatches bs).SameAnswers (ofBatches bs') where
  libraryNames := by
    rw [Catalog.libraryNames, Catalog.libraryNames, keys_ofBatches, keys_ofBatches]
    exact sortNames_eq_of_perm (Batch.libraries_perm hp)
  libraries name := by
    rw [get?_ofBatches, get?_ofBatches]
    have hunits := Batch.unitsOf_perm hp name
    have hkeys := (h name).distinct
    by_cases hname : name ∈ Batch.libraries bs
    · rw [if_pos hname, if_pos ((Batch.libraries_perm hp).mem_iff.1 hname)]
      exact .some ⟨rfl, Library.units_perm hkeys hunits, Library.named_perm hkeys hunits,
        Library.entityNames_perm hunits, Library.packageNames_perm hunits⟩
    · rw [if_neg hname, if_neg fun h => hname ((Batch.libraries_perm hp).mem_iff.2 h)]
      exact .none

namespace SameAnswers

variable {c c' : Catalog}

theorem sorted (h : c.SameAnswers c') :
    List.Forall₂ Library.SameAnswers c.sorted c'.sorted := by
  rw [Catalog.sorted, Catalog.sorted, ← h.libraryNames]
  refine List.rel_filterMap (R := Eq) (fun name _ heq => heq ▸ h.libraries name) ?_
  exact List.forall₂_same.2 fun _ _ => rfl

/-- What is found out library by library is the same. -/
theorem map_sorted {α : Type} {f : Library → α} (h : c.SameAnswers c')
    (hf : ∀ lib lib', lib.SameAnswers lib' → f lib = f lib') : c.sorted.map f = c'.sorted.map f :=
  map_eq_map_of_forall₂ h.sorted hf

theorem resolveIn {lib lib' : Library} (h : lib.SameAnswers lib') (parts : List String) :
    Catalog.resolveIn lib parts = Catalog.resolveIn lib' parts := by
  unfold Catalog.resolveIn
  split
  · exact h.named _
  · rw [h.named]
  · rfl

/-- **Paths** stand for the same symbols, in the same order. -/
theorem resolve (h : c.SameAnswers c') (path : String) : c.resolve path = c'.resolve path := by
  unfold Catalog.resolve
  split
  · rfl
  · next first rest _ =>
      have hfirst := h.libraries first
      cases hc : c.get? first with
      | none =>
          rw [hc] at hfirst
          cases hc' : c'.get? first with
          | none =>
              simp only [List.flatMap_def]
              rw [h.map_sorted fun lib lib' hlib => resolveIn hlib (first :: rest)]
          | some lib' =>
              rw [hc'] at hfirst
              cases hfirst
      | some lib =>
          rw [hc] at hfirst
          cases hc' : c'.get? first with
          | none =>
              rw [hc'] at hfirst
              cases hfirst
          | some lib' =>
              rw [hc'] at hfirst
              cases hfirst with
              | some hlib => exact resolveIn hlib rest

/-- **Identities** are the same. -/
theorem identities (h : c.SameAnswers c') : c.identities = c'.identities := by
  unfold Catalog.identities
  simp only [List.flatMap_def]
  rw [h.map_sorted fun lib lib' hlib => by rw [hlib.units, hlib.name]]

/-- **The outline** is the same. -/
theorem outline (h : c.SameAnswers c') : c.outline = c'.outline :=
  h.map_sorted fun lib lib' hlib => by rw [hlib.units, hlib.name]

/-- **Everything written for the catalog** is the same. -/
theorem renderCatalog (h : c.SameAnswers c') (r : Renderer) :
    r.renderCatalog c = r.renderCatalog c' := by
  cases r with
  | plain style =>
      simp only [Renderer.renderCatalog, PlainStyle.renderCatalog, PlainStyle.catalogLines,
        h.outline]
  | pages title => simp only [Renderer.renderCatalog, Page.catalog, h.outline]

end SameAnswers

end Catalog

/-- Calls in another order: none fails there either, and the answers are the same. -/
theorem Insertion.sameAnswers_of_perm {calls calls' : List Insertion} (hp : calls.Perm calls')
    (hok : (runAll calls).2 = []) :
    (runAll calls').2 = [] ∧ (runAll calls).1.SameAnswers (runAll calls').1 := by
  obtain ⟨hok_iff, hcatalog⟩ := runAll_eq calls
  obtain ⟨hok_iff', hcatalog'⟩ := runAll_eq calls'
  have hbatches := hp.map batch
  have hcompatible := hok_iff.1 hok
  have hok' := hok_iff'.2 (hcompatible.perm hbatches)
  refine ⟨hok', ?_⟩
  rw [hcatalog hok, hcatalog' hok']
  exact Catalog.sameAnswers_ofBatches hcompatible hbatches

/-! ### Builds -/

namespace Build

variable {read : Reader}

/-- The files among the results of tasks. -/
def scannedFiles (results : List (Except Error FileScan)) : List FileScan :=
  results.filterMap Except.toOption

/-- The calls that a build makes for the results of its tasks. -/
def callsFor (results : List (Except Error FileScan)) : List Insertion :=
  (scannedFiles results).map Insertion.file

theorem callsFor_concat (results : List (Except Error FileScan)) (result : Except Error FileScan) :
    callsFor (results ++ [result]) =
      callsFor results ++ (result.toOption.map Insertion.file).toList := by
  cases result with
  | error e => simp [callsFor, scannedFiles, Except.toOption]
  | ok file => simp [callsFor, scannedFiles, Except.toOption]

/-- **A build that is all right** is a run of calls, one for each file, none of which fails. -/
theorem ok_sequential_iff (read : Reader) (ts : List Task) :
    let results := ts.map fun t => (scanTask read t).result
    ((sequential read ts).ok = true ↔
      (∀ result ∈ results, result.isOk = true) ∧ (Insertion.runAll (callsFor results)).2 = []) ∧
    ((sequential read ts).ok = true →
      (sequential read ts).catalog = (Insertion.runAll (callsFor results)).1) := by
  induction ts using List.reverseRecOn with
  | nil => exact ⟨⟨fun _ => ⟨by simp, rfl⟩, fun _ => rfl⟩, fun _ => rfl⟩
  | append_singleton ts t ih =>
      obtain ⟨ihok, ihcatalog⟩ := ih
      simp only [sequential_concat, sequentialStep, ok_merge, catalog_merge, List.map_append,
        List.map_singleton, callsFor_concat, List.forall_mem_append, List.forall_mem_singleton]
      have hlog : (Report.mk (sequential read ts).catalog (sequential read ts).failures
          ((sequential read ts).log ++ (scanTask read t).log)).ok = (sequential read ts).ok := rfl
      rw [hlog]
      cases (scanTask read t).result with
      | error e => simp [Catalog.takeUp, Except.isOk, Except.toBool]
      | ok file =>
          simp only [Except.toOption, Option.map_some, Option.toList_some, Insertion.runAll_concat,
            Insertion.next, Insertion.run, Catalog.takeUp, Except.isOk, Except.toBool, and_true]
          constructor
          · constructor
            · rintro ⟨hok, htake⟩
              rw [ihcatalog hok] at htake
              exact ⟨(ihok.1 hok).1, by simp [(ihok.1 hok).2, htake]⟩
            · rintro ⟨hall, herrors⟩
              obtain ⟨hbefore, htake⟩ := List.append_eq_nil_iff.1 herrors
              have hok := ihok.2 ⟨hall, hbefore⟩
              exact ⟨hok, by simpa [ihcatalog hok] using htake⟩
          · rintro ⟨hok, -⟩
            rw [ihcatalog hok]

/-- What the task of a file yields; its place does not matter. -/
def resultOf (read : Reader) (config : Config) (path : String) : Except Error FileScan :=
  (scanTask read ⟨0, path, config.libraryFor path⟩).result

theorem map_result_tasks (read : Reader) (config : Config) (paths : List String) :
    (tasks config paths).map (fun t => (scanTask read t).result) =
      paths.map (resultOf read config) := by
  have hfst : (paths.zipIdx.map Prod.fst).map (resultOf read config) =
      paths.map (resultOf read config) := by
    rw [List.zipIdx_map_fst]
  rw [← hfst, tasks, List.map_map, List.map_map]
  rfl

/-- Files in another order: the build is all right there too, and the answers are the same. -/
theorem sameAnswers_of_perm {config : Config} {paths paths' : List String}
    (hp : paths.Perm paths') (hok : (scanFiles read config paths).ok = true) :
    (scanFiles read config paths').ok = true ∧
      (scanFiles read config paths).catalog.SameAnswers (scanFiles read config paths').catalog := by
  have hagrees := agrees_scanFiles read config paths
  have hagrees' := agrees_scanFiles read config paths'
  obtain ⟨hok_iff, hcatalog⟩ := ok_sequential_iff read (tasks config paths)
  obtain ⟨hok_iff', hcatalog'⟩ := ok_sequential_iff read (tasks config paths')
  rw [map_result_tasks] at hok_iff hcatalog hok_iff' hcatalog'
  have hresults := hp.map (resultOf read config)
  have hseq : (sequential read (tasks config paths)).ok = true := hagrees.ok.symm.trans hok
  obtain ⟨hall, herrors⟩ := hok_iff.1 hseq
  obtain ⟨herrors', hsame⟩ := Insertion.sameAnswers_of_perm
    ((hresults.filterMap Except.toOption).map Insertion.file) herrors
  have hseq' := hok_iff'.2 ⟨fun result h => hall result (hresults.mem_iff.2 h), herrors'⟩
  refine ⟨hagrees'.ok.trans hseq', ?_⟩
  rw [hagrees.catalog, hagrees'.catalog]
  exact (hcatalog hseq).symm ▸ (hcatalog' hseq').symm ▸ hsame

theorem ok_of_perm {config : Config} {paths paths' : List String} (hp : paths.Perm paths') :
    (scanFiles read config paths).ok = (scanFiles read config paths').ok := by
  rw [Bool.eq_iff_iff]
  exact ⟨fun h => (sameAnswers_of_perm hp h).1, fun h => (sameAnswers_of_perm hp.symm h).1⟩

end Build

/-! ### What is reported -/

/-- Nothing serious is reported. -/
def Quiet (log : List Event) : Prop := ∀ e ∈ log, e.severity = .debug

theorem Quiet.append {log log' : List Event} (h : Quiet log) (h' : Quiet log') :
    Quiet (log ++ log') :=
  List.forall_mem_append.2 ⟨h, h'⟩

theorem Quiet.shown {log : List Event} (h : Quiet log) : shown false log = [] := by
  refine List.filter_eq_nil_iff.2 fun e he => ?_
  simp [h e he]

namespace Scan

variable {t : Target} {s : Progress}

theorem quiet_memberLine (h : Quiet s.log) (p : Package) (m : OpenMember) (l : CodeLine) :
    Quiet (memberLine t s p m l).log := by
  unfold memberLine
  split
  · exact h
  · next m' _ =>
      have hmembers : Quiet ((m'.members t p.declaration.qualifiedName l.stop).map fun member =>
          declaredEvent (.member m'.opening.form) member.declaration) := by
        intro e he
        obtain ⟨member, -, rfl⟩ := List.mem_map.1 he
        rfl
      dsimp only
      split
      · exact h.append hmembers
      · exact h.append hmembers

theorem quiet_step (h : Quiet s.log) (l : CodeLine) : Quiet (step t s l).log := by
  unfold step
  split
  · unfold outsideLine
    repeat' split
    all_goals exact h
  · unfold entityLine
    split
    · exact h.append (by simp [Quiet, declaredEvent, Event.severity])
    · exact h
  · split
    · exact quiet_memberLine h _ _ l
    · unfold packageLine
      split
      · exact h.append (by simp [Quiet, Event.severity])
      · exact h
  · exact quiet_memberLine h _ _ l
  · exact h

theorem quiet_run (h : Quiet s.log) (ls : List CodeLine) : Quiet (run t s ls).log := by
  induction ls generalizing s with
  | nil => exact h
  | cons l ls ih => exact ih (quiet_step h l)

end Scan

theorem quiet_scanSource (filepath library : String) (data : Bytes) :
    Quiet (scanSource filepath library data).log := by
  have hstart : Quiet Scan.Progress.start.log := fun e he => by cases he
  have hrun := Scan.quiet_run (t := .ofFile filepath library) hstart (codeLines data)
  simp only [scanSource]
  split
  · exact hrun.append (by simp [Quiet, Event.severity])
  · exact hrun

namespace Build

theorem quiet_scanTask (read : Reader) (t : Task) : Quiet (scanTask read t).log := by
  have hscan : Quiet (scanFile read t.path t.library).log := by
    unfold scanFile
    split
    · next data _ => exact quiet_scanSource t.path t.library data
    · exact fun e he => by cases he
  exact List.forall_mem_cons.2 ⟨rfl, hscan⟩

/-- Merging reports nothing serious as long as the build is all right. -/
theorem quiet_foldl {α : Type} {path : α → String} {result : α → Except Error FileScan} {r : Report}
    (h : Quiet r.log) (xs : List α)
    (hok : (xs.foldl (fun r x => merge r (path x) (result x)) r).ok = true) :
    Quiet (xs.foldl (fun r x => merge r (path x) (result x)) r).log := by
  induction xs using List.reverseRecOn with
  | nil => exact h
  | append_singleton xs x ih =>
      simp only [List.foldl_append, List.foldl_cons, List.foldl_nil] at hok ⊢
      obtain ⟨hbefore, htake⟩ := ok_merge.1 hok
      rw [log_merge, htake, Option.map_none, Option.toList_none, List.append_nil]
      exact ih hbefore

/-- **A build that is all right** reports nothing serious. -/
theorem quiet_concurrent {read : Reader} {finished : List Task}
    (hok : (concurrent read finished).ok = true) : Quiet (concurrent read finished).log := by
  have hstart : Quiet ((finished.map fun t => (t, scanTask read t)).flatMap fun o => o.2.log) := by
    intro e he
    obtain ⟨o, ho, he⟩ := List.mem_flatMap.1 he
    obtain ⟨t, -, rfl⟩ := List.mem_map.1 ho
    exact quiet_scanTask read t e he
  unfold concurrent at hok ⊢
  split at hok
  · next hnil =>
      simp only [hnil, if_true]
      exact quiet_foldl hstart _ hok
  · next hnil =>
      simp only [hnil, Bool.false_eq_true, if_false]
      exact (quiet_foldl hstart _ hok).append (by simp [Quiet, Event.severity])

end Build

/-! ### Consumers -/

/-- What is shown of a report depends on its answers only. -/
theorem CommandLine.showReport_eq {r r' : Report} (hok : r.ok = r'.ok)
    (h : r.catalog.SameAnswers r'.catalog) (showTime : Reader) (renderer : Renderer)
    (symbol : Option String) (log : String) :
    showReport showTime renderer symbol log r = showReport showTime renderer symbol log r' := by
  simp only [showReport, hok, h.renderCatalog, h.resolve]

/-- **The order of insertion is invisible.**  Let some calls, each with one symbol or with the
symbols of a file, be made on an empty catalog, and none of them fail.  Then none fails in any other
order, and afterwards the libraries have the same names and give the same answers, and the catalog
resolves every path to the same symbols in the same order, has the same identities and the same
outline, and is written in the same way.  In particular the files of a build may come in any order:
the build is all right in one order exactly when it is in the other, and then the same is printed
for the catalog and for every symbol that is asked for, and no errors are reported. -/
theorem insertion_order_invisible :
    (∀ calls calls' : List Insertion, calls.Perm calls' → (Insertion.runAll calls).2 = [] →
      (Insertion.runAll calls').2 = [] ∧
      let c := (Insertion.runAll calls).1
      let c' := (Insertion.runAll calls').1
      c.libraryNames = c'.libraryNames ∧
      (∀ name, Option.Rel Library.SameAnswers (c.get? name) (c'.get? name)) ∧
      (∀ path, c.resolve path = c'.resolve path) ∧
      c.identities = c'.identities ∧
      c.outline = c'.outline ∧
      ∀ r : Renderer, r.renderCatalog c = r.renderCatalog c') ∧
    ∀ (read : Reader) (config : Config) (paths paths' : List String), paths.Perm paths' →
      let r := scanFiles read config paths
      let r' := scanFiles read config paths'
      r.ok = r'.ok ∧
      (r.ok = true →
        (∀ showTime renderer symbol log,
          CommandLine.showReport showTime renderer symbol log r =
            CommandLine.showReport showTime renderer symbol log r') ∧
        shown false r.log = [] ∧ shown false r'.log = []) := by
  refine ⟨fun calls calls' hp herrors => ?_, fun read config paths paths' hp => ?_⟩
  · obtain ⟨herrors', h⟩ := Insertion.sameAnswers_of_perm hp herrors
    exact ⟨herrors', h.libraryNames, h.libraries, h.resolve, h.identities, h.outline,
      h.renderCatalog⟩
  · refine ⟨Build.ok_of_perm hp, fun hok => ?_⟩
    obtain ⟨hok', h⟩ := Build.sameAnswers_of_perm hp hok
    exact ⟨CommandLine.showReport_eq (Build.ok_of_perm hp) h, (Build.quiet_concurrent hok).shown,
      (Build.quiet_concurrent hok').shown⟩

/-- A package and an entity with the same name, line and file, and a file of another library. -/
theorem insertion_order_invisible_sample :
    let d : Declaration := ⟨"f.vhd", "u", 3, "work", 0, 0, 0, 9, "", ""⟩
    let calls : List Insertion := [.symbol "work" (.package (.ofDeclaration d)),
      .symbol "work" (.entity d), .file ⟨"f.vhd", "ieee", [.entity d]⟩]
    (Insertion.runAll calls).2 = [] ∧ (Insertion.runAll calls.reverse).2 = [] ∧
    (Insertion.runAll calls).1.libraries.keys = ["work", "ieee"] ∧
    (Insertion.runAll calls.reverse).1.libraries.keys = ["ieee", "work"] ∧
    (Insertion.runAll calls).1.libraryNames = (Insertion.runAll calls.reverse).1.libraryNames ∧
    (∀ path, (Insertion.runAll calls).1.resolve path =
      (Insertion.runAll calls.reverse).1.resolve path) ∧
    (Insertion.runAll calls).1.identities = (Insertion.runAll calls.reverse).1.identities := by
  intro d calls
  have herrors : (Insertion.runAll calls).2 = [] := by decide +kernel
  obtain ⟨herrors', hnames, -, hresolve, hidentities, -⟩ :=
    insertion_order_invisible.1 calls calls.reverse (List.reverse_perm calls).symm herrors
  exact ⟨herrors, herrors', by decide +kernel, by decide +kernel, hnames, hresolve, hidentities⟩

end VhdlCatalog
