import VhdlCatalog.Build
import VhdlCatalog.CommandLine.Options

/-!
**Carrying out a command line.**

Files are read twice: when they are scanned, and when a symbol out of them is shown.  Both times
they are read through a function from paths to contents, so that a run is a function of the
command line and of what the files hold at these two times.

Main definitions:

* `VhdlCatalog.CommandLine.Output` — what a run writes and how it ends;
* `VhdlCatalog.CommandLine.Breakdown` — requests that are accepted and cannot be carried out;
* `VhdlCatalog.CommandLine.DocRequest.scanList` — the files of a request, each once;
* `VhdlCatalog.CommandLine.runDoc` — the command `doc`;
* `VhdlCatalog.CommandLine.run` — a whole run;
* `VhdlCatalog.CommandLine.filesToRead` — the files it reads.
-/

set_option relaxedAutoImplicit false
set_option autoImplicit false

namespace VhdlCatalog.CommandLine

/-- Why a request that has been accepted cannot be carried out: an option is without the value it
needs, because `--` was attached to its flag.  Releases 3.11.10 and 3.12.3 of the option reader
refuse such a line. -/
inductive Breakdown where
  /-- The number of workers is asked for without a number. -/
  | blankWorkers
  /-- An output format is asked for without a name. -/
  | blankFormat
  deriving DecidableEq, Repr

namespace Breakdown

/-- The reason in words. -/
def message : Breakdown → String
  | blankWorkers => "'<' not supported between instances of 'list' and 'int'"
  | blankFormat => "unhashable type: 'list'"

end Breakdown

/-- How a run ends. -/
inductive Ending where
  /-- The command has been carried out, with this status. -/
  | done (status : Nat)
  /-- The command line was answered without carrying out a command, with this status. -/
  | stopped (status : Nat)
  /-- There was nothing to do, for the reason given. -/
  | abandoned (reason : String)
  /-- The command broke down. -/
  | broken (breakdown : Breakdown)
  deriving DecidableEq, Repr

/-- What a run writes and how it ends. -/
structure Output where
  /-- How the run ends. -/
  ending : Ending
  /-- What is written as result. -/
  stdout : String
  /-- What is written about the run. -/
  stderr : String
  deriving DecidableEq, Repr

namespace Ending

/-- The status that a run leaves behind. -/
def status : Ending → Nat
  | done status | stopped status => status
  | abandoned _ | broken _ => 1

end Ending

namespace Stop

/-- The answer to a command line that is not carried out. -/
def output : Stop → Output
  | help manual => ⟨.stopped 0, manual.help, ""⟩
  | refused manual error => ⟨.stopped 2, "", manual.complaint error⟩

end Stop

namespace DocRequest

/-- The paths among some paths that lead to a file not yet in `seen`, each file once. -/
def distinct (seen : List String) : List String → List String
  | [] => []
  | path :: paths =>
      let file := Path.normalize path
      if seen.contains file then distinct seen paths
      else path :: distinct (file :: seen) paths

/-- The files of a request, each once: those that go to the default library first, then those that
are only named with a library. -/
def scanList (r : DocRequest) (config : Config) : List String :=
  distinct [] (r.files ++ config.files)

/-- The configuration of a request. -/
def config (r : DocRequest) : Except ConfigError Config :=
  Config.ofOptions? r.libraries r.defaultLibrary.value? r.workers.value?

/-- The renderer of a request. -/
def renderer (r : DocRequest) (format : Format) : Renderer :=
  .ofFormat { PlainStyle.standard with bold := !r.noBold } Renderer.standardTitle format

end DocRequest

/-- What is written for symbols whose files are read again: those that can be read, and errors for
the others. -/
def showSymbols (read : Reader) (renderer : Renderer) (symbols : List Symbol) :
    List String × List Error :=
  symbols.foldr (fun s shown =>
    match read s.declaration.filepath with
    | .ok source => (renderer.renderSymbol s source :: shown.1, shown.2)
    | .error fault => (shown.1, .ofFault s.declaration.filepath fault :: shown.2)) ([], [])

/-- Shows what a build has found: the catalog, or the symbols that are asked for. -/
def showReport (read : Reader) (renderer : Renderer) (symbol : Option String) (log : String)
    (report : Report) : Output :=
  let status := if report.ok then 0 else 1
  match symbol.filter fun path => !path.isEmpty with
  | none => ⟨.done status, renderer.renderCatalog report.catalog ++ "\n", log⟩
  | some path =>
      match report.catalog.resolve path with
      | [] => ⟨.done 1, "", log ++ "Error: symbol '" ++ path ++ "' not found\n"⟩
      | symbols =>
          let (texts, errors) := showSymbols read renderer symbols
          ⟨.done (if errors.isEmpty then status else 1), "\n\n".intercalate texts ++ "\n",
            log ++ wholeLines (errors.map fun e => "Error: " ++ e.message)⟩

/-- The command `doc` with its configuration.  The format is looked at only after the build. -/
def showDoc (scanTime showTime : Reader) (format : Setting Format) (debug : Bool)
    (r : DocRequest) (config : Config) : Output :=
  let files := r.scanList config
  if files.isEmpty then
    ⟨.abandoned "Error: No files provided. Usage: vdoc.py doc FILE...", "", ""⟩
  else
    let report := scanFiles scanTime config files
    let log := wholeLines ((shown debug report.log).map Event.render)
    match format with
    | .blank => ⟨.broken .blankFormat, "", log⟩
    | .unset | .given _ =>
        showReport showTime (r.renderer (format.value?.getD .text)) r.symbol.value? log report

/-- The command `doc`. -/
def runDoc (scanTime showTime : Reader) (request : Request) (doc : DocRequest) : Output :=
  match doc.workers, doc.config with
  | .blank, _ => ⟨.broken .blankWorkers, "", ""⟩
  | _, .ok config => showDoc scanTime showTime request.format request.debug doc config
  | _, .error e => ⟨.abandoned ("Error: " ++ e.message), "", ""⟩

/-- A run.  Files are read with `scanTime` when they are scanned and with `showTime` when symbols
are shown. -/
def run (scanTime showTime : Reader) (words : List String) : Output :=
  match parse words with
  | .error stop => stop.output
  | .ok request =>
      match request.doc with
      | none => ⟨.done 1, programManual.help, ""⟩
      | some doc => runDoc scanTime showTime request doc

/-- The files that a run reads. -/
def filesToRead (words : List String) : List String :=
  match parse words with
  | .error _ => []
  | .ok request =>
      match request.doc with
      | none => []
      | some doc =>
          match doc.config with
          | .ok config => doc.scanList config
          | .error _ => []

end VhdlCatalog.CommandLine
