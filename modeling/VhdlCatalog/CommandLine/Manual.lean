import VhdlCatalog.CommandLine.UsageError

/-!
**What the program says about its command line.**

Main definitions:

* `VhdlCatalog.CommandLine.Manual` — the name, the usage and the explanation of a command;
* `VhdlCatalog.CommandLine.Manual.help`, `VhdlCatalog.CommandLine.Manual.complaint` — what is
  written when help is asked for, and when a command line is refused;
* `VhdlCatalog.CommandLine.programManual`, `VhdlCatalog.CommandLine.docManual` — the manuals of the
  program and of its command `doc`.
-/

set_option relaxedAutoImplicit false
set_option autoImplicit false

namespace VhdlCatalog.CommandLine

/-- The manual of a command. -/
structure Manual where
  /-- How the command is called. -/
  name : String
  /-- Which words it takes, as a paragraph of whole lines. -/
  usage : String
  /-- What they mean, as whole lines. -/
  explanation : String
  deriving DecidableEq, Repr

namespace Manual

/-- What is written when help is asked for. -/
def help (m : Manual) : String := m.usage ++ "\n" ++ m.explanation

/-- What is written when a command line is refused. -/
def complaint (m : Manual) (e : UsageError) : String :=
  m.usage ++ m.name ++ ": error: " ++ e.message ++ "\n"

end Manual

/-- Lines as a text; every line ends with a line feed. -/
def wholeLines (ls : List String) : String := String.join (ls.map (· ++ "\n"))

/-- The manual of the program. -/
def programManual : Manual where
  name := "vdoc.py"
  usage := "usage: vdoc.py [-h] [--format \x7btext,html\x7d] [--debug] \x7bdoc\x7d ...\n"
  explanation := wholeLines
    ["Documentation catalog for VHDL sources.",
      "",
      "positional arguments:",
      "  \x7bdoc\x7d",
      "    doc                 List documented symbols or show one of them.",
      "",
      "options:",
      "  -h, --help            show this help message and exit",
      "  --format \x7btext,html\x7d  Output format (default: text).",
      "  --debug               Print debug messages on stderr."]

/-- The manual of the command `doc`. -/
def docManual : Manual where
  name := "vdoc.py doc"
  usage := wholeLines
    ["usage: vdoc.py doc [-h] [--lib LIB FILE] [--default-lib DEFAULT_LIB]",
      "                   [--workers WORKERS] [-s PATH] [--no-bold]",
      "                   [FILE ...]"]
  explanation := wholeLines
    ["positional arguments:",
      "  FILE                  VHDL file to scan; goes to the default library.",
      "",
      "options:",
      "  -h, --help            show this help message and exit",
      "  --lib LIB FILE        Scan FILE into library LIB (repeatable).",
      "  --default-lib DEFAULT_LIB",
      "                        Library for files without --lib (default: work).",
      "  --workers WORKERS     Number of scan threads (default: one per file).",
      "  -s PATH, --symbol PATH",
      "                        Show symbol PATH, e.g. work.uart_pkg.baud_rate.",
      "  --no-bold             Do not emphasise keywords in text output."]

end VhdlCatalog.CommandLine
