import VhdlCatalog.Proofs.MemberLines
import VhdlCatalog.Proofs.Ranges

/-!
**The summary of a subprogram is its whole declaration on one line.**

A function or procedure is summarised from all lines of its declaration, each without its comment.
Comment lines and blank lines in between are no code lines, so nothing of them gets in.  Up to white
space the summary is therefore what stands in the file between the opening and the closing line; and
its own white space is as even as `VhdlCatalog.Text.SingleSpaced` and `VhdlCatalog.Text.Tight` say.

Main results:

* `VhdlCatalog.Scan.MemberBlock.solid_summary` — nothing but white space is lost;
* `VhdlCatalog.summaries_of_scanSource` — **whole declarations on one line**, for all subprograms of
  a file.
-/

set_option relaxedAutoImplicit false
set_option autoImplicit false

namespace VhdlCatalog

open Source

/-! ### The lines of a block on one line -/

namespace Scan.MemberBlock

/-- All lines of the block on one line. -/
def summary (b : MemberBlock) : List Char := joinLines (b.lines.map CodeLine.signature)

theorem summary_member {b : MemberBlock} (h : b.opening.form.isSubprogram = true) (t : Target)
    (scope : String) (name : List Char) :
    (b.member t scope name).declaration.summary = String.ofList b.summary := by
  simp only [member, declare, h, if_true]
  rfl

/-- **Nothing but white space is lost** on the way from the lines to the summary. -/
theorem solid_summary (b : MemberBlock) :
    Text.solid b.summary = Text.solid (b.lines.flatMap fun l => stripComment l.text) := by
  rw [summary, solid_joinLines, List.flatMap_map, Text.solid_flatMap]
  refine List.flatMap_congr ?_
  intro l _
  exact solid_collapse (stripComment l.text)

theorem singleSpaced_summary (b : MemberBlock) : Text.SingleSpaced b.summary := by
  refine singleSpaced_joinLines ?_
  intro part hpart
  obtain ⟨l, -, rfl⟩ := List.mem_map.1 hpart
  exact singleSpaced_collapse (stripComment l.text)

end Scan.MemberBlock

/-! ### Files -/

theorem MemberForm.isSubprogram_of_category {form : MemberForm}
    (h : form.category = .function ∨ form.category = .procedure) : form.isSubprogram = true := by
  cases form <;> simp_all [category, isSubprogram]

variable {filepath library : String} {data : Bytes} {file : FileScan}

/-- **A summary is the whole declaration on one line.**  Take the code lines in the range of a
function or procedure: the first is the line it opens on, and the last the line it closes on.  The
summary has the characters of these lines without their comments, all but the white space, and in
their order.  Single spaces are the only white space in it; they stand between other characters, and
not at the inner side of a parenthesis.  To join lines that have been joined changes nothing. -/
theorem summaries_of_scanSource (h : (scanSource filepath library data).result = .ok file) :
    (∀ p, Symbol.package p ∈ file.units → ∀ m ∈ p.members,
      m.category = .function ∨ m.category = .procedure →
      (∃ first last, (m.declaration.linesIn data).head? = some first ∧
        (m.declaration.linesIn data).getLast? = some last ∧
        m.declaration.line = first.number ∧ m.declaration.codeStart = first.start ∧
        m.declaration.codeStop = last.stop) ∧
      Text.solid m.declaration.summary.toList =
        Text.solid ((m.declaration.linesIn data).flatMap fun l => stripComment l.text) ∧
      Text.SingleSpaced m.declaration.summary.toList ∧ Text.Tight m.declaration.summary.toList) ∧
    ∀ parts, joinLines [joinLines parts] = joinLines parts := by
  refine ⟨?_, joinLines_joinLines⟩
  intro p hp m hm hcategory
  obtain ⟨b, as, bs, hlines, name, -, rfl⟩ := exists_memberBlock_of_scanSource h hp hm
  have hspans := b.spans_member (.ofFile filepath library) p.declaration.qualifiedName name
  rw [b.linesIn_eq hlines hspans,
    Scan.MemberBlock.summary_member (MemberForm.isSubprogram_of_category hcategory),
    String.toList_ofList]
  refine ⟨⟨b.first.place, b.last.place, ?_, ?_, hspans.line, hspans.codeStart, hspans.codeStop⟩,
    ?_, b.singleSpaced_summary, tight_joinLines _⟩
  · rw [b.lines_eq_cons]
    rfl
  · simp [Scan.MemberBlock.lines]
  · rw [b.solid_summary, List.flatMap_map]
    rfl

/-- The summaries of the sample, where a procedure goes over a comment line. -/
theorem summaries_of_sample :
    ∃ file, (scanSource "sample.vhd" "Work" sample).result = .ok file ∧
      file.declarations.map Declaration.summary =
        ["", "", "", "procedure q (x : t; y : t);", "", ""] ∧
      (∀ p, Symbol.package p ∈ file.units → ∀ m ∈ p.members,
        m.category = .function ∨ m.category = .procedure →
        (∃ first last, (m.declaration.linesIn sample).head? = some first ∧
          (m.declaration.linesIn sample).getLast? = some last ∧
          m.declaration.line = first.number ∧ m.declaration.codeStart = first.start ∧
          m.declaration.codeStop = last.stop) ∧
        Text.solid m.declaration.summary.toList =
          Text.solid ((m.declaration.linesIn sample).flatMap fun l => stripComment l.text) ∧
        Text.SingleSpaced m.declaration.summary.toList ∧
        Text.Tight m.declaration.summary.toList) ∧
      ∀ parts, joinLines [joinLines parts] = joinLines parts := by
  have hsummaries : (scanSource "sample.vhd" "Work" sample).result.toOption.map
      (fun file => file.declarations.map Declaration.summary) =
        some ["", "", "", "procedure q (x : t; y : t);", "", ""] := by
    decide +kernel
  obtain ⟨file, h, hsummaries⟩ := exists_file_sample hsummaries
  exact ⟨file, h, hsummaries, summaries_of_scanSource h⟩

end VhdlCatalog
