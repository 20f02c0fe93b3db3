import VhdlCatalog.Proofs.Stretch

/-!
**Byte ranges are well formed and line aligned.**

The four offsets of a declaration are copied from the lines it opens and closes on.  Here they are
compared with the bytes of the source itself: they lie in the source, stand in the right order, and
each of them is an end of the source or stands just after a line terminator.

Main definitions:

* `VhdlCatalog.FileScan.declarations` — the declarations of all symbols of a file, members
  included.

Main results:

* `VhdlCatalog.exists_spans_of_scanSource` — every declaration takes its place from two code lines;
* `VhdlCatalog.ranges_of_scanSource` — **the ranges of all declarations**.
-/

set_option relaxedAutoImplicit false
set_option autoImplicit false

namespace VhdlCatalog

open Source

/-! ### All declarations of a file -/

/-- The declarations of a symbol and, for a package, of its members. -/
def Symbol.declarations : Symbol → List Declaration
  | .entity d => [d]
  | .package p => p.declaration :: p.members.map Member.declaration
  | .member m => [m.declaration]

/-- The declarations of all symbols of a file, members included. -/
def FileScan.declarations (file : FileScan) : List Declaration :=
  file.units.flatMap Symbol.declarations

namespace Scan

/-- Every declaration of a stretch takes its place from two lines of it. -/
theorem Stretch.exists_spans {s : Stretch} (h : Ordered s.lines) {d : Declaration}
    (hd : d ∈ s.declarations) :
    ∃ first ∈ s.lines, ∃ last ∈ s.lines, d.Spans first last ∧ first.stop ≤ last.stop :=
  ⟨s.first, List.mem_cons_self .., s.last, s.last_mem_lines, s.spans d hd,
    stop_le_last h (List.mem_cons_self ..)⟩

theorem FileItem.exists_spans {t : Target} {item : FileItem} (h : Ordered item.lines) {u : Symbol}
    (hu : u ∈ item.units t) :
    ∃ first ∈ item.lines, ∃ last ∈ item.lines, u.declaration.Spans first last ∧
      first.stop ≤ last.stop := by
  rw [← item.lines_stretch t] at h ⊢
  exact Stretch.exists_spans h (mem_declarations_stretch hu)

theorem HeaderItem.exists_spans {name : List Char} {t : Target} {scope : String}
    {item : HeaderItem name} (h : Ordered item.lines) {m : Member} (hm : m ∈ item.members t scope) :
    ∃ first ∈ item.lines, ∃ last ∈ item.lines, m.declaration.Spans first last ∧
      first.stop ≤ last.stop := by
  rw [← item.lines_stretch t scope] at h ⊢
  exact Stretch.exists_spans h (mem_declarations_stretch hm)

end Scan

/-! ### Files -/

variable {filepath library : String} {data : Bytes} {file : FileScan} {d : Declaration}

/-- **Every declaration takes its place from two code lines**, the second of which does not end
before the first. -/
theorem exists_spans_of_scanSource (h : (scanSource filepath library data).result = .ok file)
    (hd : d ∈ file.declarations) :
    ∃ first ∈ codeLines data, ∃ last ∈ codeLines data, d.Spans first last ∧
      first.stop ≤ last.stop := by
  obtain ⟨items, hlines, hunits⟩ := exists_items_of_scanSource h
  obtain ⟨u, hu, hd⟩ := List.mem_flatMap.1 hd
  rw [hunits] at hu
  obtain ⟨item, hitem, hu⟩ := List.mem_flatMap.1 hu
  have hord : Ordered item.lines := (hlines ▸ ordered_codeLines data).of_mem_flatMap hitem
  have hsub : ∀ l ∈ item.lines, l ∈ codeLines data := fun l hl =>
    hlines ▸ List.mem_flatMap.2 ⟨item, hitem, hl⟩
  suffices hitem : ∃ first ∈ item.lines, ∃ last ∈ item.lines, d.Spans first last ∧
      first.stop ≤ last.stop by
    obtain ⟨first, hfirst, last, hlast, hspans⟩ := hitem
    exact ⟨first, hsub first hfirst, last, hsub last hlast, hspans⟩
  cases item with
  | other l _ => simp [Scan.FileItem.units] at hu
  | entity b =>
      obtain rfl : u = .entity (b.declaration _) := by simpa [Scan.FileItem.units] using hu
      obtain rfl : d = b.declaration _ := by simpa [Symbol.declarations] using hd
      exact Scan.FileItem.exists_spans hord hu
  | package b =>
      obtain rfl : u = .package (b.toHeader.package _ b.last.stop) := by
        simpa [Scan.FileItem.units] using hu
      rcases List.mem_cons.1 hd with rfl | hd
      · exact Scan.FileItem.exists_spans hord hu
      · obtain ⟨m, hm, rfl⟩ := List.mem_map.1 hd
        obtain ⟨part, hpart, hm⟩ := Scan.PackageBlock.mem_members.1 hm
        have hparts : Ordered (b.items.flatMap Scan.HeaderItem.lines) :=
          (ordered_append.1 hord).1.cons.2.1
        obtain ⟨first, hfirst, last, hlast, hspans⟩ :=
          Scan.HeaderItem.exists_spans (hparts.of_mem_flatMap hpart) hm
        have hin : ∀ l ∈ part.lines, l ∈ (Scan.FileItem.package b).lines := fun l hl =>
          List.mem_append_left _ (List.mem_cons_of_mem _ (List.mem_flatMap.2 ⟨part, hpart, hl⟩))
        exact ⟨first, hin first hfirst, last, hin last hlast, hspans⟩

/-- **The ranges of all declarations** are well formed and line aligned: they lie in the source, the
documentation ends where the code begins, the code is not empty, all four offsets are boundaries,
and the number of the opening line counts the lines that end before it. -/
theorem ranges_of_scanSource (h : (scanSource filepath library data).result = .ok file)
    (hd : d ∈ file.declarations) :
    (0 ≤ d.docStart ∧ d.docStart ≤ d.docStop ∧ d.docStop ≤ d.codeStart ∧
      d.codeStart < d.codeStop ∧ d.codeStop ≤ data.length) ∧
    (LineBoundary data d.docStart ∧ LineBoundary data d.docStop ∧
      LineBoundary data d.codeStart ∧ LineBoundary data d.codeStop) ∧
    d.docStop = d.codeStart ∧
    d.line = 1 + (sourceLines data).countP fun l => (l.stop : Int) ≤ d.codeStart := by
  obtain ⟨first, hfirst, last, hlast, hspans, hle⟩ := exists_spans_of_scanSource h hd
  have hdoc := docStart_le_start hfirst
  have hpos := start_lt_stop_of_mem_codeLines hfirst
  have hend : last.stop ≤ data.length := stop_le_length (place_mem_sourceLines hlast)
  have hnumber := number_eq_countP (place_mem_sourceLines hfirst)
  rw [hspans.line, hspans.docStart, hspans.docStop, hspans.codeStart, hspans.codeStop,
    docStop_eq_start hfirst]
  refine ⟨by omega, ⟨lineBoundary_docStart hfirst, lineBoundary_start hfirst,
    lineBoundary_start hfirst, lineBoundary_stop hlast⟩, rfl, ?_⟩
  have hcount : ((sourceLines data).countP fun l => (l.stop : Int) ≤ first.start) =
      (sourceLines data).countP fun l => l.stop ≤ first.place.start := by
    refine List.countP_congr fun x _ => ?_
    rw [decide_eq_true_eq, decide_eq_true_eq, CodeLine.place_start, Int.ofNat_le]
  rw [CodeLine.place_number] at hnumber
  rw [hcount, hnumber]
  omega

/-- The ranges of the procedure in the sample, which goes over a comment line. -/
theorem ranges_of_sample :
    ∃ file d, (scanSource "sample.vhd" "Work" sample).result = .ok file ∧
      d ∈ file.declarations ∧ d.name = "q" ∧
      (0 ≤ d.docStart ∧ d.docStart ≤ d.docStop ∧ d.docStop ≤ d.codeStart ∧
        d.codeStart < d.codeStop ∧ d.codeStop ≤ sample.length) ∧
      (LineBoundary sample d.docStart ∧ LineBoundary sample d.docStop ∧
        LineBoundary sample d.codeStart ∧ LineBoundary sample d.codeStop) ∧
      d.docStop = d.codeStart ∧
      d.line = 1 + (sourceLines sample).countP fun l => (l.stop : Int) ≤ d.codeStart := by
  have hany : (scanSource "sample.vhd" "Work" sample).result.toOption.map
      (fun file => file.declarations.any fun d => d.name = "q") = some true := by
    decide +kernel
  obtain ⟨file, h, hany⟩ := exists_file_sample hany
  obtain ⟨d, hd, hname⟩ := List.any_eq_true.1 hany
  exact ⟨file, d, h, hd, by simpa using hname, ranges_of_scanSource h hd⟩

end VhdlCatalog
