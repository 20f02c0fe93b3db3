import VhdlCatalog.Proofs.Decoding
import VhdlCatalog.Proofs.Encoding
import VhdlCatalog.Proofs.Likeness
import VhdlCatalog.Proofs.Ranges

/-!
**Line endings.**

The same lines can be written in several styles: with a line feed, a carriage return or both after
each of them, and with or without a terminator after the last one.  All styles have the same lines,
since the two bytes of a carriage return with its line feed end one line, and two carriage returns
end two.  The text of a line is what stands before its terminator.  So only the offsets of lines
depend on the style, and the same line begins at corresponding offsets.

Main definitions:

* `VhdlCatalog.Source.LineStyle` — how lines are ended;
* `VhdlCatalog.Source.LineStyle.write` — lines written in a style;
* `VhdlCatalog.Source.LineStyle.boundary` — where a line begins in a style;
* `VhdlCatalog.Likeness.boundaries` — offsets of the same line in two styles.

Main results:

* `VhdlCatalog.Source.LineStyle.lines_write` — **lines that are written are read back**;
* `VhdlCatalog.Source.LineStyle.map_lineText_rawLines` — their texts do not depend on the style;
* `VhdlCatalog.scanSource_write` — **one source in two styles**.
-/

set_option relaxedAutoImplicit false
set_option autoImplicit false

namespace VhdlCatalog

namespace Source

/-! ### Styles -/

/-- What stands at the end of a line. -/
inductive LineEnding
  | lf
  | crlf
  | cr

/-- The bytes at the end of a line. -/
def LineEnding.bytes : LineEnding → Bytes
  | .lf => [Source.lf]
  | .crlf => [Source.cr, Source.lf]
  | .cr => [Source.cr]

/-- How lines are ended. -/
structure LineStyle where
  /-- What stands at the end of a line. -/
  ending : LineEnding
  /-- Whether it stands after the last line too. -/
  final : Bool

namespace LineStyle

/-- The lines as they are written, each with its terminator. -/
def rawLines (v : LineStyle) : List Bytes → List Bytes
  | [] => []
  | [l] => [if v.final then l ++ v.ending.bytes else l]
  | l :: m :: ls => (l ++ v.ending.bytes) :: rawLines v (m :: ls)

/-- The source that has the given lines. -/
def write (v : LineStyle) (ls : List Bytes) : Bytes := (v.rawLines ls).flatten

/-- The offset at which the line with the given index begins; after the last line, the end. -/
def boundary (v : LineStyle) (ls : List Bytes) (i : Nat) : Nat := offsetAt (v.rawLines ls) i

/-- A last line without a terminator is not empty: it would be no line. -/
def Fits (v : LineStyle) (ls : List Bytes) : Prop := v.final = false → ls.getLast? ≠ some []

end LineStyle

/-! ### Lines are read back -/

theorem LineEnding.isTerminator {e : LineEnding} : ∀ b ∈ e.bytes, IsTerminator b := by
  intro b hb
  cases e <;> simp only [bytes, List.mem_cons, List.not_mem_nil, or_false] at hb
  · exact Or.inl hb
  · exact hb.symm
  · exact Or.inr hb

theorem LineEnding.lines_bytes (e : LineEnding) : lines e.bytes = [e.bytes] := by
  cases e <;> rfl

/-- A line with its terminator is one line. -/
theorem lines_append_bytes {l : Bytes} (hl : Plain l) (e : LineEnding) :
    lines (l ++ e.bytes) = [l ++ e.bytes] := by
  cases l with
  | nil => exact e.lines_bytes
  | cons b l =>
      rw [lines_append_plain (List.cons_ne_nil b l) hl, e.lines_bytes]
      rfl

theorem lines_of_plain {l : Bytes} (hl : Plain l) (hne : l ≠ []) : lines l = [l] := by
  have h := lines_append_plain hne hl []
  rwa [List.append_nil, lines_nil, List.headD_nil, List.append_nil, List.tail_nil] at h

namespace LineStyle

variable {v : LineStyle} {ls : List Bytes}

/-- A line as it is written is the line, or the line with a terminator. -/
theorem forall₂_rawLines (v : LineStyle) (ls : List Bytes) :
    ls.Forall₂ (fun l raw => raw = l ∨ raw = l ++ v.ending.bytes) (v.rawLines ls) := by
  fun_induction rawLines v ls with
  | case1 => exact .nil
  | case2 l =>
      refine .cons ?_ .nil
      cases v.final with
      | true => exact Or.inr rfl
      | false => exact Or.inl rfl
  | case3 l m ls ih => exact .cons (Or.inr rfl) ih

theorem length_rawLines (v : LineStyle) (ls : List Bytes) : (v.rawLines ls).length = ls.length :=
  (v.forall₂_rawLines ls).length_eq.symm

/-- A source whose lines end with carriage returns has no line feed. -/
theorem not_mem_write (hcr : v.ending = .cr) (hls : ∀ l ∈ ls, Plain l) : lf ∉ v.write ls := by
  have hraws := v.forall₂_rawLines ls
  rw [write]
  generalize v.rawLines ls = raws at hraws
  induction hraws with
  | nil => simp
  | @cons l raw ls raws hraw _ ih =>
      obtain ⟨hl, hrest⟩ := List.forall_mem_cons.1 hls
      have hlf : lf ∉ l := fun hmem => hl lf hmem (Or.inl rfl)
      have hne : lf ≠ cr := by decide
      rw [List.flatten_cons, List.mem_append, not_or]
      refine ⟨?_, ih hrest⟩
      rcases hraw with rfl | rfl
      · exact hlf
      · simp [hcr, LineEnding.bytes, hlf, hne]

/-- A line ends where its terminator does, whatever lines come after it. -/
theorem divides_write (hls : ∀ l ∈ ls, Plain l) (l : Bytes) :
    Divides (l ++ v.ending.bytes) (v.write ls) := by
  cases hending : v.ending with
  | lf => exact Or.inl (by simp [LineEnding.bytes])
  | crlf => exact Or.inl (by simp [LineEnding.bytes])
  | cr =>
      refine Or.inr ⟨by simp [LineEnding.bytes], fun hhead => ?_⟩
      exact not_mem_write hending hls (List.mem_of_head? hhead)

/-- **Lines that are written are read back.** -/
theorem lines_write (hls : ∀ l ∈ ls, Plain l) (hfits : v.Fits ls) :
    lines (v.write ls) = v.rawLines ls := by
  fun_induction rawLines v ls with
  | case1 => rfl
  | case2 l =>
      have hl : Plain l := hls l (List.mem_singleton_self l)
      rw [write, rawLines, List.flatten_singleton]
      cases hfinal : v.final with
      | true => exact lines_append_bytes hl v.ending
      | false =>
          have hne : l ≠ [] := by simpa using hfits hfinal
          exact lines_of_plain hl hne
  | case3 l m ls ih =>
      obtain ⟨hl, hrest⟩ := List.forall_mem_cons.1 hls
      have hfits' : v.Fits (m :: ls) := by
        intro hfinal
        simpa only [List.getLast?_cons_cons] using hfits hfinal
      have hwrite : v.write (l :: m :: ls) = (l ++ v.ending.bytes) ++ v.write (m :: ls) := by
        rw [write, rawLines, List.flatten_cons, ← write]
      rw [hwrite, lines_append_of_divides (Or.inr (divides_write hrest l)),
        lines_append_bytes hl, ih hrest hfits', List.singleton_append]

/-- **The texts of lines** do not depend on the style. -/
theorem map_lineText_rawLines (hls : ∀ l ∈ ls, Plain l) :
    (v.rawLines ls).map lineText = ls.map Utf8.decode := by
  have hraws := v.forall₂_rawLines ls
  generalize v.rawLines ls = raws at hraws
  induction hraws with
  | nil => rfl
  | @cons l raw ls raws hraw _ ih =>
      obtain ⟨hl, hrest⟩ := List.forall_mem_cons.1 hls
      have htext : lineText raw = Utf8.decode l := by
        rcases hraw with heq | heq
        · have h : lineText (l ++ []) = Utf8.decode l := lineText_append hl (by simp)
          rw [heq, ← h, List.append_nil]
        · rw [heq, lineText_append hl LineEnding.isTerminator]
      rw [List.map_cons, List.map_cons, htext, ih hrest]

end LineStyle

/-! ### Offsets -/

/-- Later lines begin at greater offsets. -/
theorem offsetAt_lt_offsetAt {raws : List Bytes} (hne : ∀ raw ∈ raws, raw ≠ []) {i j : Nat}
    (hij : i < j) (hj : j ≤ raws.length) : offsetAt raws i < offsetAt raws j := by
  induction raws generalizing i j with
  | nil =>
      rw [List.length_nil] at hj
      omega
  | cons raw raws ih =>
      obtain ⟨hraw, hrest⟩ := List.forall_mem_cons.1 hne
      have hpos := List.length_pos_of_ne_nil hraw
      obtain ⟨j, rfl⟩ : ∃ k, j = k + 1 := ⟨j - 1, by omega⟩
      cases i with
      | zero =>
          simp only [offsetAt, List.take_zero, List.take_succ_cons, List.flatten_cons,
            List.flatten_nil, List.length_append, List.length_nil]
          omega
      | succ i =>
          have hlt := ih hrest (i := i) (j := j) (by omega) (by simpa using hj)
          simp only [offsetAt, List.take_succ_cons, List.flatten_cons, List.length_append] at hlt ⊢
          omega

/-- The bytes between two lines are the lines between them. -/
theorem slice_offsetAt (raws : List Bytes) {i j : Nat} (hij : i ≤ j) :
    slice raws.flatten (offsetAt raws i) (offsetAt raws j) = ((raws.take j).drop i).flatten := by
  have htake : raws.take j = raws.take i ++ (raws.take j).drop i := by
    have h := List.take_append_drop i (raws.take j)
    rwa [List.take_take, Nat.min_eq_left hij, eq_comm] at h
  have hflat : raws.flatten =
      (raws.take i).flatten ++ ((raws.take j).drop i).flatten ++ (raws.drop j).flatten := by
    rw [← List.flatten_append, ← htake, ← List.flatten_append, List.take_append_drop]
  have hstop : offsetAt raws j =
      (raws.take i).flatten.length + ((raws.take j).drop i).flatten.length := by
    rw [offsetAt, htake, List.flatten_append, List.length_append, ← htake]
  rw [hstop, hflat]
  exact slice_middle _ _ _

end Source

open Source

/-- **The same lines in two styles**: two offsets stand for the same place when the same line begins
there, and texts are the same. -/
def Likeness.boundaries (v v' : LineStyle) (ls : List Bytes) : Likeness where
  offset a b := ∃ i ≤ ls.length, a = v.boundary ls i ∧ b = v'.boundary ls i
  text cs ds := cs = ds
  lower_eq h := congrArg Text.lower h
  text_signature h := congrArg (fun cs => collapse (stripComment cs)) h
  text_joinLines h := by
    rw [List.forall₂_eq_eq_eq] at h
    rw [h]

/-! ### Two sources -/

/-- **Line endings do not matter**: lines that are written in two styles are scanned to the same
units, with the same kinds, forms, names, scopes, line numbers, signatures, summaries and members,
or to the same error, and the same events are reported.  Each offset of the one result is where a
line begins, and the offset of the other result is where the same line begins.  Different lines
begin at different offsets, and the bytes from one boundary to another are the lines between. -/
theorem scanSource_write (filepath library : String) {ls : List Bytes}
    (hlf : ∀ l ∈ ls, lf ∉ l) (hcr : ∀ l ∈ ls, cr ∉ l) {v v' : LineStyle} (hv : v.Fits ls)
    (hv' : v'.Fits ls) :
    (scanSource filepath library (v.write ls)).Like (.boundaries v v' ls)
      (scanSource filepath library (v'.write ls)) ∧
    ∀ i j, i < j → j ≤ ls.length →
      (v.boundary ls i < v.boundary ls j ∧ v'.boundary ls i < v'.boundary ls j) ∧
      slice (v.write ls) (v.boundary ls i) (v.boundary ls j) =
        (((v.rawLines ls).take j).drop i).flatten ∧
      slice (v'.write ls) (v'.boundary ls i) (v'.boundary ls j) =
        (((v'.rawLines ls).take j).drop i).flatten := by
  have hplain : ∀ l ∈ ls, Plain l := by
    rintro l hl b hb (rfl | rfl)
    · exact hlf l hl hb
    · exact hcr l hl hb
  refine ⟨scanSource_like filepath library ?_ ?_, ?_⟩
  · rw [LineStyle.lines_write hplain hv, LineStyle.lines_write hplain hv']
    have htexts : (v.rawLines ls).map lineText = (v'.rawLines ls).map lineText := by
      rw [LineStyle.map_lineText_rawLines hplain, LineStyle.map_lineText_rawLines hplain]
    rwa [← List.forall₂_eq_eq_eq, List.forall₂_map_left_iff, List.forall₂_map_right_iff] at htexts
  · rw [LineStyle.lines_write hplain hv, LineStyle.lines_write hplain hv']
    intro i hi
    rw [v.length_rawLines] at hi
    exact ⟨i, hi, rfl, rfl⟩
  · have hincreasing : ∀ w : LineStyle, w.Fits ls → ∀ i j, i < j → j ≤ ls.length →
        w.boundary ls i < w.boundary ls j := by
      intro w hw i j hij hj
      refine offsetAt_lt_offsetAt (fun raw hraw => ?_) hij (by rwa [w.length_rawLines])
      rw [← LineStyle.lines_write hplain hw] at hraw
      exact (isLine_of_mem_lines hraw).ne_nil
    intro i j hij hj
    exact ⟨⟨hincreasing v hv i j hij hj, hincreasing v' hv' i j hij hj⟩,
      slice_offsetAt _ hij.le, slice_offsetAt _ hij.le⟩

/-- A documented constant stands on the second and the third line in both styles: from byte 14 to
byte 48 where lines end with a carriage return and a line feed, and from byte 13 to byte 45 where
they end with a carriage return and the last one with nothing. -/
theorem scanSource_write_samples :
    let ls : List Bytes :=
      ["package p is", "-- about c", "constant c : t := 1;", "", "end p;"].map
        fun line => line.toUTF8.data.toList
    let v : LineStyle := ⟨.crlf, true⟩
    let v' : LineStyle := ⟨.cr, false⟩
    (∀ l ∈ ls, lf ∉ l) ∧ (∀ l ∈ ls, cr ∉ l) ∧ v.Fits ls ∧ v'.Fits ls ∧
    (v.boundary ls 1 = 14 ∧ v.boundary ls 3 = 48) ∧
    (v'.boundary ls 1 = 13 ∧ v'.boundary ls 3 = 45) ∧
    (∃ file, (scanSource "f.vhd" "Work" (v.write ls)).result = .ok file ∧
      (file.declarations.map fun d => (d.name, d.docStart, d.codeStop)) =
        [("p", 0, 58), ("c", 14, 48)]) ∧
    (scanSource "f.vhd" "Work" (v.write ls)).Like (.boundaries v v' ls)
      (scanSource "f.vhd" "Work" (v'.write ls)) := by
  intro ls v v'
  have hlf : ∀ l ∈ ls, lf ∉ l := by decide +kernel
  have hcr : ∀ l ∈ ls, cr ∉ l := by decide +kernel
  have hv : v.Fits ls := by
    intro hfinal
    cases hfinal
  have hv' : v'.Fits ls := by
    intro _
    decide +kernel
  refine ⟨hlf, hcr, hv, hv', by decide +kernel, by decide +kernel, ?_,
    (scanSource_write "f.vhd" "Work" hlf hcr hv hv').1⟩
  exact exists_ok_of_toOption
    (f := fun file : FileScan => file.declarations.map fun d => (d.name, d.docStart, d.codeStop))
    (b := [("p", 0, 58), ("c", 14, 48)]) (x := (scanSource "f.vhd" "Work" (v.write ls)).result)
    (by decide +kernel)

end VhdlCatalog
