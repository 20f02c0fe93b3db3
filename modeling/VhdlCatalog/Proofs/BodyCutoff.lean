import VhdlCatalog.Proofs.Concatenation
import VhdlCatalog.Proofs.Decoding

/-!
**Nothing is looked at from the first body on.**

A package body or an architecture ends the walk over a source.  The walk could go on after it, and a
declaration may be open when it is reached, but the pass is given no more lines.  So a source that
is cut off before such a line is scanned to the same outcome, whatever the line and all that follows
it contain.

The line is recognised by its text, which is decoded from its bytes alone: neither the bytes before
it nor those after it reach across its terminators.

Main results:

* `VhdlCatalog.Source.lineKind_eq_body` — a line that begins a body is neither blank nor a comment;
* `VhdlCatalog.Source.Cursor.codeLines_eq_advance` — the pass is given what the cursor hands out
  before it first hands out nothing;
* `VhdlCatalog.Source.exists_lines_eq` — a line between two parts of a source is a line of its own;
* `VhdlCatalog.Source.codeAfter_body` — lines from a body on bring no code lines;
* `VhdlCatalog.scanSource_before_body` — **a source is scanned like its part before a body**.
-/

set_option relaxedAutoImplicit false
set_option autoImplicit false

namespace VhdlCatalog

open Source

/-! ### Lines that begin a body -/

theorem Token.exists_of_keyword? {word : String} {cs rest : List Char}
    (h : keyword? word cs = some rest) : Text.skipBlanks cs = word.toList ++ rest := by
  simp only [keyword?, Option.bind_eq_bind, Option.bind_eq_some_iff] at h
  obtain ⟨after, hafter, h⟩ := h
  split at h
  · rw [← Option.some.inj h]
    exact (Text.afterLiteral?_eq_some_iff _ _ _).1 hafter
  · cases h

namespace Source

/-- The line begins a package body or an architecture. -/
def opensBody (line : List Char) : Bool := opensPackageBody line || opensArchitecture line

variable {line : List Char}

/-- A body begins with a keyword. -/
theorem exists_keyword_of_opensBody (h : opensBody line = true) :
    ∃ word rest, (word = "package" ∨ word = "architecture") ∧
      Token.keyword? word line = some rest := by
  simp only [opensBody, Bool.or_eq_true, opensPackageBody, opensArchitecture,
    Option.bind_eq_bind, Option.isSome_iff_exists, Option.bind_eq_some_iff] at h
  rcases h with ⟨-, rest, hrest, -⟩ | ⟨-, rest, hrest, -⟩
  · exact ⟨"package", rest, Or.inl rfl, hrest⟩
  · exact ⟨"architecture", rest, Or.inr rfl, hrest⟩

/-- A line that begins a body is neither blank nor a comment. -/
theorem lineKind_eq_body (h : opensBody line = true) : lineKind line = .body := by
  obtain ⟨word, rest, hword, hkeyword⟩ := exists_keyword_of_opensBody h
  have hskip := Token.exists_of_keyword? hkeyword
  have hblank : line.all isBlank = false := by
    refine Bool.eq_false_iff.2 fun hall => ?_
    have hnil : Text.skipBlanks line = [] :=
      List.dropWhile_eq_nil_iff.2 (List.all_eq_true.1 hall)
    rw [hnil] at hskip
    rcases hword with rfl | rfl <;> simp at hskip
  have hcomment : isCommentLine line = false := by
    rw [isCommentLine, hskip]
    rcases hword with rfl | rfl <;> rfl
  rw [opensBody] at h
  simp only [lineKind, hblank, hcomment, h, Bool.false_eq_true, if_false, if_true]

end Source

/-! ### The line in its source -/

namespace Source

/-- **The pass never goes on after a body**: it is given the lines that the cursor hands out one by
one, up to the first time that the cursor hands out none. -/
theorem Cursor.codeLines_eq_advance (c : Cursor) (rest : List Bytes) :
    c.codeLines rest =
      match c.advance rest with
      | (c', rest', some l) => l :: c'.codeLines rest'
      | (_, _, none) => [] := by
  induction rest generalizing c with
  | nil => rfl
  | cons raw rest ih =>
      rw [Cursor.codeLines, Cursor.advance]
      cases hvisit : c.visit raw with
      | mk c' sighting =>
          cases sighting with
          | passed => exact ih c'
          | body => rfl
          | code l => rfl

variable {before line rest : Bytes}

/-- Bytes that end with a line are divided from bytes that begin without a terminator. -/
theorem divides_of_plain (hbefore : ∃ b, before.getLast? = some b ∧ IsTerminator b)
    (hne : line ≠ []) (hline : Plain line) (rest : Bytes) : Divides before (line ++ rest) := by
  obtain ⟨b, hlast, rfl | rfl⟩ := hbefore
  · exact Or.inl hlast
  · obtain ⟨a, line, rfl⟩ := List.exists_cons_of_ne_nil hne
    refine Or.inr ⟨hlast, fun hhead => ?_⟩
    exact hline a (by simp) (Or.inl (by simpa using hhead))

/-- **A line between two parts of a source** is a line of its own, with its terminator. -/
theorem exists_lines_eq (hbefore : before = [] ∨ ∃ b, before.getLast? = some b ∧ IsTerminator b)
    (hne : line ≠ []) (hline : Plain line) (hrest : ∀ b ∈ rest.head?, IsTerminator b) :
    ∃ ending more, lines (before ++ line ++ rest) = lines before ++ (line ++ ending) :: more ∧
      ∀ b ∈ ending, IsTerminator b := by
  have hcut : before = [] ∨ Divides before (line ++ rest) :=
    hbefore.imp_right fun h => divides_of_plain h hne hline rest
  refine ⟨(lines rest).headD [], (lines rest).tail, ?_, isTerminator_of_mem_headD hrest⟩
  rw [List.append_assoc, lines_append_of_divides hcut, lines_append_plain hne hline]

/-- **Lines from a body on** bring no code lines. -/
theorem codeAfter_body {raw : Bytes} (h : lineKind (Text.lower (lineText raw)) = .body)
    (seen as more : List Bytes) : codeAfter seen (as ++ raw :: more) = codeAfter seen as := by
  induction as generalizing seen with
  | nil => simp only [List.nil_append, codeAfter, kind_following, h]
  | cons a as ih => simp only [List.cons_append, codeAfter, ih]

theorem codeLines_before_body
    (hbefore : before = [] ∨ ∃ b, before.getLast? = some b ∧ IsTerminator b)
    (hline : Plain line) (hbody : opensBody (Text.lower (Utf8.decode line)) = true)
    (hrest : ∀ b ∈ rest.head?, IsTerminator b) :
    codeLines (before ++ line ++ rest) = codeLines before := by
  have hne : line ≠ [] := by
    rintro rfl
    cases hbody
  obtain ⟨ending, more, hlines, hending⟩ := exists_lines_eq hbefore hne hline hrest
  have hkind : lineKind (Text.lower (lineText (line ++ ending))) = .body := by
    rw [lineText_append hline hending]
    exact lineKind_eq_body hbody
  rw [codeLines_eq, codeLines_eq, hlines, codeAfter_body hkind]

end Source

/-! ### Scans -/

/-- **Nothing is looked at from the first body on.**  Let the bytes `before` be empty or end with a
line terminator, and let the bytes `line`, which have no terminator in them, be those of a line that
begins a package body or an architecture when they are decoded and lower-cased.  After the line
comes its terminator and then anything at all, or nothing.  Then the whole is scanned to the same
outcome as `before`: to the same units, or to the same error when a declaration is open, and with
the same events reported. -/
theorem scanSource_before_body (filepath library : String) {before line rest : Bytes}
    (hbefore : before = [] ∨ before.getLast? = some lf ∨ before.getLast? = some cr)
    (hlf : lf ∉ line) (hcr : cr ∉ line)
    (hbody : opensPackageBody (Text.lower (Utf8.decode line)) = true ∨
      opensArchitecture (Text.lower (Utf8.decode line)) = true)
    (hrest : rest = [] ∨ rest.head? = some lf ∨ rest.head? = some cr) :
    scanSource filepath library (before ++ line ++ rest) = scanSource filepath library before := by
  have hbefore' : before = [] ∨ ∃ b, before.getLast? = some b ∧ IsTerminator b := by
    rcases hbefore with hnil | hlast | hlast
    · exact Or.inl hnil
    · exact Or.inr ⟨lf, hlast, Or.inl rfl⟩
    · exact Or.inr ⟨cr, hlast, Or.inr rfl⟩
  have hline : Plain line := by
    rintro b hb (rfl | rfl)
    · exact hlf hb
    · exact hcr hb
  have hopens : opensBody (Text.lower (Utf8.decode line)) = true := by
    rwa [opensBody, Bool.or_eq_true]
  have hrest' : ∀ b ∈ rest.head?, IsTerminator b := by
    intro b hb
    rcases hrest with rfl | hhead | hhead
    · cases hb
    · exact Or.inl (Option.some.inj (hb.symm.trans hhead))
    · exact Or.inr (Option.some.inj (hb.symm.trans hhead))
  simp only [scanSource, codeLines_before_body hbefore' hline hopens hrest']

/-- A package body that comes inside the parameter list of a procedure, and an architecture on the
last line after a package that is complete.  The lines that would close the procedure and the
package stand after the body and are not seen. -/
theorem scanSource_before_body_samples :
    let opened : Bytes := "package p is\n  procedure q(\r".toUTF8.data.toList
    let line : Bytes := "\tPACKAGE  BODY p IS -- here".toUTF8.data.toList
    let rest : Bytes := "\r\n);\nend p;\nentity e is\nend;\n".toUTF8.data.toList
    let final : Bytes := "architecture a of e is".toUTF8.data.toList
    (lf ∉ line ∧ cr ∉ line ∧ opensPackageBody (Text.lower (Utf8.decode line)) = true) ∧
    (scanSource "f.vhd" "Work" (opened ++ line ++ rest)).result =
      .error (.unterminated "f.vhd" (.member .procedure) "q" 2) ∧
    (lf ∉ final ∧ cr ∉ final ∧ opensArchitecture (Text.lower (Utf8.decode final)) = true) ∧
    ∃ file, (scanSource "f.vhd" "Work" (upperSample ++ final ++ [])).result = .ok file ∧
      file.units.length = 1 := by
  intro opened line rest final
  have hline : lf ∉ line ∧ cr ∉ line ∧ opensPackageBody (Text.lower (Utf8.decode line)) = true := by
    decide +kernel
  have hfinal : lf ∉ final ∧ cr ∉ final ∧
      opensArchitecture (Text.lower (Utf8.decode final)) = true := by
    decide +kernel
  refine ⟨hline, ?_, hfinal, ?_⟩
  · rw [scanSource_before_body "f.vhd" "Work" (Or.inr (Or.inr (by decide +kernel))) hline.1
      hline.2.1 (Or.inl hline.2.2) (Or.inr (Or.inr (by decide +kernel)))]
    exact eq_error_of_failure? (by decide +kernel)
  · rw [scanSource_before_body "f.vhd" "Work" (Or.inr (Or.inr (by decide +kernel))) hfinal.1
      hfinal.2.1 (Or.inr hfinal.2.2) (Or.inl rfl)]
    exact exists_ok_of_toOption (f := fun file : FileScan => file.units.length) (b := 1)
      (x := (scanSource "f.vhd" "Work" upperSample).result) (by decide +kernel)

end VhdlCatalog
