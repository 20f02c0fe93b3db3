import VhdlCatalog.Proofs.Closings
import VhdlCatalog.Proofs.LibraryNames
import VhdlCatalog.Proofs.Spacing

/-!
**The lines of a member.**

Every member of a package that a scan returns has been read from a block of code lines.  The block
can be found again from the outside, as the code lines in the range of the member's declaration.
What is said of code lines therefore holds of the lines of every member; in particular none of them
is empty without its comment.

Main definitions:

* `VhdlCatalog.Declaration.linesIn` — the code lines in the range of a declaration.

Main results:

* `VhdlCatalog.exists_memberBlock_of_scanSource` — **every member has a block** among the code lines
  of its file;
* `VhdlCatalog.Scan.MemberBlock.linesIn_eq` — the block is what the range holds;
* `VhdlCatalog.signature_ne_nil_of_mem_codeLines` — a code line has a character that is neither
  white space nor comment.
-/

set_option relaxedAutoImplicit false
set_option autoImplicit false

namespace VhdlCatalog

open Source

/-! ### Code lines are not empty -/

section Solid

variable {data : Bytes} {l : CodeLine}

/-- Lower-casing leaves white space alone. -/
theorem isLowered_of_isBlank {c : Char} (h : isBlank c = true) : isLowered c = true := by
  have hblanks : ∀ r ∈ blanks.ranges, ∀ k < r.2 + 1 - r.1,
      isLowered (Char.ofNat (r.1 + k)) = true := by
    decide +kernel
  obtain ⟨r, hr, hfirst, hlast⟩ := (CharSet.contains_iff _ _).1 h
  have hlowered := hblanks r hr (c.toNat - r.1) (by omega)
  rwa [Nat.add_sub_cancel' hfirst, Char.ofNat_toNat] at hlowered

/-- A line whose part before the comment is white space is blank or a comment line. -/
theorem lineKind_ne_code {line : List Char} (h : Text.solid (stripComment line) = []) :
    lineKind line ≠ .code := by
  have hblank := Text.solid_eq_nil_iff.1 h
  obtain ⟨d, hd, hline⟩ := exists_tail line
  rcases hd with rfl | ⟨cs, rfl⟩
  · rw [List.append_nil] at hline
    have hall : line.all isBlank = true := by
      rw [hline]
      exact List.all_eq_true.2 hblank
    rw [lineKind, if_pos hall]
    decide
  · have hcomment : isCommentLine line = true := by
      have hskip : Text.skipBlanks line = '-' :: '-' :: cs := by
        rw [hline, Text.skipBlanks, List.dropWhile_append_of_pos hblank]
        exact List.dropWhile_cons_of_neg (by decide)
      rw [isCommentLine, hskip]
      rfl
    rw [(lineKind_eq_comment_iff line).2 hcomment]
    decide

/-- **A code line has code**: without its comment it is not white space only. -/
theorem solid_ne_nil_of_mem_codeLines (h : l ∈ codeLines data) :
    Text.solid (stripComment l.text) ≠ [] := by
  intro hsolid
  have hmem : l.place ∈ codePlaces data := map_place_codeLines data ▸ List.mem_map_of_mem h
  have hkind : l.place.kind = .code := by simpa using List.of_mem_filter hmem
  refine lineKind_ne_code ?_ hkind
  -- lower-casing does not turn white space into anything else
  have hlower : stripComment l.line = stripComment l.text := by
    rw [CodeLine.line, stripComment_lower]
    refine Text.lowerFrom_of_isLowered fun c hc => ?_
    exact isLowered_of_isBlank (Text.solid_eq_nil_iff.1 hsolid c hc)
  rw [CodeLine.place_line, hlower, hsolid]

theorem signature_ne_nil_of_mem_codeLines (h : l ∈ codeLines data) : l.signature ≠ [] := by
  intro hnil
  refine solid_ne_nil_of_mem_codeLines h ?_
  rw [← solid_collapse]
  exact congrArg Text.solid hnil

end Solid

/-! ### Blocks and ranges -/

/-- The code lines in the range of the declaration. -/
def Declaration.linesIn (d : Declaration) (data : Bytes) : List SourceLine :=
  (codePlaces data).filter d.contains

namespace Scan

theorem MemberBlock.spans_member (t : Target) (scope : String) (b : MemberBlock)
    (name : List Char) : (b.member t scope name).declaration.Spans b.first b.last :=
  ⟨rfl, rfl, rfl, rfl, rfl⟩

theorem MemberBlock.first_mem_lines (b : MemberBlock) : b.first ∈ b.lines := by
  rw [b.lines_eq_cons]
  exact List.mem_cons_self ..

variable {data : Bytes} {as bs : List CodeLine} {d : Declaration}

/-- **The range of a member** holds the lines of its block and no others. -/
theorem MemberBlock.linesIn_eq (b : MemberBlock) (h : codeLines data = as ++ (b.lines ++ bs))
    (hd : d.Spans b.first b.last) : d.linesIn data = b.lines.map CodeLine.place := by
  have hord := ordered_codeLines data
  rw [h] at hord
  have hcons : b.lines ++ bs = b.first :: (b.lines.tail ++ bs) := by
    rw [← List.cons_append, ← b.lines_eq_cons]
  have hlast : b.lines ++ bs = b.before ++ b.last :: bs := by
    rw [lines, List.append_assoc]
    rfl
  have hboth : (fun l : CodeLine => d.contains l.place) = fun l =>
      decide (l.stop ≤ b.last.stop) && decide (b.first.start ≤ l.start) := by
    funext l
    rw [Declaration.contains, hd.codeStart, hd.codeStop, Bool.and_comm]
    simp
  -- first the lines before the block go, then those after it
  have hafter : (codeLines data).filter (fun l => decide (b.first.start ≤ l.start)) =
      b.lines ++ bs := by
    rw [h, hcons]
    rw [hcons] at hord
    rw [hord.filter_suffix (by simp) (by simp; omega)]
    simp
  have hbefore : (b.lines ++ bs).filter (fun l => decide (l.stop ≤ b.last.stop)) = b.lines := by
    have hord' := (ordered_append.1 hord).2.1
    rw [hlast] at hord' ⊢
    rw [hord'.filter_initial (by simp; omega) (by simp)]
    simp [lines]
  rw [Declaration.linesIn, filter_codePlaces, hboth, ← List.filter_filter, hafter, hbefore]

end Scan

/-! ### Members of a file -/

variable {filepath library : String} {data : Bytes} {file : FileScan}

/-- **Every member has a block** among the code lines of its file. -/
theorem exists_memberBlock_of_scanSource (h : (scanSource filepath library data).result = .ok file)
    {p : Package} (hp : Symbol.package p ∈ file.units) {m : Member} (hm : m ∈ p.members) :
    ∃ (b : Scan.MemberBlock) (as bs : List CodeLine), codeLines data = as ++ (b.lines ++ bs) ∧
      ∃ name ∈ b.opening.names,
        m = b.member (.ofFile filepath library) p.declaration.qualifiedName name := by
  obtain ⟨items, hlines, hunits⟩ := exists_items_of_scanSource h
  rw [hunits] at hp
  obtain ⟨b, hb, rfl⟩ := Scan.FileItem.exists_package_of_mem hp
  obtain ⟨as, bs, hsplit⟩ := Scan.FileItem.exists_split_of_package hb
  obtain ⟨item, hitem, hm⟩ := Scan.PackageBlock.mem_members.1 hm
  cases item with
  | other l _ _ => simp [Scan.HeaderItem.members] at hm
  | member c =>
      obtain ⟨name, hname, rfl⟩ := List.mem_map.1 hm
      obtain ⟨as', bs', hinner⟩ := Scan.HeaderItem.exists_split_of_member hitem
      refine ⟨c, as ++ b.first :: as', bs' ++ b.last :: bs, ?_, name, hname, rfl⟩
      rw [hlines, hsplit, hinner]
      simp

end VhdlCatalog
