import VhdlCatalog.Proofs.Canonical
import VhdlCatalog.Proofs.CommentRun

/-!
**Sources in canonical form.**

A source in canonical form is a list of documented units, printed one after another.  Every line of
it is a comment line or a code line, so the cursor passes over the one and hands out the other.

Main definitions:

* `VhdlCatalog.Canonical.Comment`, `VhdlCatalog.Canonical.Documented` — a term and the comment
  lines above it;
* `VhdlCatalog.Canonical.DesignUnit` — entities and packages;
* `VhdlCatalog.Canonical.PrintedLine`, `VhdlCatalog.Canonical.source` — the lines of a source, and
  the source;
* `VhdlCatalog.Canonical.codeFollowing` — the code lines among printed lines.

Main results:

* `VhdlCatalog.Canonical.PrintedLine.kind_raw` — every printed line is of the kind it is printed
  as;
* `VhdlCatalog.Canonical.codeLines_source` — **the code lines of the source** are those that are
  printed.
-/

set_option relaxedAutoImplicit false
set_option autoImplicit false

namespace VhdlCatalog.Canonical

open Source

/-! ### Units -/

/-- What follows `--` in a comment line. -/
structure Comment where
  text : List Char
  oneLine : OneLine text

/-- A term with the comment lines above it. -/
structure Documented (α : Type) where
  docs : List Comment
  term : α

/-- An entity, or a package with its members. -/
inductive DesignUnit where
  | entity (name : Identifier)
  | package (name : Identifier) (members : List (Documented Item))

/-! ### Printing -/

/-- A row of pieces that is taken for code. -/
def IsCode (ps : List Piece) : Prop := lineKind (render ps) = .code

/-- A line of a source: a comment after `k` spaces, or code. -/
inductive PrintedLine where
  | comment (k : Nat) (c : Comment)
  | code (ps : List Piece) (isCode : IsCode ps)

/-- The text of a line. -/
def PrintedLine.text : PrintedLine → List Char
  | comment k c => List.replicate k ' ' ++ '-' :: '-' :: ' ' :: c.text
  | code ps _ => render ps

/-- The comment lines above a term, after `k` spaces each. -/
def commentLines (k : Nat) (docs : List Comment) : List PrintedLine := docs.map (.comment k)

/-- The text of several lines, each with its line feed. -/
def textOf (ls : List PrintedLine) : List Char := ls.flatMap fun l => l.text ++ ['\n']

/-! ### Rows of code -/

section Kinds

variable {k : Nat} {ps : List Piece}

theorem skipBlanks_indented (k : Nat) (ps : List Piece) :
    Text.skipBlanks (render (indented k ps)) = Text.skipBlanks (render ps) := by
  induction k with
  | zero => rfl
  | succ k ih => exact (skipBlanks_space (indented k ps)).trans ih

theorem all_isBlank_eq_false (h : Text.skipBlanks (render ps) ≠ []) :
    (render ps).all isBlank = false := by
  refine Bool.eq_false_iff.2 fun hall => h ?_
  rw [Text.skipBlanks, List.dropWhile_eq_nil_iff]
  exact List.all_eq_true.1 hall

theorem isCommentLine_render (ps : List Piece) : isCommentLine (render ps) = false := by
  rw [isCommentLine]
  cases hafter : Text.afterLiteral? ['-', '-'] (Text.skipBlanks (render ps)) with
  | none => rfl
  | some rest =>
      have hsplit := (Text.afterLiteral?_eq_some_iff _ _ _).1 hafter
      have hsuffix : Text.skipBlanks (render ps) <:+ render ps := List.dropWhile_suffix _
      have hmem : '-' ∈ render ps := by
        refine hsuffix.mem ?_
        rw [hsplit]
        simp
      exact absurd (isQuiet_of_mem_render _ hmem) (by decide)

/-- A row is code if it is not blank and begins neither a package body nor an architecture. -/
theorem isCode_of_keywords (hblank : Text.skipBlanks (render ps) ≠ [])
    (hpackage : (Token.keyword? "package" (render ps)).bind (Token.keyword? "body") = none)
    (harchitecture : Token.keyword? "architecture" (render ps) = none) : IsCode ps := by
  have hbody : opensPackageBody (render ps) = false := by
    rw [Option.bind_eq_none_iff] at hpackage
    simp only [opensPackageBody, Option.bind_eq_bind]
    cases hk : Token.keyword? "package" (render ps) with
    | none => rfl
    | some rest => rw [Option.bind_some, hpackage rest hk, Option.bind_none, Option.isSome_none]
  have harch : opensArchitecture (render ps) = false := by
    rw [opensArchitecture, harchitecture]
    rfl
  rw [IsCode, lineKind, all_isBlank_eq_false hblank, isCommentLine_render, hbody, harch]
  rfl

theorem isCode_mark (k : Nat) (m : Mark) (ps : List Piece) :
    IsCode (indented k (.mark m :: ps)) := by
  refine isCode_of_keywords ?_ ?_ ?_
  · rw [skipBlanks_indented, skipBlanks_mark]
    exact List.cons_ne_nil _ _
  · rw [keyword?_indented, keyword?_mark (by decide)]
    rfl
  · rw [keyword?_indented, keyword?_mark (by decide)]

theorem isCode_word (k : Nat) {w : Word} (hpackage : w.chars ≠ "package".toList)
    (harchitecture : w.chars ≠ "architecture".toList) (hps : startsWord ps = false) :
    IsCode (indented k (.word w :: ps)) := by
  refine isCode_of_keywords ?_ ?_ ?_
  · rw [skipBlanks_indented, skipBlanks_word]
    exact List.append_ne_nil_of_left_ne_nil w.ne_nil _
  · rw [keyword?_indented, keyword?_word (by decide) hps, if_neg hpackage]
    rfl
  · rw [keyword?_indented, keyword?_word (by decide) hps, if_neg harchitecture]

theorem isCode_identifier (k : Nat) (n : Identifier) (hps : startsWord ps = false) :
    IsCode (indented k (n.piece :: ps)) :=
  isCode_word k (n.ne_of_mem_reservedWords (by decide)) (n.ne_of_mem_reservedWords (by decide)) hps

/-- A package is not a package body, since its name is not `body`. -/
theorem isCode_packageHead (n : Identifier) : IsCode (unitHead (key "package") n) := by
  have hbody : n.word.chars ≠ "body".toList := n.ne_of_mem_reservedWords (by decide)
  have hpackage : Token.keyword? "package" (render (unitHead (key "package") n)) =
      some (render [.space, n.piece, .space, key "is"]) := keyword?_key rfl
  refine isCode_of_keywords ?_ ?_ ?_
  · rw [unitHead, key, skipBlanks_word]
    exact List.append_ne_nil_of_left_ne_nil (Word.ne_nil _) _
  · rw [hpackage, Option.bind_some, keyword?_space, Identifier.piece,
      keyword?_word (by decide) rfl, if_neg hbody]
  · exact keyword?_key_of_ne (by decide) (by decide) rfl

theorem isCode_entityHead (n : Identifier) : IsCode (unitHead (key "entity") n) :=
  isCode_word 0 (by decide) (by decide) rfl

theorem isCode_ending (word : Piece) : IsCode (ending word) :=
  isCode_word 0 (by decide) (by decide) rfl

end Kinds

theorem isCode_joined {k : Nat} {m : Mark} {pss : List (List Piece)}
    (h : ∀ qs ∈ pss, ∃ (n : Identifier) (ps : List Piece), qs = n.piece :: ps ∧
      startsWord ps = false) :
    ∀ ps ∈ joined m pss, IsCode (indented k ps) := by
  intro ps hps
  obtain ⟨qs, hqs, hps⟩ := mem_joined hps
  obtain ⟨n, rest, rfl, hrest⟩ := h qs hqs
  rcases hps with rfl | rfl
  · exact isCode_identifier k n hrest
  · refine isCode_identifier k n ?_
    cases rest with
    | nil => rfl
    | cons p rest => cases p <;> first | rfl | cases hrest

/-- **All lines of a member** are code lines. -/
theorem Item.isCode_of_mem_lines (k : Nat) (item : Item) : ∀ ps ∈ item.lines k, IsCode ps := by
  cases item with
  | constant names mark value =>
      refine List.forall_mem_singleton.2 (isCode_word k (by decide) (by decide) rfl)
  | array name index element =>
      refine List.forall_mem_singleton.2 (isCode_word k (by decide) (by decide) rfl)
  | enum name literals =>
      refine forall_mem_framed (isCode_word k (by decide) (by decide) rfl) (isCode_joined ?_)
        (isCode_mark ..)
      intro qs hqs
      obtain ⟨n, -, rfl⟩ := List.mem_map.1 hqs
      exact ⟨n, [], rfl, rfl⟩
  | record name fields =>
      refine forall_mem_framed (isCode_word k (by decide) (by decide) rfl) ?_
        (isCode_word k (by decide) (by decide) rfl)
      intro ps hps
      obtain ⟨f, -, rfl⟩ := List.mem_map.1 hps
      exact isCode_identifier _ f.name rfl
  | function name parameters result =>
      cases parameters with
      | none => exact List.forall_mem_singleton.2 (isCode_word k (by decide) (by decide) rfl)
      | some parameters =>
          refine forall_mem_framed (isCode_word k (by decide) (by decide) rfl) (isCode_joined ?_)
            (isCode_mark ..)
          intro qs hqs
          obtain ⟨p, -, rfl⟩ := List.mem_map.1 hqs
          exact ⟨p.name, _, rfl, rfl⟩
  | procedure name parameters =>
      cases parameters with
      | none => exact List.forall_mem_singleton.2 (isCode_word k (by decide) (by decide) rfl)
      | some parameters =>
          refine forall_mem_framed (isCode_word k (by decide) (by decide) rfl) (isCode_joined ?_)
            (isCode_mark ..)
          intro qs hqs
          obtain ⟨p, -, rfl⟩ := List.mem_map.1 hqs
          exact ⟨p.name, _, rfl, rfl⟩
  | subtype name mark range =>
      refine List.forall_mem_singleton.2 (isCode_word k (by decide) (by decide) rfl)

/-! ### Sources -/

/-- The lines of a member that is indented by `k` spaces. -/
def Item.printed (k : Nat) (item : Item) : List PrintedLine :=
  List.pmap .code (item.lines k) (item.isCode_of_mem_lines k)

/-- The lines of a documented member. -/
def printedMember (k : Nat) (m : Documented Item) : List PrintedLine :=
  commentLines k m.docs ++ m.term.printed k

/-- The lines of a unit, whose members are indented by `k` spaces. -/
def DesignUnit.printed (k : Nat) : DesignUnit → List PrintedLine
  | entity name =>
      [.code (unitHead (key "entity") name) (isCode_entityHead name),
        .code (ending (key "entity")) (isCode_ending _)]
  | package name members =>
      .code (unitHead (key "package") name) (isCode_packageHead name) ::
        (members.flatMap (printedMember k) ++
          [.code (ending (key "package")) (isCode_ending _)])

/-- The lines of a documented unit. -/
def printedUnit (k : Nat) (u : Documented DesignUnit) : List PrintedLine :=
  commentLines 0 u.docs ++ u.term.printed k

/-- The source in which the units are printed one after another. -/
def source (k : Nat) (units : List (Documented DesignUnit)) : Bytes :=
  Utf8.encode (textOf (units.flatMap (printedUnit k)))

/-! ### Bytes of lines -/

namespace PrintedLine

/-- The bytes of a line and its line feed. -/
def raw (l : PrintedLine) : Bytes := rawLine l.text

/-- The line is printed as code. -/
def isCodeLine : PrintedLine → Bool
  | comment .. => false
  | code .. => true

theorem oneLine_text (l : PrintedLine) : OneLine l.text := by
  cases l with
  | comment k c =>
      have hnot : ∀ x : Char, x ≠ ' ' → x ≠ '-' → x ∉ c.text →
          x ∉ List.replicate k ' ' ++ '-' :: '-' :: ' ' :: c.text := by
        intro x hspace hhyphen hx
        simp [hspace, hhyphen, hx]
      exact ⟨hnot _ (by decide) (by decide) c.oneLine.1, hnot _ (by decide) (by decide) c.oneLine.2⟩
  | code ps _ => exact oneLine_render ps

theorem lineText_raw (l : PrintedLine) : lineText l.raw = l.text := lineText_rawLine l.oneLine_text

/-- Lower-casing leaves the `--` of a comment line where it is. -/
theorem exists_lowerFrom_comment (afterCased : Bool) (k : Nat) (cs : List Char) :
    ∃ cs', Text.lowerFrom afterCased (List.replicate k ' ' ++ '-' :: '-' :: cs) =
      List.replicate k ' ' ++ '-' :: '-' :: cs' := by
  induction k generalizing afterCased with
  | zero =>
      rw [List.replicate_zero, List.nil_append, Text.lowerFrom_cons, Text.image_hyphen,
        Text.lowerFrom_cons, Text.image_hyphen]
      exact ⟨_, rfl⟩
  | succ k ih =>
      obtain ⟨cs', hcs'⟩ := ih (if isCaseIgnorable ' ' then afterCased else isCased ' ')
      refine ⟨cs', ?_⟩
      rw [List.replicate_succ, List.cons_append, Text.lowerFrom_cons, hcs']
      rfl

theorem isCommentLine_comment (k : Nat) (c : Comment) :
    isCommentLine (Text.lower (comment k c).text) = true := by
  obtain ⟨cs, hcs⟩ := exists_lowerFrom_comment false k (' ' :: c.text)
  have hskip : Text.skipBlanks (List.replicate k ' ' ++ '-' :: '-' :: cs) = '-' :: '-' :: cs := by
    rw [Text.skipBlanks, List.dropWhile_append_of_pos, List.dropWhile_cons_of_neg (by decide)]
    intro x hx
    rw [List.eq_of_mem_replicate hx]
    rfl
  rw [isCommentLine, text, Text.lower, hcs, hskip]
  rfl

/-- **A printed line is of the kind it is printed as.** -/
theorem kind_raw (l : PrintedLine) :
    lineKind (Text.lower (lineText l.raw)) = if l.isCodeLine then .code else .comment := by
  rw [lineText_raw]
  cases l with
  | comment k c => exact (lineKind_eq_comment_iff _).2 (isCommentLine_comment k c)
  | code ps h =>
      rw [text, lower_render, h]
      rfl

theorem isCommentBytes_raw (l : PrintedLine) : isCommentBytes l.raw = !l.isCodeLine := by
  have hkind := l.kind_raw
  cases hl : l.isCodeLine with
  | true => exact isCommentBytes_eq_false (by simp [hkind, hl])
  | false =>
      rw [hl] at hkind
      exact (lineKind_eq_comment_iff _).1 hkind

end PrintedLine

/-- The bytes of several lines, line by line. -/
def raws (ls : List PrintedLine) : List Bytes := ls.map PrintedLine.raw

theorem raws_append (as bs : List PrintedLine) : raws (as ++ bs) = raws as ++ raws bs :=
  List.map_append

theorem encode_textOf (ls : List PrintedLine) :
    Utf8.encode (textOf ls) = (raws ls).flatten := by
  induction ls with
  | nil => rfl
  | cons l ls ih =>
      rw [textOf, List.flatMap_cons, ← textOf, Utf8.encode_append, Utf8.encode_append, ih]
      rfl

theorem decode_raws (ls : List PrintedLine) :
    Utf8.decode (raws ls).flatten = textOf ls := by
  rw [← encode_textOf, Utf8.decode_encode]

theorem lines_encode_textOf (ls : List PrintedLine) :
    lines (Utf8.encode (textOf ls)) = raws ls := by
  have htexts : ∀ text ∈ ls.map PrintedLine.text, OneLine text := by
    intro text htext
    obtain ⟨l, -, rfl⟩ := List.mem_map.1 htext
    exact l.oneLine_text
  have hlines := lines_rawLines htexts
  rw [List.map_map] at hlines
  rw [encode_textOf]
  exact hlines

/-! ### Code lines -/

/-- The code lines among printed lines that come after the lines `before`. -/
def codeFollowing (before : List Bytes) : List PrintedLine → List CodeLine
  | [] => []
  | l :: ls =>
      (if l.isCodeLine then [.following before l.raw] else []) ++
        codeFollowing (before ++ [l.raw]) ls

theorem codeFollowing_append (before : List Bytes) (as bs : List PrintedLine) :
    codeFollowing before (as ++ bs) =
      codeFollowing before as ++ codeFollowing (before ++ raws as) bs := by
  induction as generalizing before with
  | nil => simp [codeFollowing, raws]
  | cons a as ih =>
      rw [List.cons_append, codeFollowing, codeFollowing, ih, List.append_assoc, List.append_assoc]
      rfl

theorem codeFollowing_comments (before : List Bytes) (k : Nat) (docs : List Comment) :
    codeFollowing before (commentLines k docs) = [] := by
  induction docs generalizing before with
  | nil => rfl
  | cons c docs ih => exact ih _

/-- The cursor hands out the code lines and passes over the comments. -/
theorem codeLines_of_tracks {c : Cursor} {before : List Bytes} (h : c.Tracks before)
    (ls : List PrintedLine) :
    c.codeLines (raws ls) = codeFollowing before ls := by
  induction ls generalizing c before with
  | nil => rfl
  | cons l ls ih =>
      have hkind := l.kind_raw
      rw [← kind_following before] at hkind
      rw [raws, List.map_cons, ← raws, Cursor.codeLines, codeFollowing]
      obtain ⟨c', hv, ht, -, hcode⟩ | ⟨c', hv, hbody⟩ | ⟨c', hv, ht, hcode⟩ := h.visit l.raw
      · cases hl : l.isCodeLine with
        | true => simp [hkind, hl] at hcode
        | false =>
            simp only [hv]
            exact ih ht
      · rw [hbody] at hkind
        cases hl : l.isCodeLine <;> simp [hl] at hkind
      · cases hl : l.isCodeLine with
        | true =>
            simp only [hv]
            exact congrArg (_ :: ·) (ih ht)
        | false => simp [hkind, hl] at hcode

/-- **The code lines of the source** are those that are printed. -/
theorem codeLines_source (k : Nat) (units : List (Documented DesignUnit)) :
    codeLines (source k units) = codeFollowing [] (units.flatMap (printedUnit k)) := by
  rw [codeLines, source, lines_encode_textOf]
  exact codeLines_of_tracks Cursor.tracks_atStart _

end VhdlCatalog.Canonical
