import VhdlCatalog.Proofs.Piece
import VhdlCatalog.Scan.Opening

/-!
**Declarations in canonical form.**

The declarations that a catalog documents, each in the form in which they are usually written: one
line for constants, arrays and subtypes, and one line for every literal, field and parameter of the
others.  This module has the terms and their lines, and shows that the first line of a member is
recognised for what it is.

Main definitions:

* `VhdlCatalog.Canonical.Identifier` — the names that a program may give;
* `VhdlCatalog.Canonical.Item` — the members of packages;
* `VhdlCatalog.Canonical.Item.lines` — the lines of a member;
* `VhdlCatalog.Canonical.Item.opening` — what it declares.

Main results:

* `VhdlCatalog.Canonical.Item.memberOpening?_head` — **the first line** opens the member.
-/

set_option relaxedAutoImplicit false
set_option autoImplicit false

namespace VhdlCatalog.Canonical

open Source

/-! ### Names and values -/

/-- The words that every version of the language reserves. -/
def reservedWords : List String :=
  ["abs", "access", "after", "alias", "all", "and", "architecture", "array", "assert", "attribute",
    "begin", "block", "body", "buffer", "bus", "case", "component", "configuration", "constant",
    "disconnect", "downto", "else", "elsif", "end", "entity", "exit", "file", "for", "function",
    "generate", "generic", "guarded", "if", "in", "inout", "is", "label", "library", "linkage",
    "loop", "map", "mod", "nand", "new", "next", "nor", "not", "null", "of", "on", "open", "or",
    "others", "out", "package", "port", "procedure", "process", "range", "record", "register",
    "rem", "report", "return", "select", "severity", "signal", "subtype", "then", "to",
    "transport", "type", "units", "until", "use", "variable", "wait", "when", "while", "with",
    "xor"]

/-- A lower-case letter or a digit. -/
def isLetterOrDigit (c : Char) : Bool := c.isLower || c.isDigit

/-- Letters and digits, with single underscores between them. -/
def continuesIdentifier : List Char → Bool
  | [] => true
  | '_' :: c :: cs => isLetterOrDigit c && continuesIdentifier cs
  | c :: cs => isLetterOrDigit c && continuesIdentifier cs

/-- A letter, and then letters and digits with single underscores between them. -/
def isIdentifier : List Char → Bool
  | [] => false
  | c :: cs => c.isLower && continuesIdentifier cs

/-- A name in lower case. -/
structure Identifier where
  chars : List Char
  wellFormed : isIdentifier chars = true
  notReserved : String.ofList chars ∉ reservedWords

theorem isPlain_of_continuesIdentifier {cs : List Char} (h : continuesIdentifier cs = true) :
    ∀ c ∈ cs, isPlain c = true := by
  have hplain : ∀ c, isLetterOrDigit c = true → isPlain c = true := by
    intro c hc
    rw [isPlain, ← isLetterOrDigit, hc, Bool.true_or]
  fun_induction continuesIdentifier cs with
  | case1 => simp
  | case2 c cs ih =>
      rw [Bool.and_eq_true] at h
      exact List.forall_mem_cons.2 ⟨rfl, List.forall_mem_cons.2 ⟨hplain c h.1, ih h.2⟩⟩
  | case3 c cs _ ih =>
      rw [Bool.and_eq_true] at h
      exact List.forall_mem_cons.2 ⟨hplain c h.1, ih h.2⟩

namespace Identifier

/-- The name as a word. -/
def word (n : Identifier) : Word where
  chars := n.chars
  plain := by
    obtain ⟨chars, wellFormed, _⟩ := n
    cases chars with
    | nil => cases wellFormed
    | cons c cs =>
        rw [isIdentifier, Bool.and_eq_true] at wellFormed
        have hc : isPlain c = true := by rw [isPlain, wellFormed.1]; rfl
        simpa [isPlainWord, hc] using isPlain_of_continuesIdentifier wellFormed.2

/-- The name as a piece of a line. -/
def piece (n : Identifier) : Piece := .word n.word

theorem ne_of_mem_reservedWords (n : Identifier) {s : String} (h : s ∈ reservedWords) :
    n.word.chars ≠ s.toList := by
  intro heq
  refine n.notReserved ?_
  have hchars : n.chars = s.toList := heq
  rw [hchars, String.ofList_toList]
  exact h

end Identifier

/-- A row of digits. -/
structure Digits where
  chars : List Char
  ne_nil : chars ≠ []
  isDigit : ∀ c ∈ chars, c.isDigit = true

/-- The digits as a piece of a line. -/
def Digits.piece (d : Digits) : Piece :=
  .word ⟨d.chars, by
    have hall : ∀ c ∈ d.chars, isPlain c = true := by
      intro c hc
      rw [isPlain, d.isDigit c hc, Bool.or_true, Bool.true_or]
    simpa [isPlainWord, d.ne_nil] using hall⟩

/-- A name or a number, which may have a fraction. -/
inductive Value where
  | name (n : Identifier)
  | number (whole : Digits) (fraction : Option Digits)

def Value.pieces : Value → List Piece
  | name n => [n.piece]
  | number whole none => [whole.piece]
  | number whole (some fraction) => [whole.piece, .mark .point, fraction.piece]

/-- `low to high` -/
structure Range where
  low : Value
  high : Value

def Range.pieces (r : Range) : List Piece :=
  r.low.pieces ++ [.space, key "to", .space] ++ r.high.pieces

/-- What an array is indexed by: a range, or any range of a type. -/
inductive Index where
  | bounded (range : Range)
  | unbounded (mark : Identifier)

def Index.pieces : Index → List Piece
  | bounded range => range.pieces
  | unbounded mark => [mark.piece, .space, key "range", .space, .mark .less, .mark .greater]

/-! ### Members -/

/-- The names of a constant declaration, which are pairwise distinct. -/
structure Names where
  first : Identifier
  others : List Identifier
  distinct : ((first :: others).map Identifier.chars).Nodup

def Names.pieces (ns : Names) : List Piece :=
  ns.first.piece :: ns.others.flatMap fun n => [.mark .comma, .space, n.piece]

/-- A field of a record: `name : mark;` -/
structure Field where
  name : Identifier
  mark : Identifier

def Field.pieces (f : Field) : List Piece :=
  [f.name.piece, .space, .mark .colon, .space, f.mark.piece, .mark .semicolon]

/-- Which way a parameter goes. -/
inductive Mode where
  | inward | outward | both

def Mode.piece : Mode → Piece
  | inward => key "in"
  | outward => key "out"
  | both => key "inout"

/-- A parameter of a subprogram: `name : mark` or `name : mode mark` -/
structure Parameter where
  name : Identifier
  mode : Option Mode
  mark : Identifier

def Parameter.pieces (p : Parameter) : List Piece :=
  [p.name.piece, .space, .mark .colon, .space] ++
    (p.mode.elim [] fun m => [m.piece, .space]) ++ [p.mark.piece]

/-- A member of a package. -/
inductive Item where
  | constant (names : Names) (mark : Identifier) (value : Value)
  | array (name : Identifier) (index : Index) (element : Identifier)
  | enum (name : Identifier) (literals : List Identifier)
  | record (name : Identifier) (fields : List Field)
  | function (name : Identifier) (parameters : Option (List Parameter)) (result : Identifier)
  | procedure (name : Identifier) (parameters : Option (List Parameter))
  | subtype (name : Identifier) (mark : Identifier) (range : Option Range)

/-! ### Lines -/

/-- The line with spaces in front. -/
def indented (k : Nat) (ps : List Piece) : List Piece := List.replicate k .space ++ ps

/-- The lines with a mark after each but the last. -/
def joined (m : Mark) : List (List Piece) → List (List Piece)
  | [] => []
  | [l] => [l]
  | l :: ls => (l ++ [.mark m]) :: joined m ls

/-- A first and a last line, and lines in between that stand further to the right. -/
def framed (k : Nat) (first : List Piece) (inner : List (List Piece)) (last : List Piece) :
    List (List Piece) :=
  (indented k first :: inner.map (indented (2 * k))) ++ [indented k last]

theorem mem_joined {m : Mark} {pss : List (List Piece)} {ps : List Piece}
    (h : ps ∈ joined m pss) : ∃ qs ∈ pss, ps = qs ∨ ps = qs ++ [.mark m] := by
  fun_induction joined m pss with
  | case1 => simp at h
  | case2 l => exact ⟨l, List.mem_cons_self .., Or.inl (List.mem_singleton.1 h)⟩
  | case3 l ls _ ih =>
      rcases List.mem_cons.1 h with rfl | h
      · exact ⟨l, List.mem_cons_self .., Or.inr rfl⟩
      · obtain ⟨qs, hqs, hps⟩ := ih h
        exact ⟨qs, List.mem_cons_of_mem _ hqs, hps⟩

section Framed

variable {P : List Piece → Prop} {k : Nat} {first last : List Piece} {inner : List (List Piece)}

/-- The rows before the last one. -/
theorem forall_mem_init (hfirst : P (indented k first))
    (hinner : ∀ ps ∈ inner, P (indented (2 * k) ps)) :
    ∀ ps ∈ indented k first :: inner.map (indented (2 * k)), P ps := by
  intro ps hps
  rcases List.mem_cons.1 hps with rfl | hps
  · exact hfirst
  · obtain ⟨qs, hqs, rfl⟩ := List.mem_map.1 hps
    exact hinner qs hqs

/-- All rows. -/
theorem forall_mem_framed (hfirst : P (indented k first))
    (hinner : ∀ ps ∈ inner, P (indented (2 * k) ps)) (hlast : P (indented k last)) :
    ∀ ps ∈ framed k first inner last, P ps := by
  intro ps hps
  rcases List.mem_append.1 hps with hps | hps
  · exact forall_mem_init hfirst hinner ps hps
  · rw [List.mem_singleton.1 hps]
    exact hlast

end Framed

/-- `type name is` -/
def typeHead (name : Identifier) : List Piece :=
  [key "type", .space, name.piece, .space, key "is", .space]

/-- `return mark;` -/
def returning (mark : Identifier) : List Piece :=
  [.space, key "return", .space, mark.piece, .mark .semicolon]

/-- `end word;` -/
def ending (word : Piece) : List Piece := [key "end", .space, word, .mark .semicolon]

/-- `word name is` -/
def unitHead (word : Piece) (name : Identifier) : List Piece :=
  [word, .space, name.piece, .space, key "is"]

namespace Item

/-- The lines of a member that is indented by `k` spaces. -/
def lines (k : Nat) : Item → List (List Piece)
  | constant names mark value =>
      [indented k ([key "constant", .space] ++ names.pieces ++ [.space, .mark .colon, .space,
        mark.piece, .space, .mark .colon, .mark .equals, .space] ++ value.pieces ++
        [.mark .semicolon])]
  | array name index element =>
      [indented k (typeHead name ++ [key "array", .space, .mark .opening] ++ index.pieces ++
        [.mark .closing, .space, key "of", .space, element.piece] ++ [.mark .semicolon])]
  | enum name literals =>
      framed k (typeHead name ++ [.mark .opening])
        (joined .comma (literals.map fun n => [n.piece])) [.mark .closing, .mark .semicolon]
  | record name fields =>
      framed k (typeHead name ++ [key "record"]) (fields.map Field.pieces) (ending (key "record"))
  | function name none result =>
      [indented k ([key "function", .space, name.piece] ++ returning result)]
  | function name (some parameters) result =>
      framed k [key "function", .space, name.piece, .mark .opening]
        (joined .semicolon (parameters.map Parameter.pieces)) (.mark .closing :: returning result)
  | procedure name none => [indented k [key "procedure", .space, name.piece, .mark .semicolon]]
  | procedure name (some parameters) =>
      framed k [key "procedure", .space, name.piece, .mark .opening]
        (joined .semicolon (parameters.map Parameter.pieces)) [.mark .closing, .mark .semicolon]
  | subtype name mark range =>
      [indented k ([key "subtype", .space, name.piece, .space, key "is", .space, mark.piece] ++
        (range.elim [] fun r => [.space, key "range", .space] ++ r.pieces) ++ [.mark .semicolon])]

/-- What the first line declares. -/
def opening : Item → Opening MemberForm
  | constant names .. => ⟨.constant, names.first.chars, names.others.map Identifier.chars⟩
  | array name .. => ⟨.arrayType, name.chars, []⟩
  | enum name _ => ⟨.enumType, name.chars, []⟩
  | record name _ => ⟨.recordType, name.chars, []⟩
  | function name .. => ⟨.function, name.chars, []⟩
  | procedure name _ => ⟨.procedure, name.chars, []⟩
  | subtype name .. => ⟨.subtype, name.chars, []⟩

end Item

/-! ### Opening lines -/

section Keys

variable {s s' : String} {hs : isPlainWord s.toList = true} {ps : List Piece}

theorem keyword?_key (hps : startsWord ps = false) :
    Token.keyword? s (render (key s hs :: ps)) = some (render ps) := by
  rw [key, keyword?_word hs hps, if_pos rfl]

theorem keyword?_key_of_ne (hs' : isPlainWord s'.toList = true) (hne : s ≠ s')
    (hps : startsWord ps = false) : Token.keyword? s' (render (key s hs :: ps)) = none := by
  rw [key, keyword?_word hs' hps, if_neg fun heq => hne (String.toList_inj.1 heq)]

theorem headed?_key_of_ne (hs' : isPlainWord s'.toList = true) (hne : s ≠ s')
    (hps : startsWord ps = false) : headed? s' (render (key s hs :: ps)) = none := by
  rw [headed?, keyword?_key_of_ne hs' hne hps]
  rfl

end Keys

theorem keyword?_indented (s : String) (k : Nat) (ps : List Piece) :
    Token.keyword? s (render (indented k ps)) = Token.keyword? s (render ps) := by
  induction k with
  | zero => rfl
  | succ k ih =>
      rw [indented, List.replicate_succ, List.cons_append, keyword?_space, ← ih, indented]

theorem memberOpening?_indented (k : Nat) (ps : List Piece) :
    memberOpening? (render (indented k ps)) = memberOpening? (render ps) := by
  have hfunction : Token.keyword? "function" (skipPurity (render (indented k ps))) =
      Token.keyword? "function" (skipPurity (render ps)) := by
    simp only [skipPurity, keyword?_indented]
    cases (Token.keyword? "pure" (render ps)).or (Token.keyword? "impure" (render ps)) with
    | none => exact keyword?_indented ..
    | some rest => rfl
  simp only [memberOpening?, memberOpenings, List.findSome?_cons, List.findSome?_nil,
    constantOpening?, arrayOpening?, enumOpening?, recordOpening?, functionOpening?,
    procedureOpening?, subtypeOpening?, headed?, keyword?_indented, hfunction]

theorem pieces_of_forall {p : Char → Bool} {cs : List Char} (h : ∀ c ∈ cs, p c = false) :
    Text.pieces p cs = [cs] := by
  induction cs with
  | nil => rfl
  | cons c cs ih =>
      obtain ⟨hc, hcs⟩ := List.forall_mem_cons.1 h
      rw [Text.pieces_cons, ih hcs, Text.extendPieces, if_neg (by simp [hc])]

theorem dropWhile_of_forall {p : Char → Bool} {cs : List Char} (h : ∀ c ∈ cs, p c = false) :
    cs.dropWhile p = cs := by
  cases cs with
  | nil => rfl
  | cons c cs => rw [List.dropWhile_cons_of_neg (by simp [h c (List.mem_cons_self ..)])]

/-- A designator without commas and white space declares one name. -/
theorem ofDesignator_of_forall {φ : Type} (form : φ) {cs : List Char}
    (hcomma : ∀ c ∈ cs, (c == ',') = false) (hblank : ∀ c ∈ cs, isBlank c = false) :
    Opening.ofDesignator form cs = ⟨form, cs, []⟩ := by
  have hstrip : Text.strip cs = cs := by
    rw [Text.strip, Text.skipBlanks, dropWhile_of_forall hblank, Text.trimEnd,
      dropWhile_of_forall fun c hc => hblank c (List.mem_reverse.1 hc), List.reverse_reverse]
  simp only [Opening.ofDesignator, pieces_of_forall hcomma, List.map_cons, List.map_nil, hstrip]

theorem ofDesignator_word {φ : Type} (form : φ) (w : Word) :
    Opening.ofDesignator form w.chars = ⟨form, w.chars, []⟩ := by
  refine ofDesignator_of_forall form (fun c hc => ?_) fun c hc =>
    (isPlain_facts (w.isPlain_of_mem hc)).2.1
  refine Bool.eq_false_iff.2 fun heq => ?_
  have hplain := w.isPlain_of_mem hc
  rw [beq_iff_eq.1 heq] at hplain
  cases hplain

section Openings

variable (name : Identifier) {ps : List Piece}

theorem headed?_key {s : String} {hs : isPlainWord s.toList = true}
    (hps : startsWord ps = false) :
    headed? s (render (key s hs :: .space :: name.piece :: .space :: key "is" :: ps)) =
      some (name.chars, render ps) := by
  rw [headed?, keyword?_key rfl]
  simp only [Option.bind_eq_bind, Option.bind_some, identifier?_space]
  rw [Identifier.piece, identifier?_word rfl]
  simp only [Option.bind_some, keyword?_space]
  rw [keyword?_key hps]
  rfl

theorem moreIdentifiers_names (others : List Identifier) (ps : List Piece) :
    Token.moreIdentifiers (render ((others.flatMap fun n => [.mark .comma, .space, n.piece]) ++
      .space :: .mark .colon :: ps)) = others.map Identifier.chars := by
  induction others with
  | nil =>
      refine Token.moreIdentifiers_of_none ?_
      rw [List.flatMap_nil, List.nil_append, Token.nextIdentifier?, mark?_space, mark?_mark]
      rfl
  | cons n others ih =>
      refine (Token.moreIdentifiers_of_some ?_).trans (congrArg (n.chars :: ·) ih)
      rw [List.flatMap_cons, List.append_assoc, Token.nextIdentifier?]
      simp only [List.cons_append, List.nil_append, mark?_mark]
      rw [if_pos (by rfl), Option.bind_some, identifier?_space, Identifier.piece, identifier?_word]
      · rfl
      · cases others <;> rfl

/-- `constant names :` -/
theorem memberOpening?_constant (names : Names) (ps : List Piece) :
    memberOpening? (render (key "constant" :: .space :: (names.pieces ++
      .space :: .mark .colon :: ps))) =
      some ⟨.constant, names.first.chars, names.others.map Identifier.chars⟩ := by
  have hopening : constantOpening? (render (key "constant" :: .space :: (names.pieces ++
      .space :: .mark .colon :: ps))) =
      some ⟨.constant, names.first.chars, names.others.map Identifier.chars⟩ := by
    rw [constantOpening?, keyword?_key rfl]
    simp only [Option.bind_eq_bind, Option.bind_some, identifier?_space, Names.pieces,
      List.cons_append]
    rw [Identifier.piece, identifier?_word (by cases names.others <;> rfl)]
    simp only [Option.bind_some, moreIdentifiers_names]
    rfl
  simp only [memberOpening?, memberOpenings, List.findSome?_cons, hopening]

theorem headed?_typeHead (ps : List Piece) :
    headed? "type" (render (typeHead name ++ ps)) = some (name.chars, render (.space :: ps)) :=
  headed?_key name rfl

theorem constantOpening?_typeHead (ps : List Piece) :
    constantOpening? (render (typeHead name ++ ps)) = none := by
  have hword : Token.keyword? "constant" (render (typeHead name ++ ps)) = none :=
    keyword?_key_of_ne (by decide) (by decide) rfl
  rw [constantOpening?, hword]
  rfl

/-- `type name is array` -/
theorem memberOpening?_array (hps : startsWord ps = false) :
    memberOpening? (render (typeHead name ++ key "array" :: ps)) =
      some ⟨.arrayType, name.chars, []⟩ := by
  have hopening : arrayOpening? (render (typeHead name ++ key "array" :: ps)) =
      some ⟨.arrayType, name.chars, []⟩ := by
    simp only [arrayOpening?, headed?_typeHead, Option.bind_eq_bind, Option.bind_some,
      Token.hasKeyword, keyword?_space]
    rw [keyword?_key hps]
    exact congrArg some (ofDesignator_word MemberForm.arrayType name.word)
  simp only [memberOpening?, memberOpenings, List.findSome?_cons, constantOpening?_typeHead,
    hopening]

/-- `type name is (` -/
theorem memberOpening?_enum (ps : List Piece) :
    memberOpening? (render (typeHead name ++ .mark .opening :: ps)) =
      some ⟨.enumType, name.chars, []⟩ := by
  have harray : arrayOpening? (render (typeHead name ++ .mark .opening :: ps)) = none := by
    simp only [arrayOpening?, headed?_typeHead, Option.bind_eq_bind, Option.bind_some,
      Token.hasKeyword, keyword?_space]
    rw [keyword?_mark (by decide)]
    rfl
  have hopening : enumOpening? (render (typeHead name ++ .mark .opening :: ps)) =
      some ⟨.enumType, name.chars, []⟩ := by
    simp only [enumOpening?, headed?_typeHead, Option.bind_eq_bind, Option.bind_some, mark?_space,
      mark?_mark]
    exact congrArg some (ofDesignator_word MemberForm.enumType name.word)
  simp only [memberOpening?, memberOpenings, List.findSome?_cons, constantOpening?_typeHead,
    harray, hopening]

/-- `type name is record` -/
theorem memberOpening?_record (hps : startsWord ps = false) :
    memberOpening? (render (typeHead name ++ key "record" :: ps)) =
      some ⟨.recordType, name.chars, []⟩ := by
  have harray : arrayOpening? (render (typeHead name ++ key "record" :: ps)) = none := by
    simp only [arrayOpening?, headed?_typeHead, Option.bind_eq_bind, Option.bind_some,
      Token.hasKeyword, keyword?_space]
    rw [keyword?_key_of_ne (by decide) (by decide) hps]
    rfl
  have henum : enumOpening? (render (typeHead name ++ key "record" :: ps)) = none := by
    simp only [enumOpening?, headed?_typeHead, Option.bind_eq_bind, Option.bind_some, mark?_space]
    rw [key, mark?_word (by decide)]
    rfl
  have hopening : recordOpening? (render (typeHead name ++ key "record" :: ps)) =
      some ⟨.recordType, name.chars, []⟩ := by
    simp only [recordOpening?, headed?_typeHead, Option.bind_eq_bind, Option.bind_some,
      Token.hasKeyword, keyword?_space]
    rw [keyword?_key hps]
    exact congrArg some (ofDesignator_word MemberForm.recordType name.word)
  simp only [memberOpening?, memberOpenings, List.findSome?_cons, constantOpening?_typeHead,
    harray, henum, hopening]

section OtherWords

variable {s : String} {hs : isPlainWord s.toList = true}

/-- A line that begins with neither `constant` nor `type` is asked for the other members. -/
theorem memberOpening?_key (hconstant : s ≠ "constant") (htype : s ≠ "type")
    (hps : startsWord ps = false) :
    memberOpening? (render (key s hs :: ps)) =
      (functionOpening? (render (key s hs :: ps))).or
        ((procedureOpening? (render (key s hs :: ps))).or
          (subtypeOpening? (render (key s hs :: ps)))) := by
  have hword : constantOpening? (render (key s hs :: ps)) = none := by
    rw [constantOpening?, keyword?_key_of_ne (by decide) hconstant hps]
    rfl
  have hheaded : headed? "type" (render (key s hs :: ps)) = none :=
    headed?_key_of_ne (by decide) htype hps
  simp only [memberOpening?, memberOpenings, List.findSome?_cons, List.findSome?_nil, hword,
    arrayOpening?, enumOpening?, recordOpening?, hheaded, Option.bind_eq_bind, Option.bind_none]
  cases functionOpening? (render (key s hs :: ps)) <;>
    cases procedureOpening? (render (key s hs :: ps)) <;>
    cases subtypeOpening? (render (key s hs :: ps)) <;> rfl

theorem skipPurity_key (hpure : s ≠ "pure") (himpure : s ≠ "impure")
    (hps : startsWord ps = false) :
    skipPurity (render (key s hs :: ps)) = render (key s hs :: ps) := by
  rw [skipPurity, keyword?_key_of_ne (by decide) hpure hps,
    keyword?_key_of_ne (by decide) himpure hps]
  rfl

theorem functionOpening?_key (hne : s ∉ ["pure", "impure", "function"])
    (hps : startsWord ps = false) : functionOpening? (render (key s hs :: ps)) = none := by
  simp only [List.mem_cons, List.not_mem_nil, or_false, not_or] at hne
  obtain ⟨hpure, himpure, hfunction⟩ := hne
  rw [functionOpening?, skipPurity_key hpure himpure hps,
    keyword?_key_of_ne (by decide) hfunction hps]
  rfl

theorem procedureOpening?_key (hne : s ≠ "procedure") (hps : startsWord ps = false) :
    procedureOpening? (render (key s hs :: ps)) = none := by
  rw [procedureOpening?, keyword?_key_of_ne (by decide) hne hps]
  rfl

end OtherWords

/-- `function name`, where no instantiation follows -/
theorem memberOpening?_function (hps : startsWord ps = false)
    (hinst : isInstantiation (render ps) = false) :
    memberOpening? (render (key "function" :: .space :: name.piece :: ps)) =
      some ⟨.function, name.chars, []⟩ := by
  rw [memberOpening?_key (by decide) (by decide) rfl, functionOpening?,
    skipPurity_key (by decide) (by decide) rfl, keyword?_key rfl]
  have hblank : Token.startsBlank (render (.space :: name.piece :: ps)) = true := rfl
  simp only [Option.bind_eq_bind, Option.bind_some, designator?, hblank, if_true,
    identifier?_space]
  rw [Identifier.piece, identifier?_word hps, Option.some_or, Option.bind_some]
  simp only [hinst]
  exact congrArg some (ofDesignator_word MemberForm.function name.word)

/-- `procedure name`, where no instantiation follows -/
theorem memberOpening?_procedure (hps : startsWord ps = false)
    (hinst : isInstantiation (render ps) = false) :
    memberOpening? (render (key "procedure" :: .space :: name.piece :: ps)) =
      some ⟨.procedure, name.chars, []⟩ := by
  rw [memberOpening?_key (by decide) (by decide) rfl, functionOpening?_key (by decide) rfl,
    Option.none_or, procedureOpening?, keyword?_key rfl]
  simp only [Option.bind_eq_bind, Option.bind_some, identifier?_space]
  rw [Identifier.piece, identifier?_word hps, Option.bind_some]
  simp only [hinst]
  exact congrArg some (ofDesignator_word MemberForm.procedure name.word)

/-- `subtype name is` -/
theorem memberOpening?_subtype (hps : startsWord ps = false) :
    memberOpening? (render (key "subtype" :: .space :: name.piece :: .space :: key "is" :: ps)) =
      some ⟨.subtype, name.chars, []⟩ := by
  rw [memberOpening?_key (by decide) (by decide) rfl, functionOpening?_key (by decide) rfl,
    procedureOpening?_key (by decide) rfl, Option.none_or, Option.none_or, subtypeOpening?,
    headed?_key name hps]
  exact congrArg some (ofDesignator_word MemberForm.subtype name.word)

/-- A line that begins with `end` opens no member. -/
theorem memberOpening?_end (hps : startsWord ps = false) :
    memberOpening? (render (key "end" :: ps)) = none := by
  rw [memberOpening?_key (by decide) (by decide) hps, functionOpening?_key (by decide) hps,
    procedureOpening?_key (by decide) hps, Option.none_or, Option.none_or, subtypeOpening?,
    headed?_key_of_ne (by decide) (by decide) hps]
  rfl

theorem unitOpening?_entity :
    unitOpening? (render (unitHead (key "entity") name)) = some ⟨.entity, name.chars, []⟩ := by
  have hopening : entityOpening? (render (unitHead (key "entity") name)) =
      some ⟨.entity, name.chars, []⟩ := by
    rw [entityOpening?, unitHead, headed?_key name rfl]
    exact congrArg some (ofDesignator_word UnitForm.entity name.word)
  simp only [unitOpening?, unitOpenings, List.findSome?_cons, hopening]

theorem unitOpening?_package :
    unitOpening? (render (unitHead (key "package") name)) = some ⟨.package, name.chars, []⟩ := by
  have hentity : entityOpening? (render (unitHead (key "package") name)) = none := by
    rw [entityOpening?, unitHead, headed?_key_of_ne (by decide) (by decide) rfl]
    rfl
  have hopening : packageOpening? (render (unitHead (key "package") name)) =
      some ⟨.package, name.chars, []⟩ := by
    rw [packageOpening?, unitHead, headed?_key name rfl]
    exact congrArg some (ofDesignator_word UnitForm.package name.word)
  simp only [unitOpening?, unitOpenings, List.findSome?_cons, hentity, hopening]

end Openings

/-- **The first line** of a member opens it. -/
theorem Item.memberOpening?_head (k : Nat) (item : Item) :
    memberOpening? (render ((item.lines k).headD [])) = some item.opening := by
  cases item with
  | constant names mark value =>
      simp only [lines, List.headD_cons, memberOpening?_indented, List.append_assoc,
        List.cons_append, List.nil_append]
      exact memberOpening?_constant names _
  | array name index element =>
      simp only [lines, List.headD_cons, memberOpening?_indented, List.append_assoc]
      exact memberOpening?_array name rfl
  | enum name literals =>
      simp only [lines, framed, List.cons_append, List.headD_cons, memberOpening?_indented]
      exact memberOpening?_enum name _
  | record name fields =>
      simp only [lines, framed, List.cons_append, List.headD_cons, memberOpening?_indented]
      exact memberOpening?_record name rfl
  | function name parameters result =>
      cases parameters with
      | none =>
          simp only [lines, List.headD_cons, memberOpening?_indented, List.cons_append,
            List.nil_append]
          refine memberOpening?_function name rfl ?_
          simp only [isInstantiation, returning, keyword?_space]
          rw [keyword?_key_of_ne (by decide) (by decide) rfl]
          rfl
      | some parameters =>
          simp only [lines, framed, List.cons_append, List.headD_cons, memberOpening?_indented]
          exact memberOpening?_function name rfl rfl
  | procedure name parameters =>
      cases parameters with
      | none =>
          simp only [lines, List.headD_cons, memberOpening?_indented]
          exact memberOpening?_procedure name rfl rfl
      | some parameters =>
          simp only [lines, framed, List.cons_append, List.headD_cons, memberOpening?_indented]
          exact memberOpening?_procedure name rfl rfl
  | subtype name mark range =>
      simp only [lines, List.headD_cons, memberOpening?_indented, List.cons_append,
        List.nil_append]
      exact memberOpening?_subtype name rfl

end VhdlCatalog.Canonical
