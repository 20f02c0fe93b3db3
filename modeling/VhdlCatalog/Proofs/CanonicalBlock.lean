import VhdlCatalog.Proofs.Block
import VhdlCatalog.Proofs.Canonical

/-!
**Members in canonical form are blocks.**

The last line of a member is its closing line, and no line before it is.  For every form there is
another reason: literals do not end in semicolons, fields do not begin with `end`, parameters of a
function do not mention `return`, and those of a procedure stand inside a parenthesis.

Main results:

* `VhdlCatalog.Canonical.exists_memberBlock` — what makes lines a block, in terms of their pieces;
* `VhdlCatalog.Canonical.Opened.noneCloses` — semicolons inside a parenthesis do not close;
* `VhdlCatalog.Canonical.Item.exists_block` — **the lines of a member** are a block that declares
  its names.
-/

set_option relaxedAutoImplicit false
set_option autoImplicit false

namespace VhdlCatalog.Canonical

open Source Scan

/-! ### Closing lines -/

section Closings

variable {l : CodeLine} {ps : List Piece}

theorem line_of_text (h : l.text = render ps) : l.line = render ps := by
  rw [CodeLine.line, h, lower_render]

theorem code_of_text (h : l.text = render ps) : l.code = render ps := by
  rw [CodeLine.code, line_of_text h, stripComment_render]

/-- Lines with the texts of a first and of a last row of pieces are a block, if the first of them
opens a member, the last one closes it, and those in between do not. -/
theorem exists_memberBlock {o : Opening MemberForm} {pss : List (List Piece)} {qs : List Piece}
    {ls : List CodeLine} (hls : ls.map CodeLine.text = (pss ++ [qs]).map render)
    (hopens : memberOpening? (render (pss.headD qs)) = some o)
    (hcloses : ∀ (before : List CodeLine) (l : CodeLine),
      before.map CodeLine.text = pss.map render → l.text = render qs →
        (Construct.member o.form).ClosedBy o.name (before.map CodeLine.place) l.place)
    (hwaits : ∀ before : List CodeLine, before.map CodeLine.text = pss.map render →
      NoneCloses ((Construct.member o.form).ClosedBy o.name) (before.map CodeLine.place)) :
    ∃ b : MemberBlock, b.lines = ls ∧ b.opening = o := by
  rw [List.map_append] at hls
  obtain ⟨before, last, rfl, hbefore, hlast⟩ := List.map_eq_append_iff.1 hls
  obtain ⟨l, rfl, hl⟩ : ∃ l, last = [l] ∧ l.text = render qs := by
    obtain ⟨l, rest, rfl, hl, hrest⟩ := List.map_eq_cons_iff.1 hlast
    exact ⟨l, by rw [List.map_eq_nil_iff.1 hrest], hl⟩
  have hfirst : (before.headD l).text = render (pss.headD qs) := by
    cases before with
    | nil =>
        rw [List.map_eq_nil_iff.1 hbefore.symm]
        exact hl
    | cons x before =>
        obtain ⟨ps, pss', rfl, hps, -⟩ := List.map_eq_cons_iff.1 hbefore.symm
        exact hps.symm
  refine ⟨⟨o, before, l, ?_, hcloses before l hbefore hl, hwaits before hbefore⟩, rfl, rfl⟩
  rw [line_of_text hfirst]
  exact hopens

theorem exists_memberBlock_single {o : Opening MemberForm} {ls : List CodeLine}
    (hls : ls.map CodeLine.text = [render ps]) (hopens : memberOpening? (render ps) = some o)
    (hcloses : ∀ l : CodeLine, l.text = render ps →
      (Construct.member o.form).ClosedBy o.name [] l.place) :
    ∃ b : MemberBlock, b.lines = ls ∧ b.opening = o := by
  have hrows : ls.map CodeLine.text = (([] : List (List Piece)) ++ [ps]).map render := hls
  refine exists_memberBlock hrows hopens (fun before l hbefore hl => ?_) fun before hbefore => ?_
  · obtain rfl := List.map_eq_nil_iff.1 hbefore
    exact hcloses l hl
  · obtain rfl := List.map_eq_nil_iff.1 hbefore
    exact noneCloses_nil _

/-- Where no line closes whatever stands before it, none does. -/
theorem noneCloses_of_texts {closes : List SourceLine → SourceLine → Prop}
    {pss : List (List Piece)} {before : List CodeLine}
    (hbefore : before.map CodeLine.text = pss.map render)
    (h : ∀ (l : CodeLine), ∀ ps ∈ pss, l.text = render ps → ∀ as, ¬closes as l.place) :
    NoneCloses closes (before.map CodeLine.place) := by
  intro as l bs heq
  have hmem : l ∈ before.map CodeLine.place := by
    rw [heq]
    simp
  obtain ⟨x, hx, rfl⟩ := List.mem_map.1 hmem
  have htext : x.text ∈ pss.map render := by
    rw [← hbefore]
    exact List.mem_map_of_mem hx
  obtain ⟨ps, hps, hrender⟩ := List.mem_map.1 htext
  exact h x ps hps hrender.symm as

theorem indented_append (k : Nat) (ps qs : List Piece) :
    indented k (ps ++ qs) = indented k ps ++ qs := (List.append_assoc ..).symm

/-! #### Semicolons -/

theorem endsInSemicolon_indented (k : Nat) (ps : List Piece) (m : Mark) :
    endsInSemicolon (render (indented k (ps ++ [.mark m]))) = decide (m = .semicolon) := by
  rw [indented_append, endsInSemicolon_concat]

/-- One line that ends in a semicolon is a block, if it opens a member that such a line closes. -/
theorem exists_block_of_semicolon {o : Opening MemberForm} {ls : List CodeLine} {k : Nat}
    (hls : ls.map CodeLine.text = [render (indented k (ps ++ [.mark .semicolon]))])
    (hopens : memberOpening? (render (indented k (ps ++ [.mark .semicolon]))) = some o)
    (hcloses : ∀ l : CodeLine, endsInSemicolon l.code = true →
      (Construct.member o.form).ClosedBy o.name [] l.place) :
    ∃ b : MemberBlock, b.lines = ls ∧ b.opening = o := by
  refine exists_memberBlock_single hls hopens fun l hl => hcloses l ?_
  rw [code_of_text hl, endsInSemicolon_indented]
  rfl

/-! #### Words -/

theorem separated_indented (k : Nat) (ps : List Piece) :
    separated (indented k ps) = separated ps := by
  induction k with
  | zero => rfl
  | succ k ih => exact ih

theorem mem_indented {p : Piece} {k : Nat} (hp : p ≠ .space) (h : p ∈ indented k ps) : p ∈ ps := by
  rcases List.mem_append.1 h with h | h
  · exact absurd (List.eq_of_mem_replicate h) hp
  · exact h

theorem startsEnd_indented (k : Nat) (ps : List Piece) :
    startsEnd (render (indented k ps)) = startsEnd (render ps) := by
  rw [startsEnd, startsEnd, Token.hasKeyword, Token.hasKeyword, keyword?_indented]

theorem keyword?_ending {k : Nat} {word : Piece} (h : l.text = render (indented k (ending word))) :
    Token.keyword? "end" l.line = some (render [.space, word, .mark .semicolon]) := by
  rw [line_of_text h, keyword?_indented, ending, keyword?_key rfl]

theorem startsEnd_ending {k : Nat} {word : Piece} (h : l.text = render (indented k (ending word))) :
    startsEnd l.line = true := by
  rw [startsEnd, Token.hasKeyword, keyword?_ending h]
  rfl

theorem startsEndOf_ending {k : Nat} {s : String} {hs : isPlainWord s.toList = true}
    (h : l.text = render (indented k (ending (key s hs)))) : startsEndOf s l.line = true := by
  rw [startsEndOf, keyword?_ending h, Option.any_some, Token.hasKeyword, keyword?_space,
    keyword?_key rfl]
  rfl

/-- No word of the line is `return`. -/
def NoReturn (ps : List Piece) : Prop := ∀ w, Piece.word w ∈ ps → w.chars ≠ "return".toList

theorem returnsType_indented {k : Nat} (hsep : separated ps = true) (h : NoReturn ps) :
    returnsType (render (indented k ps)) = false := by
  refine returnsType_eq_false (by rw [separated_indented, hsep]) fun w hw => ?_
  exact h w (mem_indented (by simp) hw)

/-! #### Parentheses -/

/-- No mark of the line is a parenthesis. -/
def NoParentheses (ps : List Piece) : Prop :=
  ∀ m, Piece.mark m ∈ ps → m ≠ .opening ∧ m ≠ .closing

theorem depthFrom_of_forall {cs : List Char} (h : ∀ c ∈ cs, c ≠ '(' ∧ c ≠ ')') (depth : Nat) :
    depthFrom depth cs = depth := by
  induction cs with
  | nil => rfl
  | cons c cs ih =>
      obtain ⟨hc, hcs⟩ := List.forall_mem_cons.1 h
      have hstep : depthStep depth c = depth := by rw [depthStep, if_neg hc.1, if_neg hc.2]
      exact (congrArg (depthFrom · cs) hstep).trans (ih hcs)

theorem NoParentheses.of_mem_render (h : NoParentheses ps) :
    ∀ c ∈ render ps, c ≠ '(' ∧ c ≠ ')' := by
  intro c hc
  constructor
  · rintro rfl
    obtain ⟨m, hm, hchar⟩ := exists_mark_of_mem_render (by decide) (by decide) hc
    have hne := (h m hm).1
    cases m <;> simp_all [Mark.char]
  · rintro rfl
    obtain ⟨m, hm, hchar⟩ := exists_mark_of_mem_render (by decide) (by decide) hc
    have hne := (h m hm).2
    cases m <;> simp_all [Mark.char]

theorem NoParentheses.indented {k : Nat} (h : NoParentheses ps) :
    NoParentheses (indented k ps) := fun m hm => h m (mem_indented (by simp) hm)

/-- Lines with a parenthesis that opens at the end of the first one, and no other parentheses. -/
structure Opened (k : Nat) (first : List Piece) (x : CodeLine) (rest : List CodeLine) : Prop where
  text : x.text = render (indented k (first ++ [.mark .opening]))
  quiet : ∀ m, Piece.mark m ∉ first
  others : ∀ y ∈ rest, ∃ ps, y.text = render ps ∧ NoParentheses ps

namespace Opened

variable {k : Nat} {first : List Piece} {x : CodeLine} {rest : List CodeLine}

theorem code_eq (h : Opened k first x rest) :
    x.code = render (indented k first) ++ ['('] := by
  rw [code_of_text h.text, indented_append, render_append]
  rfl

theorem mem_code {y : CodeLine} {c : Char} (h : Opened k first x rest) (hy : y ∈ rest)
    (hc : c ∈ y.code) : c ≠ '(' ∧ c ≠ ')' := by
  obtain ⟨ps, htext, hps⟩ := h.others y hy
  rw [code_of_text htext] at hc
  exact hps.of_mem_render c hc

/-- What follows the first line stands inside the parenthesis. -/
theorem depthFrom_eq (h : Opened k first x rest) {cs : List Char}
    (hcs : ∀ c ∈ cs, c ≠ '(' ∧ c ≠ ')') : depthFrom 0 (x.code ++ cs) = 1 := by
  have hfirst : NoParentheses (indented k first) := fun m hm =>
    absurd (mem_indented (by simp) hm) (h.quiet m)
  rw [h.code_eq, depthFrom_append, depthFrom_append, depthFrom_of_forall hfirst.of_mem_render,
    depthFrom_of_forall hcs]
  rfl

theorem depthFrom_lines (h : Opened k first x rest) :
    depthFrom 0 (((x :: rest).map CodeLine.place).flatMap SourceLine.code) = 1 := by
  rw [List.map_cons, List.flatMap_cons]
  refine h.depthFrom_eq fun c hc => ?_
  obtain ⟨l, hl, hcode⟩ := List.mem_flatMap.1 hc
  obtain ⟨y, hy, rfl⟩ := List.mem_map.1 hl
  exact h.mem_code hy hcode

/-- No semicolon in the lines stands outside the parenthesis. -/
theorem noneCloses (h : Opened k first x rest) (name : List Char) :
    NoneCloses ((Construct.member .procedure).ClosedBy name) ((x :: rest).map CodeLine.place) := by
  rintro as l bs heq ⟨xs, ys, hcode, hdepth⟩
  cases as with
  | nil =>
      -- the first line has no semicolon at all
      obtain ⟨rfl, -⟩ := List.cons.inj heq
      have hmem : ';' ∈ render (indented k (first ++ [.mark .opening])) := by
        rw [← code_of_text h.text, ← CodeLine.place_code, hcode]
        simp
      obtain ⟨m, hm, hchar⟩ := exists_mark_of_mem_render (by decide) (by decide) hmem
      rcases List.mem_append.1 (mem_indented (by simp) hm) with hm | hm
      · exact h.quiet m hm
      · obtain rfl : m = .opening := by simpa using hm
        cases hchar
  | cons a as =>
      rw [List.map_cons, List.cons_append, List.cons.injEq] at heq
      obtain ⟨rfl, hrest⟩ := heq
      have hlines : ∀ y ∈ as ++ l :: bs, ∀ c ∈ y.code, c ≠ '(' ∧ c ≠ ')' := by
        intro y hy c hc
        rw [← hrest] at hy
        obtain ⟨z, hz, rfl⟩ := List.mem_map.1 hy
        exact h.mem_code hz hc
      have hone : depthFrom 0 (x.code ++ (as.flatMap SourceLine.code ++ xs)) = 1 := by
        refine h.depthFrom_eq fun c hc => ?_
        rcases List.mem_append.1 hc with hc | hc
        · obtain ⟨y, hy, hcode'⟩ := List.mem_flatMap.1 hc
          exact hlines y (List.mem_append_left _ hy) c hcode'
        · refine hlines l (by simp) c ?_
          rw [hcode]
          exact List.mem_append_left _ hc
      rw [List.flatMap_cons, List.append_assoc, CodeLine.place_code, hone] at hdepth
      cases hdepth

end Opened

end Closings

/-! ### Blocks -/

namespace Item

variable {k : Nat} {ls : List CodeLine}

theorem exists_block_enum (name : Identifier) (literals : List Identifier)
    (hls : ls.map CodeLine.text = ((enum name literals).lines k).map render) :
    ∃ b : MemberBlock, b.lines = ls ∧ b.opening = (enum name literals).opening := by
  have hrows : ∀ ps ∈ indented k (typeHead name ++ [.mark .opening]) ::
      (joined .comma (literals.map fun n => [n.piece])).map (indented (2 * k)),
      endsInSemicolon (render ps) = false := by
    refine forall_mem_init (endsInSemicolon_indented ..) fun ps hps => ?_
    obtain ⟨qs, hqs, hps⟩ := mem_joined hps
    obtain ⟨n, -, rfl⟩ := List.mem_map.1 hqs
    rcases hps with rfl | rfl
    · exact endsInSemicolon_concat_word _ n.word
    · exact endsInSemicolon_indented ..
  refine exists_memberBlock hls ((enum name literals).memberOpening?_head k)
    (fun before l _ hl => ?_) fun before hbefore => ?_
  · show endsInSemicolon l.code = true
    rw [code_of_text hl]
    exact endsInSemicolon_indented k [.mark .closing] .semicolon
  · refine noneCloses_of_texts hbefore fun l ps hps hl as => ?_
    show ¬endsInSemicolon l.code = true
    rw [code_of_text hl, hrows ps hps]
    decide

theorem exists_block_record (name : Identifier) (fields : List Field)
    (hls : ls.map CodeLine.text = ((record name fields).lines k).map render) :
    ∃ b : MemberBlock, b.lines = ls ∧ b.opening = (record name fields).opening := by
  have hrows : ∀ ps ∈ indented k (typeHead name ++ [key "record"]) ::
      (fields.map Field.pieces).map (indented (2 * k)), startsEnd (render ps) = false := by
    refine forall_mem_init ?_ fun ps hps => ?_
    · rw [startsEnd_indented, startsEnd, Token.hasKeyword, typeHead, List.cons_append,
        keyword?_key_of_ne (by decide) (by decide) rfl]
      rfl
    · obtain ⟨f, -, rfl⟩ := List.mem_map.1 hps
      have hname := f.name.ne_of_mem_reservedWords (s := "end") (by decide)
      rw [startsEnd_indented, startsEnd, Token.hasKeyword, Field.pieces, Identifier.piece,
        keyword?_word (by decide) rfl, if_neg hname]
      rfl
  refine exists_memberBlock hls ((record name fields).memberOpening?_head k)
    (fun before l _ hl => ?_) fun before hbefore => ?_
  · exact ⟨startsEnd_ending hl, Or.inl (startsEndOf_ending hl)⟩
  · refine noneCloses_of_texts hbefore fun l ps hps hl as hcloses => ?_
    have hend := hcloses.1
    rw [CodeLine.place_line, line_of_text hl, hrows ps hps] at hend
    cases hend

theorem noReturn_parameter (p : Parameter) : NoReturn p.pieces := by
  intro w hw
  have hreserved : "return" ∈ reservedWords := by decide
  have hmode : ∀ m : Mode, m.piece = .word w → w.chars ≠ "return".toList := by
    rintro (_ | _ | _) ⟨⟩ <;> decide
  obtain ⟨name, mode, mark⟩ := p
  simp only [Parameter.pieces, List.mem_append, List.mem_cons, List.not_mem_nil, or_false,
    Identifier.piece, Piece.word.injEq, reduceCtorEq] at hw
  rcases hw with (rfl | hw) | rfl
  · exact name.ne_of_mem_reservedWords hreserved
  · cases mode with
    | none => simp at hw
    | some m => exact hmode m (by simpa [eq_comm] using hw)
  · exact mark.ne_of_mem_reservedWords hreserved

theorem separated_parameter (p : Parameter) :
    separated p.pieces = true ∧ separated (p.pieces ++ [.mark .semicolon]) = true := by
  obtain ⟨name, mode, mark⟩ := p
  rcases mode with _ | (_ | _ | _)
  all_goals exact ⟨rfl, rfl⟩

theorem exists_block_function (name : Identifier) (parameters : List Parameter)
    (result : Identifier)
    (hls : ls.map CodeLine.text = ((function name (some parameters) result).lines k).map render) :
    ∃ b : MemberBlock, b.lines = ls ∧
      b.opening = (function name (some parameters) result).opening := by
  have hreserved : "return" ∈ reservedWords := by decide
  have hrows : ∀ ps ∈ indented k [key "function", .space, name.piece, .mark .opening] ::
      (joined .semicolon (parameters.map Parameter.pieces)).map (indented (2 * k)),
      returnsType (render ps) = false := by
    refine forall_mem_init (returnsType_indented rfl ?_) fun ps hps => ?_
    · intro w hw
      simp only [key, Identifier.piece, List.mem_cons, Piece.word.injEq, reduceCtorEq,
        List.not_mem_nil, or_false, false_or] at hw
      rcases hw with rfl | rfl
      · decide
      · exact name.ne_of_mem_reservedWords hreserved
    · obtain ⟨qs, hqs, hps⟩ := mem_joined hps
      obtain ⟨p, -, rfl⟩ := List.mem_map.1 hqs
      rcases hps with rfl | rfl
      · exact returnsType_indented (separated_parameter p).1 (noReturn_parameter p)
      · refine returnsType_indented (separated_parameter p).2 fun w hw => ?_
        exact noReturn_parameter p w (by simpa using hw)
  refine exists_memberBlock hls ((function name (some parameters) result).memberOpening?_head k)
    (fun before l _ hl => ?_) fun before hbefore => ?_
  · show returnsType l.code = true
    have hlast := returnsType_concat (indented k [.mark .closing]) result.word
    rw [← indented_append] at hlast
    rw [code_of_text hl]
    exact hlast
  · refine noneCloses_of_texts hbefore fun l ps hps hl as => ?_
    show ¬returnsType l.code = true
    rw [code_of_text hl, hrows ps hps]
    decide

theorem noParentheses_parameter (p : Parameter) :
    NoParentheses p.pieces ∧ NoParentheses (p.pieces ++ [.mark .semicolon]) := by
  obtain ⟨name, mode, mark⟩ := p
  rcases mode with _ | (_ | _ | _)
  all_goals
    constructor
    · intro m hm
      simp only [Parameter.pieces, Option.elim, Mode.piece, key, Identifier.piece, List.cons_append,
        List.nil_append, List.mem_cons, reduceCtorEq, Piece.mark.injEq, List.not_mem_nil, or_false,
        false_or] at hm
      subst hm
      decide
    · intro m hm
      simp only [Parameter.pieces, Option.elim, Mode.piece, key, Identifier.piece, List.cons_append,
        List.nil_append, List.mem_cons, reduceCtorEq, Piece.mark.injEq, List.not_mem_nil, or_false,
        false_or] at hm
      rcases hm with rfl | rfl <;> decide

theorem exists_block_procedure (name : Identifier) (parameters : List Parameter)
    (hls : ls.map CodeLine.text = ((procedure name (some parameters)).lines k).map render) :
    ∃ b : MemberBlock, b.lines = ls ∧ b.opening = (procedure name (some parameters)).opening := by
  -- whatever lines stand before the last one, they leave one parenthesis open
  have hopened : ∀ before : List CodeLine, before.map CodeLine.text =
      (indented k [key "procedure", .space, name.piece, .mark .opening] ::
        (joined .semicolon (parameters.map Parameter.pieces)).map (indented (2 * k))).map render →
      ∃ x rest, before = x :: rest ∧ Opened k [key "procedure", .space, name.piece] x rest := by
    intro before hbefore
    rw [List.map_cons] at hbefore
    obtain ⟨x, rest, rfl, hx, hrest⟩ := List.map_eq_cons_iff.1 hbefore
    refine ⟨x, rest, rfl, hx, fun m hm => ?_, fun y hy => ?_⟩
    · simp [key, Identifier.piece] at hm
    · have htext : y.text ∈ ((joined .semicolon (parameters.map Parameter.pieces)).map
          (indented (2 * k))).map render := by
        rw [← hrest]
        exact List.mem_map_of_mem hy
      obtain ⟨row, hrow, hrender⟩ := List.mem_map.1 htext
      obtain ⟨ps, hps, rfl⟩ := List.mem_map.1 hrow
      obtain ⟨qs, hqs, hps⟩ := mem_joined hps
      obtain ⟨p, -, rfl⟩ := List.mem_map.1 hqs
      refine ⟨_, hrender.symm, NoParentheses.indented ?_⟩
      rcases hps with rfl | rfl
      · exact (noParentheses_parameter p).1
      · exact (noParentheses_parameter p).2
  refine exists_memberBlock hls ((procedure name (some parameters)).memberOpening?_head k)
    (fun before l hbefore hl => ?_) fun before hbefore => ?_
  · obtain ⟨x, rest, rfl, h⟩ := hopened before hbefore
    refine ⟨render (indented k [.mark .closing]), [], ?_, ?_⟩
    · have hlast := indented_append k [.mark .closing] [.mark .semicolon]
      rw [CodeLine.place_code, code_of_text hl]
      exact (congrArg render hlast).trans (render_append ..)
    · have hspaces : NoParentheses (indented k []) := fun m hm =>
        absurd (mem_indented (by simp) hm) (by simp)
      have hlast : render (indented k [.mark .closing]) = render (indented k []) ++ [')'] := by
        rw [← List.nil_append [Piece.mark .closing], indented_append, render_append]
        rfl
      rw [depthFrom_append, h.depthFrom_lines, hlast, depthFrom_append,
        depthFrom_of_forall hspaces.of_mem_render]
      rfl
  · obtain ⟨x, rest, rfl, h⟩ := hopened before hbefore
    exact h.noneCloses name.chars

/-- **The lines of a member** are a block that declares its names. -/
theorem exists_block (k : Nat) (item : Item)
    (hls : ls.map CodeLine.text = (item.lines k).map render) :
    ∃ b : MemberBlock, b.lines = ls ∧ b.opening = item.opening := by
  have hopens := item.memberOpening?_head k
  cases item with
  | constant names mark value => exact exists_block_of_semicolon hls hopens fun l hl => hl
  | array name index element => exact exists_block_of_semicolon hls hopens fun l hl => hl
  | enum name literals => exact exists_block_enum name literals hls
  | record name fields => exact exists_block_record name fields hls
  | function name parameters result =>
      cases parameters with
      | none =>
          refine exists_memberBlock_single hls hopens fun l hl => ?_
          have hreturns := returnsType_concat (indented k [key "function", .space, name.piece])
            result.word
          rw [← indented_append] at hreturns
          show returnsType l.code = true
          rw [code_of_text hl]
          exact hreturns
      | some parameters => exact exists_block_function name parameters result hls
  | procedure name parameters =>
      cases parameters with
      | none =>
          refine exists_memberBlock_single hls hopens fun l hl => ?_
          have hcode := indented_append k [key "procedure", .space, name.piece] [.mark .semicolon]
          have hflat : NoParentheses [key "procedure", .space, name.piece] := fun m hm => by
            simp [key, Identifier.piece] at hm
          refine ⟨render (indented k [key "procedure", .space, name.piece]), [], ?_, ?_⟩
          · rw [CodeLine.place_code, code_of_text hl]
            exact (congrArg render hcode).trans (render_append ..)
          · exact depthFrom_of_forall hflat.indented.of_mem_render 0
      | some parameters => exact exists_block_procedure name parameters hls
  | subtype name mark range => exact exists_block_of_semicolon hls hopens fun l hl => hl

end Item

end VhdlCatalog.Canonical
