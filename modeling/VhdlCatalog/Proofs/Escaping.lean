import Mathlib.Data.List.Basic
import VhdlCatalog.Render.Renderer

/-!
**Escaped values.**

A page is a template whose slots are filled with escaped values.  An escaped value has no character
that could be markup, and it can be read back.  It cannot leave the place it stands in, either: the
text between tags, where a tag begins with `<`, or an attribute between double quotes.  So a reader
of tags finds those of the template, whatever the values are.

Main definitions:

* `VhdlCatalog.Chunk.unescape` — what a reader of pages makes of the five entities;
* `VhdlCatalog.Page.Template`, `VhdlCatalog.Page.fill` — fixed markup with slots for values;
* `VhdlCatalog.TagState` — a reader of tags;
* `VhdlCatalog.tagNames` — the names of the tags of a page, in their order.

Main results:

* `VhdlCatalog.Chunk.harmless_escape`, `VhdlCatalog.Chunk.unescape_escape` — **an escaped value**
  is no markup, and nothing of it is lost;
* `VhdlCatalog.Page.fill_template` — **a page is its template** with its values in the slots;
* `VhdlCatalog.TagState.read_render` — **tags are those of the template**.
-/

set_option relaxedAutoImplicit false
set_option autoImplicit false

namespace VhdlCatalog

/-! ### Escaped values -/

namespace Chunk

/-- What stands in a page for a character that could be markup. -/
def entities : List String := ["&amp;", "&lt;", "&gt;", "&#34;", "&#39;"]

/-- The text has no character that could be markup: an ampersand only begins an entity. -/
structure Harmless (text : List Char) : Prop where
  not_mem : ∀ c ∈ text, c ≠ '<' ∧ c ≠ '>' ∧ c ≠ '"' ∧ c ≠ '\''
  entity : ∀ before after, text = before ++ '&' :: after →
    ∃ e ∈ entities, e.toList <+: '&' :: after

/-- The text in which each entity is the character it stands for. -/
def unescape : List Char → List Char
  | '&' :: 'a' :: 'm' :: 'p' :: ';' :: cs => '&' :: unescape cs
  | '&' :: 'l' :: 't' :: ';' :: cs => '<' :: unescape cs
  | '&' :: 'g' :: 't' :: ';' :: cs => '>' :: unescape cs
  | '&' :: '#' :: '3' :: '4' :: ';' :: cs => '"' :: unescape cs
  | '&' :: '#' :: '3' :: '9' :: ';' :: cs => '\'' :: unescape cs
  | c :: cs => c :: unescape cs
  | [] => []

/-- A character is written as an entity, or it could not be markup and is written as it is. -/
theorem escapeChar_cases (c : Char) :
    (∃ e ∈ entities, escapeChar c = e.toList) ∨
      escapeChar c = [c] ∧ c ≠ '&' ∧ c ≠ '<' ∧ c ≠ '>' ∧ c ≠ '"' ∧ c ≠ '\'' := by
  by_cases hamp : c = '&'
  · exact Or.inl ⟨"&amp;", by simp [entities], by simp [escapeChar, hamp]⟩
  by_cases hlt : c = '<'
  · exact Or.inl ⟨"&lt;", by simp [entities], by simp [escapeChar, hlt]⟩
  by_cases hgt : c = '>'
  · exact Or.inl ⟨"&gt;", by simp [entities], by simp [escapeChar, hgt]⟩
  by_cases hsingle : c = '\''
  · exact Or.inl ⟨"&#39;", by simp [entities], by simp [escapeChar, hsingle]⟩
  by_cases hdouble : c = '"'
  · exact Or.inl ⟨"&#34;", by simp [entities], by simp [escapeChar, hdouble]⟩
  exact Or.inr ⟨by simp [escapeChar, hamp, hlt, hgt, hsingle, hdouble], hamp, hlt, hgt, hdouble,
    hsingle⟩

/-- An entity begins with its only ampersand and has no other special character. -/
theorem exists_of_mem_entities {e : String} (he : e ∈ entities) :
    ∃ cs, e.toList = '&' :: cs ∧ ∀ c ∈ cs, c ≠ '&' ∧ c ≠ '<' ∧ c ≠ '>' ∧ c ≠ '"' ∧ c ≠ '\'' := by
  have hall : ∀ e ∈ entities, e.toList.head? = some '&' ∧
      ∀ c ∈ e.toList.tail, c ≠ '&' ∧ c ≠ '<' ∧ c ≠ '>' ∧ c ≠ '"' ∧ c ≠ '\'' := by
    simp [entities]
  obtain ⟨hhead, htail⟩ := hall e he
  refine ⟨e.toList.tail, ?_, htail⟩
  exact (List.cons_head?_tail hhead).symm

theorem toList_escape (text : String) : (escape text).toList = text.toList.flatMap escapeChar := by
  rw [escape, String.toList_ofList]

/-- **An escaped value** has no character that could be markup. -/
theorem harmless_escape (text : String) : Harmless (escape text).toList := by
  rw [toList_escape]
  induction text.toList with
  | nil => exact ⟨by simp, by simp⟩
  | cons c cs ih =>
      rw [List.flatMap_cons]
      refine ⟨fun d hd => ?_, fun before after heq => ?_⟩
      · rcases List.mem_append.1 hd with hd | hd
        · rcases escapeChar_cases c with ⟨e, he, hc⟩ | ⟨hc, -, hplain⟩
          · obtain ⟨tail, htail, hspecial⟩ := exists_of_mem_entities he
            rw [hc, htail] at hd
            rcases List.mem_cons.1 hd with rfl | hd
            · decide
            · exact (hspecial d hd).2
          · rw [hc, List.mem_singleton] at hd
            exact hd ▸ hplain
        · exact ih.not_mem d hd
      · -- the ampersand stands in what `c` is written as, or after it
        rcases List.append_eq_append_iff.1 heq with ⟨more, -, hmore⟩ | ⟨more, hmore, hafter⟩
        · exact ih.entity more after hmore
        · cases more with
          | nil => exact ih.entity [] after hafter.symm
          | cons d more =>
              obtain ⟨rfl, hafter⟩ := List.cons.inj hafter
              rcases escapeChar_cases c with ⟨e, he, hc⟩ | ⟨hc, hamp, -⟩
              · obtain ⟨tail, htail, hspecial⟩ := exists_of_mem_entities he
                rw [hc, htail] at hmore
                cases before with
                | nil =>
                    refine ⟨e, he, ?_⟩
                    rw [htail, hmore, hafter]
                    exact List.prefix_append _ _
                | cons b before =>
                    have hmem : '&' ∈ tail := by
                      rw [(List.cons.inj hmore).2]
                      simp
                    exact absurd rfl (hspecial '&' hmem).1
              · have hmem : '&' ∈ [c] := by
                  rw [← hc, hmore]
                  simp
                exact absurd (List.mem_singleton.1 hmem).symm hamp

theorem unescape_cons {c : Char} (h : c ≠ '&') (cs : List Char) :
    unescape (c :: cs) = c :: unescape cs := by
  rw [unescape.eq_6] <;> simp [h]

theorem unescape_escapeChar (c : Char) (cs : List Char) :
    unescape (escapeChar c ++ cs) = c :: unescape cs := by
  by_cases hamp : c = '&'
  · subst hamp; rfl
  by_cases hlt : c = '<'
  · subst hlt; rfl
  by_cases hgt : c = '>'
  · subst hgt; rfl
  by_cases hsingle : c = '\''
  · subst hsingle; rfl
  by_cases hdouble : c = '"'
  · subst hdouble; rfl
  have hc : escapeChar c = [c] := by simp [escapeChar, hamp, hlt, hgt, hsingle, hdouble]
  rw [hc, List.singleton_append, unescape_cons hamp]

/-- **An escaped value can be read back.** -/
theorem unescape_escape (text : String) :
    String.ofList (unescape (escape text).toList) = text := by
  have hlist : ∀ cs : List Char, unescape (cs.flatMap escapeChar) = cs := by
    intro cs
    induction cs with
    | nil => rfl
    | cons c cs ih => rw [List.flatMap_cons, unescape_escapeChar, ih]
  rw [toList_escape, hlist, String.ofList_toList]

end Chunk

/-! ### Templates -/

/-- The fixed markup of a piece; a value leaves a slot. -/
def Chunk.slot : Chunk → Option String
  | .markup text => some text
  | .value _ => none

/-- The value of a piece. -/
def Chunk.value? : Chunk → Option String
  | .markup _ => none
  | .value text => some text

namespace Page

/-- Fixed markup with slots between. -/
abbrev Template := List (Option String)

/-- The template of a page. -/
def template (page : Page) : Template := page.map Chunk.slot

/-- The values of a page, in their order. -/
def values (page : Page) : List String := page.filterMap Chunk.value?

@[simp] theorem template_nil : template [] = [] := rfl

@[simp] theorem template_markup (text : String) (page : Page) :
    template (.markup text :: page) = some text :: template page := rfl

@[simp] theorem template_value (text : String) (page : Page) :
    template (.value text :: page) = none :: template page := rfl

@[simp] theorem values_nil : values [] = [] := rfl

@[simp] theorem values_markup (text : String) (page : Page) :
    values (.markup text :: page) = values page := rfl

@[simp] theorem values_value (text : String) (page : Page) :
    values (.value text :: page) = text :: values page := rfl

/-- The template with a text in each slot; nothing when there are not as many texts as slots. -/
def fill : Template → List String → Option String
  | [], [] => some ""
  | some markup :: rest, texts => (fill rest texts).map (markup ++ ·)
  | none :: rest, text :: texts => (fill rest texts).map (text ++ ·)
  | [], _ :: _ => none
  | none :: _, [] => none

theorem render_cons (chunk : Chunk) (page : Page) :
    render (chunk :: page) = chunk.render ++ render page := by
  simp [render]

/-- **A page is its template**, with its values escaped in the slots. -/
theorem fill_template (page : Page) :
    fill page.template (page.values.map Chunk.escape) = some page.render := by
  induction page with
  | nil => rfl
  | cons chunk page ih =>
      cases chunk with
      | markup text =>
          rw [template_markup, values_markup, fill, ih, Option.map_some, render_cons, Chunk.render]
      | value text =>
          rw [template_value, values_value, List.map_cons, fill, ih, Option.map_some, render_cons,
            Chunk.render]

theorem template_append (p q : Page) : template (p ++ q) = template p ++ template q :=
  List.map_append

theorem template_flatMap {α : Type} (f : α → Page) (xs : List α) :
    template (xs.flatMap f) = xs.flatMap fun x => (f x).template :=
  List.map_flatMap

theorem values_append (p q : Page) : values (p ++ q) = values p ++ values q :=
  List.filterMap_append

theorem values_flatMap {α : Type} (f : α → Page) (xs : List α) :
    values (xs.flatMap f) = xs.flatMap fun x => (f x).values :=
  List.filterMap_flatMap

end Page

/-! ### Tags -/

/-- Where a reader of tags is. -/
inductive TagState where
  /-- Between tags. -/
  | text
  /-- In the name of a tag, after the given characters. -/
  | name (read : List Char)
  /-- In a tag, after its name. -/
  | attributes
  /-- In an attribute, between the given quotes. -/
  | quoted (mark : Char)
  deriving DecidableEq

namespace TagState

/-- One character further; at the end of the name of a tag, the name. -/
def step (st : TagState) (c : Char) : TagState × List String :=
  match st with
  | text => (if c = '<' then name [] else text, [])
  | name read =>
      if c = '>' then (text, [String.ofList read])
      else if c.isWhitespace then (attributes, [String.ofList read])
      else (name (read ++ [c]), [])
  | attributes =>
      (if c = '>' then text else if c = '"' ∨ c = '\'' then quoted c else attributes, [])
  | quoted mark => (if c = mark then attributes else quoted mark, [])

/-- All characters, and the names of the tags among them. -/
def read (st : TagState) : List Char → TagState × List String
  | [] => (st, [])
  | c :: cs =>
      match st.step c with
      | (next, names) =>
          match next.read cs with
          | (last, more) => (last, names ++ more)

/-- The places where an escaped value stays what it is: between tags, and between double quotes. -/
def Guarded (st : TagState) : Prop := st = text ∨ st = quoted '"'

instance (st : TagState) : Decidable st.Guarded :=
  inferInstanceAs (Decidable (st = text ∨ st = quoted '"'))

/-- Reads the markup of a template; nothing when a slot is in another place. -/
def readTemplate (st : TagState) : Page.Template → Option (TagState × List String)
  | [] => some (st, [])
  | some markup :: rest =>
      match st.read markup.toList with
      | (next, names) => (next.readTemplate rest).map fun r => (r.1, names ++ r.2)
  | none :: rest => if st.Guarded then st.readTemplate rest else none

theorem read_cons (st : TagState) (c : Char) (cs : List Char) :
    st.read (c :: cs) = (((st.step c).1.read cs).1, (st.step c).2 ++ ((st.step c).1.read cs).2) :=
  rfl

theorem read_append (st : TagState) (as bs : List Char) :
    st.read (as ++ bs) =
      (((st.read as).1.read bs).1, (st.read as).2 ++ ((st.read as).1.read bs).2) := by
  induction as generalizing st with
  | nil => rfl
  | cons a as ih => rw [List.cons_append, read_cons, ih, read_cons, List.append_assoc]

/-- A harmless character changes nothing at a guarded place. -/
theorem Guarded.step {st : TagState} (h : st.Guarded) {c : Char} (hlt : c ≠ '<')
    (hquote : c ≠ '"') : st.step c = (st, []) := by
  rcases h with rfl | rfl
  · simp [TagState.step, hlt]
  · simp [TagState.step, hquote]

/-- **A harmless text** changes nothing at a guarded place. -/
theorem Guarded.read {st : TagState} (h : st.Guarded) {cs : List Char}
    (hcs : ∀ c ∈ cs, c ≠ '<' ∧ c ≠ '>' ∧ c ≠ '"' ∧ c ≠ '\'') : st.read cs = (st, []) := by
  induction cs with
  | nil => rfl
  | cons c cs ih =>
      obtain ⟨⟨hlt, -, hquote, -⟩, hrest⟩ := List.forall_mem_cons.1 hcs
      rw [read_cons, h.step hlt hquote, ih hrest, List.nil_append]

/-- **Tags are those of the template**: a page whose values stand at guarded places is read like
its template. -/
theorem read_render {page : Page} {st : TagState} {r : TagState × List String}
    (h : st.readTemplate page.template = some r) : st.read page.render.toList = r := by
  induction page generalizing st r with
  | nil =>
      rw [← Option.some.inj h]
      rfl
  | cons chunk page ih =>
      rw [Page.render_cons, String.toList_append, read_append]
      cases chunk with
      | markup text =>
          rw [Page.template_markup, readTemplate] at h
          obtain ⟨r', hr', rfl⟩ := Option.map_eq_some_iff.1 h
          rw [Chunk.render, ih hr']
      | value text =>
          rw [Page.template_value, readTemplate] at h
          split at h
          · next hguarded =>
              rw [Chunk.render, hguarded.read (Chunk.harmless_escape text).not_mem, ih h,
                List.nil_append]
          · cases h

theorem readTemplate_append {st next last : TagState} {t u : Page.Template}
    {names more : List String} (ht : st.readTemplate t = some (next, names))
    (hu : next.readTemplate u = some (last, more)) :
    st.readTemplate (t ++ u) = some (last, names ++ more) := by
  induction t generalizing st names with
  | nil =>
      obtain ⟨rfl, rfl⟩ := Prod.mk.inj (Option.some.inj ht)
      exact hu
  | cons slot t ih =>
      cases slot with
      | none =>
          simp only [List.cons_append, readTemplate] at ht ⊢
          split at ht
          · next hguarded =>
              rw [if_pos hguarded]
              exact ih ht
          · cases ht
      | some markup =>
          simp only [List.cons_append, readTemplate] at ht ⊢
          obtain ⟨⟨state, tags⟩, htags, heq⟩ := Option.map_eq_some_iff.1 ht
          obtain ⟨rfl, rfl⟩ := Prod.mk.inj heq
          rw [ih htags, Option.map_some, List.append_assoc]

/-- Texts that change nothing one by one change nothing together. -/
theorem read_flatMap {α : Type} {st : TagState} {f : α → List Char} {xs : List α}
    (h : ∀ x ∈ xs, st.read (f x) = (st, [])) : st.read (xs.flatMap f) = (st, []) := by
  induction xs with
  | nil => rfl
  | cons x xs ih =>
      obtain ⟨hx, hxs⟩ := List.forall_mem_cons.1 h
      rw [List.flatMap_cons, read_append, hx, ih hxs, List.nil_append]

end TagState

/-- The names of the tags of a page, in their order.  The name of a closing tag begins with `/`. -/
def tagNames (page : String) : List String := (TagState.text.read page.toList).2

/-- The template begins and ends between tags and has the given tags. -/
def Page.HasTags (page : Page) (tags : List String) : Prop :=
  TagState.text.readTemplate page.template = some (.text, tags)

namespace Page.HasTags

theorem tagNames_eq {page : Page} {tags : List String} (h : page.HasTags tags) :
    tagNames page.render = tags :=
  congrArg Prod.snd (TagState.read_render h)

theorem nil : HasTags [] [] := rfl

theorem append {p q : Page} {tags more : List String} (hp : p.HasTags tags)
    (hq : q.HasTags more) : HasTags (p ++ q) (tags ++ more) := by
  rw [HasTags, template_append]
  exact TagState.readTemplate_append hp hq

theorem flatMap {α : Type} {f : α → Page} {tags : α → List String} {xs : List α}
    (h : ∀ x ∈ xs, (f x).HasTags (tags x)) : HasTags (xs.flatMap f) (xs.flatMap tags) := by
  induction xs with
  | nil => exact nil
  | cons x xs ih =>
      obtain ⟨hx, hxs⟩ := List.forall_mem_cons.1 h
      rw [List.flatMap_cons, List.flatMap_cons]
      exact hx.append (ih hxs)

end Page.HasTags

end VhdlCatalog
