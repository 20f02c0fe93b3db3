import VhdlCatalog.Proofs.Escaping

/-!
**What a page depends on.**

The markup of a catalog page depends on the shape of the outline alone: on how many libraries there
are, how many units in each of them, and how many members in each unit.  The markup of a symbol page
depends on whether there is documentation.  Everything else on a page is an escaped value.

Main definitions:

* `VhdlCatalog.shape` — the shape of an outline;
* `VhdlCatalog.Page.catalogTemplate`, `VhdlCatalog.Page.symbolTemplate` — the markup of both pages;
* `VhdlCatalog.Page.catalogValues`, `VhdlCatalog.Page.symbolValues` — their values;
* `VhdlCatalog.Page.catalogTags`, `VhdlCatalog.Page.symbolTags` — their tags;
* `VhdlCatalog.MarkupSafe` — a page that is a template with escaped values, and has its tags.

Main results:

* `VhdlCatalog.Page.template_ofOutline` — the template is that of any outline of the same shape;
* `VhdlCatalog.Page.hasTags_ofOutline`, `VhdlCatalog.Page.hasTags_ofExcerpt` — the tags;
* `VhdlCatalog.pages_keep_markup` — **nothing in a source becomes markup**.
-/

set_option relaxedAutoImplicit false
set_option autoImplicit false

namespace VhdlCatalog

/-! ### Shapes -/

/-- How many members are listed for a unit. -/
def UnitOutline.size (u : UnitOutline) : Nat := (u.members.flatMap Prod.snd).length

/-- A category without members is not listed. -/
def UnitOutline.Listed (u : UnitOutline) : Prop := ∀ entry ∈ u.members, entry.2 ≠ []

/-- The shape of an outline: its libraries, for each of them its units, and for each of these the
number of its members. -/
def shape (libraries : List LibraryOutline) : List (List Nat) :=
  libraries.map fun lib => lib.units.map UnitOutline.size

/-- A unit with the given number of members, and nothing said about it. -/
def UnitOutline.sketch (size : Nat) : UnitOutline where
  symbol := .entity ⟨"", "", 0, "", 0, 0, 0, 0, "", ""⟩
  members := if size = 0 then [] else [(.constant, List.replicate size "")]

/-- A library with units of the given sizes. -/
def LibraryOutline.sketch (sizes : List Nat) : LibraryOutline := ⟨"", sizes.map UnitOutline.sketch⟩

theorem UnitOutline.size_sketch (size : Nat) : (sketch size).size = size := by
  unfold UnitOutline.size UnitOutline.sketch
  split <;> simp_all

theorem UnitOutline.listed_sketch (size : Nat) : (sketch size).Listed := by
  intro entry hentry
  unfold sketch at hentry
  split at hentry
  · cases hentry
  · rw [List.mem_singleton.1 hentry]
    simpa

/-- There are members when a category is listed. -/
theorem UnitOutline.Listed.isEmpty_members {u : UnitOutline} (h : u.Listed) :
    u.members.isEmpty = decide (u.size = 0) := by
  rw [UnitOutline.size]
  unfold UnitOutline.Listed at h
  cases hmembers : u.members with
  | nil => rfl
  | cons entry rest =>
      have hentry : entry.2 ≠ [] := h entry (by simp [hmembers])
      simp [hentry]

/-- An outline lists no category without members. -/
theorem listed_outline (c : Catalog) : ∀ lib ∈ c.outline, ∀ u ∈ lib.units, u.Listed := by
  intro lib hlib u hu entry hentry
  obtain ⟨l, -, rfl⟩ := List.mem_map.1 hlib
  obtain ⟨s, -, rfl⟩ := List.mem_map.1 hu
  cases s with
  | package p =>
      obtain ⟨-, hne⟩ := List.mem_filter.1 hentry
      simpa using hne
  | entity d => cases hentry
  | member m => cases hentry

namespace Page

/-! ### Templates -/

/-- The template of the catalog page for a shape. -/
def catalogTemplate (shape : List (List Nat)) : Template :=
  (ofOutline "" (shape.map LibraryOutline.sketch)).template

/-- The template of a symbol page, with or without documentation. -/
def symbolTemplate (documented : Bool) : Template :=
  (ofExcerpt (UnitOutline.sketch 0).symbol (if documented then "-" else "") "").template

/-- All member entries have one template. -/
theorem template_memberEntries (members : List (Category × List String)) :
    template (members.flatMap fun entry => entry.2.flatMap (memberEntry entry.1)) =
      (List.replicate (members.flatMap Prod.snd).length
        (memberEntry .constant "").template).flatten := by
  rw [← List.map_const', ← List.flatMap_def, List.flatMap_assoc, template_flatMap]
  refine List.flatMap_congr fun entry _ => ?_
  rw [template_flatMap]
  rfl

theorem template_memberList {u u' : UnitOutline} (h : u.Listed) (h' : u'.Listed)
    (hsize : u.size = u'.size) :
    template (memberList u.members) = template (memberList u'.members) := by
  rw [memberList, memberList, h.isEmpty_members, h'.isEmpty_members, hsize]
  split
  · rfl
  · rw [template_append, template_append, template_append, template_append,
      template_memberEntries, template_memberEntries]
    rw [UnitOutline.size, UnitOutline.size] at hsize
    rw [hsize]

theorem template_unitEntry {u : UnitOutline} (h : u.Listed) :
    template (unitEntry u) = template (unitEntry (.sketch u.size)) := by
  have hmembers := template_memberList h (UnitOutline.listed_sketch u.size)
    (UnitOutline.size_sketch u.size).symm
  simp only [unitEntry, template_append, hmembers]
  rfl

theorem template_librarySection {lib : LibraryOutline} (h : ∀ u ∈ lib.units, u.Listed) :
    template (librarySection lib) =
      template (librarySection (.sketch (lib.units.map UnitOutline.size))) := by
  have hunits : template (lib.units.flatMap unitEntry) =
      template (((lib.units.map UnitOutline.size).map UnitOutline.sketch).flatMap unitEntry) := by
    rw [template_flatMap, template_flatMap, List.flatMap_map, List.flatMap_map]
    exact List.flatMap_congr fun u hu => template_unitEntry (h u hu)
  simp only [librarySection, LibraryOutline.sketch, template_append, hunits]
  rfl

/-- **The template of a catalog page** is that of its shape. -/
theorem template_ofOutline (title : String) {libraries : List LibraryOutline}
    (h : ∀ lib ∈ libraries, ∀ u ∈ lib.units, u.Listed) :
    (ofOutline title libraries).template = catalogTemplate (shape libraries) := by
  have hsections : template (libraries.flatMap librarySection) =
      template (((shape libraries).map LibraryOutline.sketch).flatMap librarySection) := by
    rw [shape, template_flatMap, template_flatMap, List.flatMap_map, List.flatMap_map]
    exact List.flatMap_congr fun lib hlib => template_librarySection (h lib hlib)
  have hempty : ((shape libraries).map LibraryOutline.sketch).isEmpty = libraries.isEmpty := by
    rw [List.isEmpty_map, shape, List.isEmpty_map]
  simp only [catalogTemplate, ofOutline, template_append, hempty]
  split
  · rfl
  · rw [hsections]
    rfl

/-- **The template of a symbol page** depends on whether there is documentation. -/
theorem template_ofExcerpt (s : Symbol) (doc code : String) :
    (ofExcerpt s doc code).template = symbolTemplate (!doc.isEmpty) := by
  simp only [symbolTemplate, ofExcerpt, template_append]
  cases hdoc : doc.isEmpty with
  | true => rfl
  | false => rfl

/-! ### Values -/

/-- The values of the entry of a unit. -/
def unitValues (u : UnitOutline) : List String :=
  [u.symbol.declaration.qualifiedName, u.symbol.kind.label, u.symbol.declaration.name,
    u.symbol.declaration.filepath, toString u.symbol.declaration.line] ++
    u.members.flatMap fun entry => entry.2.flatMap fun name => [entry.1.kind.label, name]

/-- The values of the section of a library. -/
def libraryValues (lib : LibraryOutline) : List String :=
  [lib.name, lib.name] ++ lib.units.flatMap unitValues

/-- The values of a catalog page. -/
def catalogValues (title : String) (libraries : List LibraryOutline) : List String :=
  [title, title] ++ libraries.flatMap libraryValues

/-- The values of a symbol page. -/
def symbolValues (s : Symbol) (doc code : String) : List String :=
  [s.declaration.qualifiedName, s.kind.label, s.declaration.qualifiedName, s.declaration.filepath,
    toString s.declaration.line] ++ (if doc.isEmpty then [] else [doc]) ++ [code]

theorem values_memberList (members : List (Category × List String)) :
    values (memberList members) =
      members.flatMap fun entry => entry.2.flatMap fun name => [entry.1.kind.label, name] := by
  cases members with
  | nil => rfl
  | cons entry rest =>
      rw [memberList, if_neg (by simp), values_append, values_append, values_flatMap]
      simp only [values_flatMap, memberEntry, values_markup, values_value, values_nil,
        List.nil_append, List.append_nil]

theorem values_unitEntry (u : UnitOutline) : values (unitEntry u) = unitValues u := by
  simp only [unitEntry, values_append, values_memberList, unitValues, values_markup, values_value,
    values_nil, List.append_nil]

theorem values_librarySection (lib : LibraryOutline) :
    values (librarySection lib) = libraryValues lib := by
  simp only [librarySection, values_append, values_flatMap, values_unitEntry, libraryValues,
    values_markup, values_value, values_nil, List.append_nil]

theorem values_ofOutline (title : String) (libraries : List LibraryOutline) :
    (ofOutline title libraries).values = catalogValues title libraries := by
  cases libraries with
  | nil => rfl
  | cons lib rest =>
      rw [ofOutline, if_neg (by simp), values_append, values_append, values_append, values_flatMap]
      simp only [values_librarySection, catalogValues, head, foot, values_markup, values_value,
        values_nil, List.append_nil]
      rfl

theorem values_ofExcerpt (s : Symbol) (doc code : String) :
    (ofExcerpt s doc code).values = symbolValues s doc code := by
  simp only [ofExcerpt, symbolValues, values_append, head, foot]
  cases doc.isEmpty with
  | true => rfl
  | false => rfl

/-! ### Tags -/

/-- The tags before the body of a page. -/
def headTags : List String :=
  ["!DOCTYPE", "html", "head", "meta", "title", "/title", "style", "/style", "/head", "body"]

/-- The tags after the body of a page. -/
def footTags : List String := ["/body", "/html"]

/-- The tags of the entry of a member. -/
def memberTags : List String := ["li", "span", "/span", "/li"]

/-- The tags of the entry of a unit with the given number of members. -/
def unitTags (size : Nat) : List String :=
  ["li", "span", "/span", "strong", "/strong", "span", "/span"] ++
    (if size = 0 then [] else ["ul"] ++ (List.replicate size memberTags).flatten ++ ["/ul"]) ++
    ["/li"]

/-- The tags of the section of a library with units of the given sizes. -/
def libraryTags (sizes : List Nat) : List String :=
  ["section", "h2", "/h2", "ul"] ++ sizes.flatMap unitTags ++ ["/ul", "/section"]

/-- The tags of the catalog page for a shape. -/
def catalogTags (shape : List (List Nat)) : List String :=
  headTags ++ ["h1", "/h1"] ++
    (if shape.isEmpty then ["p", "/p"] else shape.flatMap libraryTags) ++ footTags

/-- The tags of a symbol page, with or without documentation. -/
def symbolTags (documented : Bool) : List String :=
  headTags ++ ["h1", "span", "/span", "/h1", "p", "/p"] ++
    (if documented then ["div", "/div"] else []) ++ ["pre", "/pre"] ++ footTags

theorem hasTags_memberEntry (category : Category) (name : String) :
    (memberEntry category name).HasTags memberTags := by
  simp only [HasTags, memberEntry, template_markup, template_value, template_nil]
  decide +kernel

theorem hasTags_memberList {u : UnitOutline} (h : u.Listed) :
    HasTags (memberList u.members)
      (if u.size = 0 then [] else
        ["ul"] ++ (List.replicate u.size memberTags).flatten ++ ["/ul"]) := by
  have hentries : HasTags (u.members.flatMap fun entry => entry.2.flatMap (memberEntry entry.1))
      (List.replicate u.size memberTags).flatten := by
    rw [UnitOutline.size, ← List.map_const', ← List.flatMap_def, List.flatMap_assoc]
    refine HasTags.flatMap fun entry _ => HasTags.flatMap fun name _ => ?_
    exact hasTags_memberEntry entry.1 name
  rw [memberList, h.isEmpty_members]
  by_cases hsize : u.size = 0
  · rw [if_pos (by simpa using hsize), if_pos hsize]
    exact .nil
  · rw [if_neg (by simpa using hsize), if_neg hsize]
    refine HasTags.append (HasTags.append ?_ hentries) ?_
    all_goals
      simp only [HasTags, template_markup, template_nil]
      decide +kernel

theorem hasTags_unitEntry {u : UnitOutline} (h : u.Listed) :
    (unitEntry u).HasTags (unitTags u.size) := by
  refine HasTags.append (HasTags.append ?_ (hasTags_memberList h)) ?_
  all_goals
    simp only [HasTags, template_markup, template_value, template_nil]
    decide +kernel

theorem hasTags_librarySection {lib : LibraryOutline} (h : ∀ u ∈ lib.units, u.Listed) :
    (librarySection lib).HasTags (libraryTags (lib.units.map UnitOutline.size)) := by
  have hunits : HasTags (lib.units.flatMap unitEntry)
      ((lib.units.map UnitOutline.size).flatMap unitTags) := by
    rw [List.flatMap_map]
    exact HasTags.flatMap fun u hu => hasTags_unitEntry (h u hu)
  refine HasTags.append (HasTags.append ?_ hunits) ?_
  all_goals
    simp only [HasTags, template_markup, template_value, template_nil]
    decide +kernel

/-- A style sheet without tags ends the head of a page. -/
theorem hasTags_head (title : String) {style : List String}
    (h : ∀ rule ∈ style, TagState.text.read rule.toList = (.text, [])) :
    (head title style).HasTags headTags := by
  have hrules : TagState.text.read
      (String.join (style.map fun rule => "  " ++ rule ++ "\n")).toList = (.text, []) := by
    rw [String.toList_join, List.flatMap_map]
    refine TagState.read_flatMap fun rule hrule => ?_
    have hindent : TagState.text.read "  ".toList = (.text, []) := by decide +kernel
    have hend : TagState.text.read "\n".toList = (.text, []) := by decide +kernel
    rw [String.toList_append, String.toList_append, TagState.read_append, TagState.read_append,
      hindent, h rule hrule, hend]
    rfl
  have hopen : TagState.text.read "</title>\n<style>\n".toList = (.text, ["/title", "style"]) := by
    decide +kernel
  have hclose : TagState.text.read "</style>\n</head>\n<body>\n".toList =
      (.text, ["/style", "/head", "body"]) := by
    decide +kernel
  refine @HasTags.append [_, _] [_] ["!DOCTYPE", "html", "head", "meta", "title"]
    ["/title", "style", "/style", "/head", "body"] ?_ ?_
  · simp only [HasTags, template_markup, template_value, template_nil]
    decide +kernel
  · rw [HasTags, template_markup, template_nil, TagState.readTemplate, String.toList_append,
      String.toList_append, TagState.read_append, TagState.read_append, hopen, hrules, hclose]
    rfl

theorem hasTags_foot : foot.HasTags footTags := by
  unfold HasTags
  decide +kernel

/-- **The tags of a catalog page** are those of its shape. -/
theorem hasTags_ofOutline (title : String) {libraries : List LibraryOutline}
    (h : ∀ lib ∈ libraries, ∀ u ∈ lib.units, u.Listed) :
    (ofOutline title libraries).HasTags (catalogTags (shape libraries)) := by
  have hsections : HasTags (libraries.flatMap librarySection)
      ((shape libraries).flatMap libraryTags) := by
    rw [shape, List.flatMap_map]
    exact HasTags.flatMap fun lib hlib => hasTags_librarySection (h lib hlib)
  have hstyle : ∀ rule ∈ catalogStyle, TagState.text.read rule.toList = (.text, []) := by
    decide +kernel
  have hhead := hasTags_head title hstyle
  refine HasTags.append (HasTags.append (HasTags.append hhead ?_) ?_) hasTags_foot
  · simp only [HasTags, template_markup, template_value, template_nil]
    decide +kernel
  · rw [shape, List.isEmpty_map]
    split
    · unfold HasTags
      decide +kernel
    · exact hsections

/-- **The tags of a symbol page** depend on whether there is documentation. -/
theorem hasTags_ofExcerpt (s : Symbol) (doc code : String) :
    (ofExcerpt s doc code).HasTags (symbolTags (!doc.isEmpty)) := by
  have hstyle : ∀ rule ∈ symbolStyle, TagState.text.read rule.toList = (.text, []) := by
    decide +kernel
  have hhead := hasTags_head s.declaration.qualifiedName hstyle
  refine HasTags.append (HasTags.append (HasTags.append (HasTags.append hhead ?_) ?_) ?_)
    hasTags_foot
  · simp only [HasTags, template_markup, template_value, template_nil]
    decide +kernel
  · cases doc.isEmpty with
    | true => exact .nil
    | false =>
        simp only [HasTags, template_markup, template_value, template_nil, Bool.false_eq_true,
          if_false, Bool.not_false, if_true]
        decide +kernel
  · simp only [HasTags, template_markup, template_value, template_nil]
    decide +kernel

end Page

/-! ### Pages -/

/-- The output is a template with escaped values in its slots, in the given order.  An escaped value
has no character that could be markup, and it can be read back.  The tags of the output are the
given ones. -/
structure MarkupSafe (output : String) (template : Page.Template) (values tags : List String) :
    Prop where
  filled : Page.fill template (values.map Chunk.escape) = some output
  harmless : ∀ value ∈ values, Chunk.Harmless (Chunk.escape value).toList
  readBack : ∀ value ∈ values, String.ofList (Chunk.unescape (Chunk.escape value).toList) = value
  tagNames_eq : tagNames output = tags

theorem Page.HasTags.markupSafe {page : Page} {tags : List String} (h : page.HasTags tags) :
    MarkupSafe page.render page.template page.values tags where
  filled := page.fill_template
  harmless value _ := Chunk.harmless_escape value
  readBack value _ := Chunk.unescape_escape value
  tagNames_eq := h.tagNames_eq

theorem markupSafe_renderCatalog (title : String) (c : Catalog) :
    MarkupSafe ((Renderer.pages title).renderCatalog c) (Page.catalogTemplate (shape c.outline))
      (Page.catalogValues title c.outline) (Page.catalogTags (shape c.outline)) := by
  have hlisted := listed_outline c
  rw [← Page.template_ofOutline title hlisted, ← Page.values_ofOutline]
  exact (Page.hasTags_ofOutline title hlisted).markupSafe

/-- The documentation of a symbol without comment markers. -/
def Symbol.plainDoc (s : Symbol) (source : Bytes) : String :=
  String.ofList (Page.stripMarkers (s.doc source))

/-- The code of a symbol without the line feeds at its end. -/
def Symbol.plainCode (s : Symbol) (source : Bytes) : String :=
  String.ofList (Text.trimEnd (· == '\n') (s.code source))

theorem markupSafe_renderSymbol (title : String) (s : Symbol) (source : Bytes) :
    MarkupSafe ((Renderer.pages title).renderSymbol s source)
      (Page.symbolTemplate (!(s.plainDoc source).isEmpty))
      (Page.symbolValues s (s.plainDoc source) (s.plainCode source))
      (Page.symbolTags (!(s.plainDoc source).isEmpty)) := by
  rw [← Page.template_ofExcerpt s (s.plainDoc source) (s.plainCode source),
    ← Page.values_ofExcerpt]
  exact (Page.hasTags_ofExcerpt s (s.plainDoc source) (s.plainCode source)).markupSafe

/-- **Nothing in a source becomes markup.**  The page of a catalog and the page of a symbol are
templates with escaped values: the title, the names, files and lines of what is listed, and the
documentation and code of the symbol.  The template and the tags depend only on the shape of the
outline, and on whether there is documentation without its markers.  So two catalogs of the same
shape have pages with the same tags, and so have two symbols that are both documented or both not,
whatever the titles are. -/
theorem pages_keep_markup (title : String) :
    (∀ c : Catalog,
      MarkupSafe ((Renderer.pages title).renderCatalog c) (Page.catalogTemplate (shape c.outline))
        (Page.catalogValues title c.outline) (Page.catalogTags (shape c.outline))) ∧
    (∀ (s : Symbol) (source : Bytes),
      MarkupSafe ((Renderer.pages title).renderSymbol s source)
        (Page.symbolTemplate (!(s.plainDoc source).isEmpty))
        (Page.symbolValues s (s.plainDoc source) (s.plainCode source))
        (Page.symbolTags (!(s.plainDoc source).isEmpty))) ∧
    (∀ (title' : String) (c c' : Catalog), shape c.outline = shape c'.outline →
      tagNames ((Renderer.pages title).renderCatalog c) =
        tagNames ((Renderer.pages title').renderCatalog c')) ∧
    (∀ (title' : String) (s s' : Symbol) (source source' : Bytes),
      (s.plainDoc source).isEmpty = (s'.plainDoc source').isEmpty →
      tagNames ((Renderer.pages title).renderSymbol s source) =
        tagNames ((Renderer.pages title').renderSymbol s' source')) := by
  refine ⟨markupSafe_renderCatalog title, markupSafe_renderSymbol title, ?_, ?_⟩
  · intro title' c c' hshape
    rw [(markupSafe_renderCatalog title c).tagNames_eq,
      (markupSafe_renderCatalog title' c').tagNames_eq, hshape]
  · intro title' s s' source source' hdoc
    rw [(markupSafe_renderSymbol title s source).tagNames_eq,
      (markupSafe_renderSymbol title' s' source').tagNames_eq, hdoc]

/-- An entity of the given name, with a comment before it. -/
def commentedEntity (name : String) : Symbol :=
  .entity ⟨"e.vhd", name, 2, name, 0, 7, 7, 20, "", ""⟩

/-- A library with one entity, both of the given name. -/
def entityCatalog (name : String) : Catalog :=
  (Catalog.empty.addSymbol name (commentedEntity name)).1

/-- A title and a name that would close an element and an attribute and begin a script, and a
comment with markup, make no difference for the tags. -/
theorem pages_keep_markup_samples :
    let source : Bytes := "-- abc\nentity e is\n".toUTF8.data.toList
    let source' : Bytes := "-- <b>\nentity e is\n".toUTF8.data.toList
    let s := commentedEntity "e"
    let s' := commentedEntity "\"><script>"
    shape (entityCatalog "e").outline = shape (entityCatalog "\"><script>").outline ∧
    tagNames ((Renderer.pages "Units").renderCatalog (entityCatalog "e")) =
      tagNames ((Renderer.pages "</title><p>").renderCatalog (entityCatalog "\"><script>")) ∧
    (s.plainDoc source).isEmpty = (s'.plainDoc source').isEmpty ∧
    tagNames ((Renderer.pages "Units").renderSymbol s source) =
      tagNames ((Renderer.pages "</title><p>").renderSymbol s' source') := by
  intro source source' s s'
  have hshape : shape (entityCatalog "e").outline =
      shape (entityCatalog "\"><script>").outline := by
    decide +kernel
  have hdoc : (s.plainDoc source).isEmpty = (s'.plainDoc source').isEmpty := by
    decide +kernel
  obtain ⟨-, -, hcatalogs, hsymbols⟩ := pages_keep_markup "Units"
  exact ⟨hshape, hcatalogs _ _ _ hshape, hdoc, hsymbols _ s s' source source' hdoc⟩

end VhdlCatalog
