import VhdlCatalog.Proofs.Decoding
import VhdlCatalog.Proofs.Encoding
import VhdlCatalog.Proofs.Ranges
import VhdlCatalog.Render.Plain

/-!
**What is shown is an excerpt of the source.**

Declarations are kept as ranges of bytes, while their lines have been recognised as text.  The two
agree because lines end in bytes that no character shares: whatever comes before a line terminator,
the terminator stands for itself, and decoding starts anew after it.  So documentation and code are
the decoded lines of the range, one after another, even where the bytes are not well-formed; and
where they encode a text, the lines of the range encode a part of that text.

Main definitions:

* `VhdlCatalog.Source.CutsAtLine` — a text is cut where a line ends;
* `VhdlCatalog.FileScan.excerpted` — the symbols that are shown by their source.

Main results:

* `VhdlCatalog.Source.decode_flatten` — **decoding goes line by line**;
* `VhdlCatalog.Utf8.exists_split_of_encode` — a cut after an ASCII byte divides no character;
* `VhdlCatalog.Declaration.Spans.exists_lines` — the lines of a range;
* `VhdlCatalog.excerpts_of_scanSource` — **verbatim excerpts**, for all symbols of a file.
-/

set_option relaxedAutoImplicit false
set_option autoImplicit false

namespace VhdlCatalog

/-! ### Cuts after ASCII bytes -/

namespace Utf8

variable {b : UInt8} {as bs : Bytes}

/-- Decoding starts anew after an ASCII byte. -/
theorem decode_append_of_getLast? (h : as.getLast? = some b) (hb : b.toNat < 0x80) (bs : Bytes) :
    decode (as ++ bs) = decode as ++ decode bs := by
  obtain ⟨as, rfl⟩ := List.getLast?_eq_some_iff.1 h
  rw [List.append_assoc, List.singleton_append, decode_append_ascii as hb,
    decode_append_ascii as hb, decode_nil, List.append_assoc, List.singleton_append]

theorem getLast?_decode (h : as.getLast? = some b) (hb : b.toNat < 0x80) :
    (decode as).getLast? = some (Char.ofNat b.toNat) := by
  obtain ⟨as, rfl⟩ := List.getLast?_eq_some_iff.1 h
  rw [decode_append_ascii as hb]
  simp

theorem encodeChar_of_ascii {c : Char} (h : c.toNat < 0x80) :
    String.utf8EncodeChar c = [UInt8.ofNat c.toNat] := by
  have hval : c.val.toNat = c.toNat := rfl
  rw [String.utf8EncodeChar, hval, if_pos (by omega)]

/-- An ASCII byte is all there is of its character. -/
theorem eq_nil_of_encodeChar {c : Char} (h : String.utf8EncodeChar c = as ++ bs)
    (hlast : as.getLast? = some b) (hb : b.toNat < 0x80) : bs = [] := by
  have hmem : b ∈ String.utf8EncodeChar c :=
    h ▸ List.mem_append_left _ (List.mem_of_getLast? hlast)
  have hc : c.toNat < 0x80 := by
    rw [toNat_eq_of_mem_encodeChar hb hmem]
    exact hb
  rw [encodeChar_of_ascii hc] at h
  cases as with
  | nil => cases hlast
  | cons a as =>
      have hlen := congrArg List.length h
      simp only [List.cons_append, List.length_cons, List.length_append, List.length_nil] at hlen
      exact List.eq_nil_of_length_eq_zero (by omega)

/-- **A cut after an ASCII byte divides no character.** -/
theorem exists_split_of_encode {text : List Char} (h : encode text = as ++ bs)
    (hlast : as.getLast? = some b) (hb : b.toNat < 0x80) :
    ∃ front back, text = front ++ back ∧ encode front = as ∧ encode back = bs := by
  induction text generalizing as with
  | nil =>
      obtain ⟨rfl, -⟩ := List.append_eq_nil_iff.1 h.symm
      cases hlast
  | cons c text ih =>
      rw [encode_cons] at h
      rcases List.append_eq_append_iff.1 h with ⟨rest, has, htext⟩ | ⟨rest, hchar, hbs⟩
      · cases hrest : rest.getLast? with
        | none =>
            obtain rfl : rest = [] := List.getLast?_eq_none_iff.1 hrest
            exact ⟨[c], text, rfl, by simpa [encode] using has.symm, by simpa using htext⟩
        | some d =>
            have hd : rest.getLast? = some b := by
              rw [has, List.getLast?_append, hrest] at hlast
              rw [hrest]
              exact hlast
            obtain ⟨front, back, rfl, hfront, hback⟩ := ih htext hd
            exact ⟨c :: front, back, rfl, by rw [encode_cons, hfront, has], hback⟩
      · -- the cut comes within the first character, and so at its end
        obtain rfl := eq_nil_of_encodeChar hchar hlast hb
        rw [List.append_nil] at hchar
        exact ⟨[c], text, rfl, by simpa [encode] using hchar, by simpa using hbs.symm⟩

end Utf8

namespace Source

/-! ### Line by line -/

theorem Divides.exists_ascii {as bs : Bytes} (h : Divides as bs) :
    ∃ b, as.getLast? = some b ∧ b.toNat < 0x80 := by
  rcases h with h | ⟨h, -⟩
  · exact ⟨lf, h, by decide⟩
  · exact ⟨cr, h, by decide⟩

/-- **Decoding goes line by line.** -/
theorem decode_flatten {ls : List Bytes} (h : ls.IsChain Divides) :
    Utf8.decode ls.flatten = ls.flatMap Utf8.decode := by
  induction ls with
  | nil => rfl
  | cons line ls ih =>
      obtain ⟨hnext, htail⟩ := List.isChain_cons.1 h
      rw [List.flatten_cons, List.flatMap_cons, ← ih htail]
      cases ls with
      | nil => simp
      | cons next more =>
          obtain ⟨b, hlast, hb⟩ := (hnext next rfl).exists_ascii
          exact Utf8.decode_append_of_getLast? hlast hb _

/-- The text is cut at one of its ends or where a line ends: after a line feed, or after a carriage
return that has no line feed behind it. -/
def CutsAtLine (front back : List Char) : Prop :=
  front = [] ∨ back = [] ∨ front.getLast? = some '\n' ∨
    front.getLast? = some '\r' ∧ back.head? ≠ some '\n'

/-- Lines of an encoded text encode parts of it. -/
theorem exists_cut_of_lines_eq {text : List Char} {as bs : List Bytes}
    (h : lines (Utf8.encode text) = as ++ bs) :
    ∃ front back, text = front ++ back ∧ Utf8.encode front = as.flatten ∧
      Utf8.encode back = bs.flatten ∧ CutsAtLine front back := by
  have hdata : Utf8.encode text = as.flatten ++ bs.flatten := by
    rw [← List.flatten_append, ← h, flatten_lines]
  rcases lineBoundary_of_lines_eq h with hzero | hend | ⟨before, after, hsplit, hlength, hdiv⟩
  · have has : as.flatten = [] := List.eq_nil_of_length_eq_zero (by omega)
    rw [has] at hdata ⊢
    exact ⟨[], text, rfl, rfl, by simpa using hdata, Or.inl rfl⟩
  · have hbs : bs.flatten = [] := by
      have hlen := congrArg List.length hdata
      rw [List.length_append] at hlen
      exact List.eq_nil_of_length_eq_zero (by omega)
    rw [hbs] at hdata ⊢
    exact ⟨text, [], by simp, by simpa using hdata, rfl, Or.inr (Or.inl rfl)⟩
  · obtain ⟨rfl, rfl⟩ := List.append_inj (hdata.symm.trans hsplit) (by omega)
    obtain ⟨b, hlast, hb⟩ := hdiv.exists_ascii
    obtain ⟨front, back, rfl, hfront, hback⟩ := Utf8.exists_split_of_encode hdata hlast hb
    refine ⟨front, back, rfl, hfront, hback, Or.inr (Or.inr ?_)⟩
    have hdecode : front = Utf8.decode as.flatten := by rw [← hfront, Utf8.decode_encode]
    rcases hdiv with hlf | ⟨hcr, hnext⟩
    · refine Or.inl ?_
      rw [hdecode]
      exact Utf8.getLast?_decode hlf (by decide)
    · refine Or.inr ⟨?_, fun hhead => hnext ?_⟩
      · rw [hdecode]
        exact Utf8.getLast?_decode hcr (by decide)
      · obtain ⟨rest, rfl⟩ := List.head?_eq_some_iff.1 hhead
        rw [← hback]
        rfl

end Source

open Source

/-! ### The lines of a range -/

/-- Documentation and code of a declaration are lines one after another. -/
theorem Declaration.Spans.exists_lines {data : Bytes} {d : Declaration} {first last : CodeLine}
    (hd : d.Spans first last) (hfirst : first ∈ codeLines data) (hlast : last ∈ codeLines data)
    (hle : first.stop ≤ last.stop) :
    ∃ before doc code after, lines data = before ++ doc ++ code ++ after ∧
      d.docStart = before.flatten.length ∧ d.docStop = (before ++ doc).flatten.length ∧
      d.codeStart = (before ++ doc).flatten.length ∧
      d.codeStop = (before ++ doc ++ code).flatten.length := by
  have hpos := start_lt_stop_of_mem_codeLines hfirst
  obtain ⟨above, raw, below, hlines, rfl⟩ := exists_of_mem_codeLines hfirst
  obtain ⟨upto, raw', after, hlines', rfl⟩ := exists_of_mem_codeLines hlast
  have habove : above <+: lines data := ⟨raw :: below, hlines.symm⟩
  have hupto : upto ++ [raw'] <+: lines data := ⟨after, by rw [hlines', List.append_assoc]; rfl⟩
  have hstop : (CodeLine.following upto raw').stop = (upto ++ [raw']).flatten.length := by
    simp [CodeLine.following]
  -- the last line does not end before the first one begins
  obtain ⟨code, hcode⟩ : above <+: upto ++ [raw'] := by
    rcases List.prefix_or_prefix_of_prefix habove hupto with hpre | ⟨rest, rfl⟩
    · exact hpre
    · have hstart : (CodeLine.following ((upto ++ [raw']) ++ rest) raw).start =
          (upto ++ [raw']).flatten.length + rest.flatten.length := by
        rw [← List.length_append, ← List.flatten_append]
        rfl
      omega
  have hsplit : above.rdropWhile isCommentBytes ++ above.rtakeWhile isCommentBytes = above :=
    List.rdropWhile_append_rtakeWhile
  refine ⟨above.rdropWhile isCommentBytes, above.rtakeWhile isCommentBytes, code, after, ?_,
    hd.docStart, ?_, ?_, ?_⟩
  · rw [hsplit, hcode, hlines', List.append_assoc]
    rfl
  · rw [hsplit]
    exact hd.docStop
  · rw [hsplit]
    exact hd.codeStart
  · rw [hsplit, hcode, hd.codeStop, hstop]

/-- A range of lines out of a source. -/
theorem Source.slice_lines {data : Bytes} {before range after : List Bytes}
    (h : lines data = before ++ range ++ after) :
    slice data before.flatten.length (before ++ range).flatten.length = range.flatten := by
  have hdata : data = before.flatten ++ range.flatten ++ after.flatten := by
    rw [← List.flatten_append, ← List.flatten_append, ← h, flatten_lines]
  rw [List.flatten_append, List.length_append]
  conv_lhs => rw [hdata]
  exact slice_middle _ _ _

/-- Neighbouring lines of a range are divided. -/
theorem Source.isChain_range {data : Bytes} {before range after : List Bytes}
    (h : lines data = before ++ range ++ after) : range.IsChain Divides := by
  have hchain := isChain_lines data
  rw [h] at hchain
  exact (List.isChain_append.1 (List.isChain_append.1 hchain).1).2.1

section Range

variable {data : Bytes} {d : Declaration} {before doc code after : List Bytes}

/-- Documentation and code, cut out apart or together, are the decoded lines of the range. -/
theorem Declaration.doc_append_code (hlines : lines data = before ++ doc ++ code ++ after)
    (hdocStart : d.docStart = before.flatten.length)
    (hdocStop : d.docStop = (before ++ doc).flatten.length)
    (hcodeStart : d.codeStart = (before ++ doc).flatten.length)
    (hcodeStop : d.codeStop = (before ++ doc ++ code).flatten.length) :
    d.doc data ++ d.code data = (doc ++ code).flatMap Utf8.decode ∧
      Utf8.decode (slice data d.docStart d.codeStop) = (doc ++ code).flatMap Utf8.decode := by
  have hwhole : lines data = before ++ (doc ++ code) ++ after := by
    rw [hlines, List.append_assoc before]
  have habove : lines data = before ++ doc ++ (code ++ after) := by
    rw [hlines, List.append_assoc _ code]
  constructor
  · rw [Declaration.doc, Declaration.code, hdocStart, hdocStop, hcodeStart, hcodeStop,
      slice_lines habove, slice_lines hlines, decode_flatten (isChain_range habove),
      decode_flatten (isChain_range hlines), List.flatMap_append]
  · rw [hdocStart, hcodeStop, List.append_assoc, slice_lines hwhole,
      decode_flatten (isChain_range hwhole)]

/-- Where the source encodes a text, the lines of a range encode a part of it. -/
theorem Source.exists_excerpt {text : List Char} {before range after : List Bytes}
    (h : lines (Utf8.encode text) = before ++ range ++ after) :
    ∃ front back, text = front ++ range.flatMap Utf8.decode ++ back ∧
      Utf8.encode front = before.flatten ∧
      Utf8.encode (range.flatMap Utf8.decode) = range.flatten ∧
      Utf8.encode back = after.flatten ∧
      CutsAtLine front (range.flatMap Utf8.decode ++ back) ∧
      CutsAtLine (front ++ range.flatMap Utf8.decode) back := by
  have h' := h
  rw [List.append_assoc] at h'
  obtain ⟨front, rest, hfront, hbefore, -, hcut⟩ := exists_cut_of_lines_eq h'
  obtain ⟨upto, back, hupto, hrange, hafter, hcut'⟩ := exists_cut_of_lines_eq h
  -- both cuts are decoded line by line
  have hchain := isChain_lines (Utf8.encode text)
  rw [h] at hchain
  have hchain := (List.isChain_append.1 hchain).1
  have hdecode : upto = front ++ range.flatMap Utf8.decode := by
    rw [← Utf8.decode_encode upto, ← Utf8.decode_encode front, hrange, hbefore,
      decode_flatten hchain, decode_flatten (List.isChain_append.1 hchain).1, List.flatMap_append]
  subst hdecode
  have hrest : rest = range.flatMap Utf8.decode ++ back := by
    rw [hfront, List.append_assoc] at hupto
    exact List.append_cancel_left hupto
  refine ⟨front, back, hupto, hbefore, ?_, hafter, hrest ▸ hcut, hcut'⟩
  rw [Utf8.encode_append, hbefore, List.flatten_append] at hrange
  exact List.append_cancel_left hrange

end Range

/-- A text is what is left of it without its trailing line feeds, and line feeds. -/
theorem Text.exists_replicate_of_trimEnd (cs : List Char) :
    ∃ k, cs = Text.trimEnd (· == '\n') cs ++ List.replicate k '\n' ∧
      (Text.trimEnd (· == '\n') cs).getLast? ≠ some '\n' := by
  have hfeeds : cs.rtakeWhile (· == '\n') =
      List.replicate (cs.rtakeWhile (· == '\n')).length '\n' :=
    List.eq_replicate_of_mem fun c hc => by simpa using List.mem_rtakeWhile_imp hc
  refine ⟨(cs.rtakeWhile (· == '\n')).length, ?_, ?_⟩
  · rw [← hfeeds]
    exact List.rdropWhile_append_rtakeWhile.symm
  · intro hlast
    have hlast' : (cs.rdropWhile (· == '\n')).getLast? = some '\n' := hlast
    have hne : cs.rdropWhile (· == '\n') ≠ [] := by
      intro hnil
      rw [hnil] at hlast'
      cases hlast'
    rw [List.getLast?_eq_some_getLast hne, Option.some.injEq] at hlast'
    exact List.rdropWhile_last_not (· == '\n') cs hne (by rw [hlast']; rfl)

/-! ### Files -/

/-- The symbols of a file that are shown by their source: its entities, and the members of its
packages. -/
def FileScan.excerpted (file : FileScan) : List Symbol :=
  file.units.flatMap fun
    | .package p => p.members.map Symbol.member
    | s => [s]

/-- Symbols that are shown by their source have a declaration, and its code is theirs. -/
theorem FileScan.declaration_of_mem_excerpted {file : FileScan} {s : Symbol}
    (h : s ∈ file.excerpted) :
    s.declaration ∈ file.declarations ∧ ∀ data, s.code data = s.declaration.code data := by
  obtain ⟨u, hu, hs⟩ := List.mem_flatMap.1 h
  cases u with
  | entity d =>
      obtain rfl : s = .entity d := by simpa using hs
      exact ⟨List.mem_flatMap.2 ⟨_, hu, by simp [Symbol.declarations, Symbol.declaration]⟩,
        fun _ => rfl⟩
  | member m =>
      obtain rfl : s = .member m := by simpa using hs
      exact ⟨List.mem_flatMap.2 ⟨_, hu, by simp [Symbol.declarations, Symbol.declaration]⟩,
        fun _ => rfl⟩
  | package p =>
      obtain ⟨m, hm, rfl⟩ := List.mem_map.1 hs
      refine ⟨List.mem_flatMap.2 ⟨_, hu, ?_⟩, fun _ => rfl⟩
      exact List.mem_cons_of_mem _ (List.mem_map_of_mem hm)

variable {filepath library : String} {data : Bytes} {file : FileScan}

/-- **What is shown is a verbatim excerpt of the source.**  Documentation and code of a symbol
together are the decoded bytes from the beginning of the one to the end of the other.  These bytes
are whole lines of the source, and to decode them line by line gives the same.  Plain output without
bold words is this text up to its trailing line feeds.  Where the source encodes a text, the excerpt
is a part of the text that begins and ends where lines do, and its bytes are those lines: no
character is divided. -/
theorem excerpts_of_scanSource (h : (scanSource filepath library data).result = .ok file) :
    ∀ s ∈ file.excerpted, ∃ before range after, lines data = before ++ range ++ after ∧
      s.declaration.docStart = before.flatten.length ∧
      s.declaration.codeStop = (before ++ range).flatten.length ∧
      s.doc data ++ s.code data =
        Utf8.decode (slice data s.declaration.docStart s.declaration.codeStop) ∧
      s.doc data ++ s.code data = range.flatMap Utf8.decode ∧
      (∀ indent, ∃ k, s.doc data ++ s.code data =
          (PlainStyle.renderSymbol ⟨false, indent⟩ s data).toList ++ List.replicate k '\n' ∧
        (PlainStyle.renderSymbol ⟨false, indent⟩ s data).toList.getLast? ≠ some '\n') ∧
      ∀ text, data = Utf8.encode text → ∃ front back,
        text = front ++ (s.doc data ++ s.code data) ++ back ∧
        Utf8.encode front = before.flatten ∧
        Utf8.encode (s.doc data ++ s.code data) = range.flatten ∧
        CutsAtLine front (s.doc data ++ s.code data ++ back) ∧
        CutsAtLine (front ++ (s.doc data ++ s.code data)) back := by
  intro s hs
  obtain ⟨hdeclared, hcode⟩ := FileScan.declaration_of_mem_excerpted hs
  obtain ⟨first, hfirst, last, hlast, hspans, hle⟩ := exists_spans_of_scanSource h hdeclared
  obtain ⟨before, doc, code, after, hlines, hdocStart, hdocStop, hcodeStart, hcodeStop⟩ :=
    hspans.exists_lines hfirst hlast hle
  obtain ⟨happend, hslice⟩ :=
    Declaration.doc_append_code hlines hdocStart hdocStop hcodeStart hcodeStop
  have hshown : s.doc data ++ s.code data = (doc ++ code).flatMap Utf8.decode := by
    rw [hcode]
    exact happend
  have hlines' : lines data = before ++ (doc ++ code) ++ after := by
    rw [hlines, List.append_assoc before]
  refine ⟨before, doc ++ code, after, hlines', hdocStart, ?_, ?_, hshown, ?_, ?_⟩
  · rw [hcodeStop, List.append_assoc]
  · rw [hshown, hslice]
  · intro indent
    have hrender : (PlainStyle.renderSymbol ⟨false, indent⟩ s data).toList =
        Text.trimEnd (· == '\n') (s.doc data ++ s.code data) := String.toList_ofList
    rw [hrender]
    exact Text.exists_replicate_of_trimEnd _
  · rintro text rfl
    obtain ⟨front, back, htext, hfront, hrange, -, hcut, hcut'⟩ := exists_excerpt hlines'
    rw [hshown]
    exact ⟨front, back, htext, hfront, hrange, hcut, hcut'⟩

/-- An entity with characters torn off before two line ends, and the sample. -/
theorem excerpts_of_samples :
    let torn : Bytes := "-- ".toUTF8.data.toList ++ [0xe2, 0x82, lf] ++
      "entity e is ".toUTF8.data.toList ++ [0xf0, cr] ++ "end;".toUTF8.data.toList
    (∃ file, (scanSource "torn.vhd" "work" torn).result = .ok file ∧
      (file.excerpted.map fun s => String.ofList (s.doc torn ++ s.code torn)) =
        ["-- \ufffd\nentity e is \ufffd\rend;"] ∧
      ∀ s ∈ file.excerpted, ∃ before range after, lines torn = before ++ range ++ after ∧
        s.doc torn ++ s.code torn =
          Utf8.decode (slice torn s.declaration.docStart s.declaration.codeStop) ∧
        s.doc torn ++ s.code torn = range.flatMap Utf8.decode) ∧
    ∃ file, (scanSource "sample.vhd" "Work" sample).result = .ok file ∧
      file.excerpted.length = 5 ∧
      ∀ s ∈ file.excerpted, ∃ front back,
        Utf8.decode sample = front ++ (s.doc sample ++ s.code sample) ++ back ∧
        CutsAtLine front (s.doc sample ++ s.code sample ++ back) ∧
        CutsAtLine (front ++ (s.doc sample ++ s.code sample)) back := by
  intro torn
  have htorn : (scanSource "torn.vhd" "work" torn).result.toOption.map (fun file =>
      file.excerpted.map fun s => String.ofList (s.doc torn ++ s.code torn)) =
      some ["-- \ufffd\nentity e is \ufffd\rend;"] := by
    decide +kernel
  have hlength : (scanSource "sample.vhd" "Work" sample).result.toOption.map
      (fun file => file.excerpted.length) = some 5 := by
    decide +kernel
  have hencoded : sample = Utf8.encode (Utf8.decode sample) := by decide +kernel
  obtain ⟨file, h, hshown⟩ := exists_ok_of_toOption htorn
  obtain ⟨file', h', hlength⟩ := exists_file_sample hlength
  refine ⟨⟨file, h, hshown, ?_⟩, file', h', hlength, ?_⟩
  · intro s hs
    obtain ⟨before, range, after, hlines, -, -, hslice, hrange, -⟩ := excerpts_of_scanSource h s hs
    exact ⟨before, range, after, hlines, hslice, hrange⟩
  · intro s hs
    obtain ⟨before, range, after, -, -, -, -, -, -, htext⟩ := excerpts_of_scanSource h' s hs
    obtain ⟨front, back, hparts, -, -, hcut, hcut'⟩ := htext _ hencoded
    exact ⟨front, back, hparts, hcut, hcut'⟩

end VhdlCatalog
