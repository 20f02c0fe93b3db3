import Mathlib
import VhdlCatalog.Source.Line

/-!
**Texts as bytes.**

Decoding is defined for all bytes, well-formed or not.  On bytes that encode a text it gives the
text back, and when lines of text are encoded with a line feed after each, cutting into lines and
decoding gives back the lines.

Main definitions:

* `VhdlCatalog.Utf8.encode` — the bytes of a text;
* `VhdlCatalog.Source.rawLine` — the bytes of a line and its line feed.

Main results:

* `VhdlCatalog.Utf8.decodeFrom_encodeChar`, `VhdlCatalog.Utf8.decode_encode` — **decoding undoes
  encoding**, character by character;
* `VhdlCatalog.Source.lines_rawLines`, `VhdlCatalog.Source.lineText_rawLine` — **cutting undoes
  joining**, for lines without terminators in them;
* `VhdlCatalog.Source.slice_middle` — an excerpt between two offsets.
-/

set_option relaxedAutoImplicit false
set_option autoImplicit false

namespace VhdlCatalog

namespace Utf8

/-! ### Sequences -/

/-- The bytes of a text. -/
def encode (cs : List Char) : Bytes := cs.flatMap String.utf8EncodeChar

theorem encode_cons (c : Char) (cs : List Char) :
    encode (c :: cs) = String.utf8EncodeChar c ++ encode cs := rfl

theorem encode_append (as bs : List Char) : encode (as ++ bs) = encode as ++ encode bs :=
  List.flatMap_append

/-- The lead bytes by their values. -/
theorem lead?_eq (b : UInt8) :
    lead? b =
      if 0xc2 ≤ b.toNat ∧ b.toNat ≤ 0xdf then some ⟨b.toNat - 0xc0, 0, 0x80, 0xbf⟩
      else if b.toNat = 0xe0 then some ⟨0, 1, 0xa0, 0xbf⟩
      else if b.toNat = 0xed then some ⟨0xd, 1, 0x80, 0x9f⟩
      else if 0xe1 ≤ b.toNat ∧ b.toNat ≤ 0xef then some ⟨b.toNat - 0xe0, 1, 0x80, 0xbf⟩
      else if b.toNat = 0xf0 then some ⟨0, 2, 0x90, 0xbf⟩
      else if 0xf1 ≤ b.toNat ∧ b.toNat ≤ 0xf3 then some ⟨b.toNat - 0xf0, 2, 0x80, 0xbf⟩
      else if b.toNat = 0xf4 then some ⟨4, 2, 0x80, 0x8f⟩
      else none := by
  simp only [lead?, UInt8.le_iff_toNat_le, ← UInt8.toNat_inj]
  rfl

theorem toNat_ofNat {n : Nat} (h : n < 0x100) : (UInt8.ofNat n).toNat = n :=
  UInt8.toNat_ofNat_of_lt' h

theorem decodeFrom_ascii {n : Nat} (h : n < 0x80) (bs : Bytes) :
    decodeFrom none (UInt8.ofNat n :: bs) = Char.ofNat n :: decodeFrom none bs := by
  have hn : (UInt8.ofNat n).toNat = n := toNat_ofNat (by omega)
  have hlt : UInt8.ofNat n < 0x80 := by
    rw [UInt8.lt_iff_toNat_lt, hn]
    exact h
  simp [decodeFrom, step, begin, hlt, hn]

/-- A lead byte begins a sequence. -/
theorem decodeFrom_lead {n : Nat} {p : Pending} (hn : n < 0x100) (h : lead? (.ofNat n) = some p)
    (bs : Bytes) : decodeFrom none (UInt8.ofNat n :: bs) = decodeFrom (some p) bs := by
  have hge : ¬UInt8.ofNat n < 0x80 := by
    intro hlt
    have hlt' : n < 0x80 := by
      rw [UInt8.lt_iff_toNat_lt, toNat_ofNat hn] at hlt
      exact hlt
    rw [lead?_eq, toNat_ofNat hn] at h
    split_ifs at h <;> omega
  simp [decodeFrom, step, begin, hge, h]

/-- A byte in the range that is waited for carries the sequence on. -/
theorem decodeFrom_next {n bits more : Nat} {low high : UInt8} (hn : n < 64)
    (hlow : low.toNat ≤ n + 128) (hhigh : n + 128 ≤ high.toNat) (bs : Bytes) :
    decodeFrom (some ⟨bits, more + 1, low, high⟩) (UInt8.ofNat (n + 128) :: bs) =
      decodeFrom (some ⟨bits * 64 + n, more, 0x80, 0xbf⟩) bs := by
  have hb : (UInt8.ofNat (n + 128)).toNat = n + 128 := toNat_ofNat (by omega)
  have hrange : low ≤ UInt8.ofNat (n + 128) ∧ UInt8.ofNat (n + 128) ≤ high := by
    rw [UInt8.le_iff_toNat_le, UInt8.le_iff_toNat_le, hb]
    exact ⟨hlow, hhigh⟩
  simp only [decodeFrom, step, if_pos hrange, hb, Nat.add_sub_cancel, List.nil_append]

/-- The last byte of a sequence completes a character. -/
theorem decodeFrom_last {n bits : Nat} (hn : n < 64) (bs : Bytes) :
    decodeFrom (some ⟨bits, 0, 0x80, 0xbf⟩) (UInt8.ofNat (n + 128) :: bs) =
      Char.ofNat (bits * 64 + n) :: decodeFrom none bs := by
  have hb : (UInt8.ofNat (n + 128)).toNat = n + 128 := toNat_ofNat (by omega)
  have hrange : (0x80 : UInt8) ≤ UInt8.ofNat (n + 128) ∧ UInt8.ofNat (n + 128) ≤ 0xbf := by
    rw [UInt8.le_iff_toNat_le, UInt8.le_iff_toNat_le, hb]
    exact ⟨Nat.le_add_left .., show n + 128 ≤ 0xbf by omega⟩
  simp only [decodeFrom, step, if_pos hrange, hb, Nat.add_sub_cancel, List.singleton_append]

section Lengths

variable {n : Nat}

theorem decodeFrom_two (h : 0x80 ≤ n) (h' : n < 0x800) (bs : Bytes) :
    decodeFrom none (UInt8.ofNat (n / 64 % 32 + 192) :: UInt8.ofNat (n % 64 + 128) :: bs) =
      Char.ofNat n :: decodeFrom none bs := by
  have hlead : lead? (.ofNat (n / 64 % 32 + 192)) = some ⟨n / 64, 0, 0x80, 0xbf⟩ := by
    rw [lead?_eq, toNat_ofNat (by omega), if_pos (by omega)]
    have hbits : n / 64 % 32 + 192 - 0xc0 = n / 64 := by omega
    rw [hbits]
  have hn : n / 64 * 64 + n % 64 = n := by omega
  rw [decodeFrom_lead (by omega) hlead, decodeFrom_last (by omega), hn]

/-- The second byte of three is in the range that the first one sets. -/
theorem exists_lead_three (h : 0x800 ≤ n) (h' : n < 0x10000)
    (hvalid : n < 0xd800 ∨ 0xdfff < n) :
    ∃ low high : UInt8, lead? (.ofNat (n / 4096 % 16 + 224)) = some ⟨n / 4096, 1, low, high⟩ ∧
      low.toNat ≤ n / 64 % 64 + 128 ∧ n / 64 % 64 + 128 ≤ high.toNat := by
  rw [lead?_eq, toNat_ofNat (by omega)]
  have hbits : n / 4096 % 16 + 224 - 0xe0 = n / 4096 := by omega
  have ha0 : (0xa0 : UInt8).toNat = 0xa0 := rfl
  have h9f : (0x9f : UInt8).toNat = 0x9f := rfl
  have h80 : (0x80 : UInt8).toNat = 0x80 := rfl
  have hbf : (0xbf : UInt8).toNat = 0xbf := rfl
  rw [if_neg (by omega), hbits]
  split_ifs with h0 hd
  · have hzero : n / 4096 = 0 := by omega
    exact ⟨0xa0, 0xbf, by rw [hzero], by omega, by omega⟩
  · have hthirteen : n / 4096 = 0xd := by omega
    exact ⟨0x80, 0x9f, by rw [hthirteen], by omega, by omega⟩
  · exact ⟨0x80, 0xbf, rfl, by omega, by omega⟩
  all_goals omega

theorem decodeFrom_three (h : 0x800 ≤ n) (h' : n < 0x10000) (hvalid : n < 0xd800 ∨ 0xdfff < n)
    (bs : Bytes) :
    decodeFrom none (UInt8.ofNat (n / 4096 % 16 + 224) :: UInt8.ofNat (n / 64 % 64 + 128) ::
      UInt8.ofNat (n % 64 + 128) :: bs) = Char.ofNat n :: decodeFrom none bs := by
  obtain ⟨low, high, hlead, hlow, hhigh⟩ := exists_lead_three h h' hvalid
  have hn : (n / 4096 * 64 + n / 64 % 64) * 64 + n % 64 = n := by omega
  rw [decodeFrom_lead (by omega) hlead, decodeFrom_next (by omega) hlow hhigh,
    decodeFrom_last (by omega), hn]

/-- The second byte of four is in the range that the first one sets. -/
theorem exists_lead_four (h : 0x10000 ≤ n) (h' : n < 0x110000) :
    ∃ low high : UInt8, lead? (.ofNat (n / 262144 % 8 + 240)) = some ⟨n / 262144, 2, low, high⟩ ∧
      low.toNat ≤ n / 4096 % 64 + 128 ∧ n / 4096 % 64 + 128 ≤ high.toNat := by
  rw [lead?_eq, toNat_ofNat (by omega)]
  have hbits : n / 262144 % 8 + 240 - 0xf0 = n / 262144 := by omega
  have h90 : (0x90 : UInt8).toNat = 0x90 := rfl
  have h8f : (0x8f : UInt8).toNat = 0x8f := rfl
  have h80 : (0x80 : UInt8).toNat = 0x80 := rfl
  have hbf : (0xbf : UInt8).toNat = 0xbf := rfl
  rw [if_neg (by omega), if_neg (by omega), if_neg (by omega), if_neg (by omega), hbits]
  split_ifs with h0 h1 h4
  · have hzero : n / 262144 = 0 := by omega
    exact ⟨0x90, 0xbf, by rw [hzero], by omega, by omega⟩
  · exact ⟨0x80, 0xbf, rfl, by omega, by omega⟩
  · have hfour : n / 262144 = 4 := by omega
    exact ⟨0x80, 0x8f, by rw [hfour], by omega, by omega⟩
  · omega

theorem decodeFrom_four (h : 0x10000 ≤ n) (h' : n < 0x110000) (bs : Bytes) :
    decodeFrom none (UInt8.ofNat (n / 262144 % 8 + 240) :: UInt8.ofNat (n / 4096 % 64 + 128) ::
      UInt8.ofNat (n / 64 % 64 + 128) :: UInt8.ofNat (n % 64 + 128) :: bs) =
      Char.ofNat n :: decodeFrom none bs := by
  obtain ⟨low, high, hlead, hlow, hhigh⟩ := exists_lead_four h h'
  have hn : ((n / 262144 * 64 + n / 4096 % 64) * 64 + n / 64 % 64) * 64 + n % 64 = n := by omega
  have hthird : n / 64 % 64 + 128 ≤ (0xbf : UInt8).toNat := show _ ≤ 0xbf by omega
  rw [decodeFrom_lead (by omega) hlead, decodeFrom_next (by omega) hlow hhigh,
    decodeFrom_next (by omega) (Nat.le_add_left ..) hthird, decodeFrom_last (by omega), hn]

end Lengths

/-- **One character**: its bytes are decoded as that character, whatever comes after them. -/
theorem decodeFrom_encodeChar (c : Char) (bs : Bytes) :
    decodeFrom none (String.utf8EncodeChar c ++ bs) = c :: decodeFrom none bs := by
  have hvalid : c.toNat < 0xd800 ∨ 0xdfff < c.toNat ∧ c.toNat < 0x110000 := c.valid
  have hval : c.val.toNat = c.toNat := rfl
  have hc : Char.ofNat c.toNat = c := Char.ofNat_toNat c
  simp only [String.utf8EncodeChar, hval]
  split_ifs with h1 h2 h3
  · rw [List.singleton_append, decodeFrom_ascii (by omega), hc]
  · exact (decodeFrom_two (by omega) (by omega) bs).trans (by rw [hc])
  · exact (decodeFrom_three (by omega) (by omega) (by omega) bs).trans (by rw [hc])
  · exact (decodeFrom_four (by omega) (by omega) bs).trans (by rw [hc])

/-- **Decoding undoes encoding.** -/
@[simp] theorem decode_encode (cs : List Char) : decode (encode cs) = cs := by
  induction cs with
  | nil => rfl
  | cons c cs ih =>
      rw [encode_cons, decode, decodeFrom_encodeChar]
      exact congrArg (c :: ·) ih

/-- Only an ASCII character is encoded with an ASCII byte. -/
theorem toNat_eq_of_mem_encodeChar {c : Char} {b : UInt8} (hb : b.toNat < 0x80)
    (h : b ∈ String.utf8EncodeChar c) : c.toNat = b.toNat := by
  have hval : c.val.toNat = c.toNat := rfl
  -- all bytes of longer sequences have their highest bit set
  have hhigh : ∀ m : Nat, 0x80 ≤ m → m < 0x100 → b ≠ UInt8.ofNat m := by
    rintro m hm hm' rfl
    rw [toNat_ofNat hm'] at hb
    omega
  simp only [String.utf8EncodeChar, hval] at h
  split_ifs at h with h1 h2 h3
  · rw [List.mem_singleton.1 h, toNat_ofNat (by omega)]
  all_goals
    simp only [List.mem_cons, List.not_mem_nil, or_false] at h
  · rcases h with h | h
    · exact absurd h (hhigh _ (by omega) (by omega))
    · exact absurd h (hhigh _ (by omega) (by omega))
  · rcases h with h | h | h
    · exact absurd h (hhigh _ (by omega) (by omega))
    · exact absurd h (hhigh _ (by omega) (by omega))
    · exact absurd h (hhigh _ (by omega) (by omega))
  · rcases h with h | h | h | h
    · exact absurd h (hhigh _ (by omega) (by omega))
    · exact absurd h (hhigh _ (by omega) (by omega))
    · exact absurd h (hhigh _ (by omega) (by omega))
    · exact absurd h (hhigh _ (by omega) (by omega))

theorem mem_of_mem_encode {c : Char} {b : UInt8} {cs : List Char} (hb : b.toNat < 0x80)
    (hc : c.toNat = b.toNat) (h : b ∈ encode cs) : c ∈ cs := by
  obtain ⟨x, hx, hmem⟩ := List.mem_flatMap.1 h
  have hnat : x.toNat = c.toNat := (toNat_eq_of_mem_encodeChar hb hmem).trans hc.symm
  rw [← Char.ofNat_toNat c, ← hnat, Char.ofNat_toNat]
  exact hx

end Utf8

/-! ### Lines -/

namespace Source

/-- The bytes of a line and its line feed. -/
def rawLine (text : List Char) : Bytes := Utf8.encode text ++ [lf]

/-- The line has no terminator in it. -/
def OneLine (text : List Char) : Prop := '\n' ∉ text ∧ '\r' ∉ text

theorem lines_append {raw : Bytes} (hlf : lf ∉ raw) (hcr : cr ∉ raw) (rest : Bytes) :
    lines (raw ++ lf :: rest) = (raw ++ [lf]) :: lines rest := by
  induction raw with
  | nil =>
      rw [List.nil_append, lines_cons]
      cases lines rest <;> rfl
  | cons b raw ih =>
      obtain ⟨hb, hlf⟩ : lf ≠ b ∧ lf ∉ raw := by simpa using hlf
      obtain ⟨hb', hcr⟩ : cr ≠ b ∧ cr ∉ raw := by simpa using hcr
      rw [List.cons_append, lines_cons, ih hlf hcr]
      simp [extendLines, hb.symm, hb'.symm]

/-- **Cutting undoes joining.** -/
theorem lines_rawLines {texts : List (List Char)} (h : ∀ text ∈ texts, OneLine text) :
    lines (texts.map rawLine).flatten = texts.map rawLine := by
  induction texts with
  | nil => rfl
  | cons text texts ih =>
      obtain ⟨⟨hlf, hcr⟩, htexts⟩ := List.forall_mem_cons.1 h
      have hlf' : lf ∉ Utf8.encode text := fun hmem =>
        hlf (Utf8.mem_of_mem_encode (by decide) (by decide) hmem)
      have hcr' : cr ∉ Utf8.encode text := fun hmem =>
        hcr (Utf8.mem_of_mem_encode (by decide) (by decide) hmem)
      rw [List.map_cons, List.flatten_cons, rawLine, List.append_assoc, List.singleton_append,
        lines_append hlf' hcr', ih htexts]

theorem decode_rawLine (text : List Char) : Utf8.decode (rawLine text) = text ++ ['\n'] := by
  have hencode : rawLine text = Utf8.encode (text ++ ['\n']) := by
    rw [Utf8.encode_append]
    rfl
  rw [hencode, Utf8.decode_encode]

theorem lineText_rawLine {text : List Char} (h : OneLine text) :
    lineText (rawLine text) = text := by
  obtain ⟨hlf, hcr⟩ := h
  have hnot : ∀ c ∈ text, isTerminator c = false := by
    intro c hc
    have hcr' : c ≠ '\r' := fun heq => hcr (heq ▸ hc)
    have hlf' : c ≠ '\n' := fun heq => hlf (heq ▸ hc)
    simp [isTerminator, hcr', hlf']
  rw [lineText, decode_rawLine, Text.trimEnd, List.reverse_append, List.reverse_singleton,
    List.singleton_append, List.dropWhile_cons_of_pos (by decide)]
  cases hrev : text.reverse with
  | nil => rw [List.dropWhile_nil, ← hrev, List.reverse_reverse]
  | cons c cs =>
      have hc : c ∈ text := by
        rw [← List.mem_reverse, hrev]
        exact List.mem_cons_self ..
      rw [List.dropWhile_cons_of_neg (by simp [hnot c hc]), ← hrev, List.reverse_reverse]

/-! ### Excerpts -/

/-- An excerpt between two offsets. -/
theorem slice_middle (before middle after : Bytes) :
    slice (before ++ middle ++ after) before.length (before.length + middle.length : Nat) =
      middle := by
  have hpos : ∀ n : Nat, n ≤ (before ++ middle ++ after).length →
      position (before ++ middle ++ after).length n = n := by
    intro n hn
    simp only [position, Int.toNat_natCast]
    rw [if_neg (by omega), Nat.min_eq_left hn]
  simp only [slice]
  rw [hpos _ (by simp), hpos _ (by simp), Nat.add_sub_cancel_left, List.append_assoc,
    List.drop_left, List.take_left]

end Source

end VhdlCatalog
