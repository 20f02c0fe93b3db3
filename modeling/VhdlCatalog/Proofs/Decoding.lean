import Mathlib.Data.List.DropRight
import VhdlCatalog.Proofs.Encoding

/-!
**Decoding and line terminators.**

Sources need not be well-formed, and yet a line can be decoded by itself: an ASCII byte never
belongs to a longer sequence.  It ends a sequence that is pending, is decoded to its own character,
and leaves nothing pending.  In the other direction an ASCII character only comes from its own byte,
since overlong forms are not decoded.  So the text of a line is what its bytes before the terminator
are decoded to, whatever these bytes are.

Main definitions:

* `VhdlCatalog.Utf8.Pending.Beyond` — a sequence in which no ASCII character can be hidden;
* `VhdlCatalog.Source.IsTerminator` — the bytes that end lines.

Main results:

* `VhdlCatalog.Utf8.decode_append_ascii` — **an ASCII byte divides** what is decoded;
* `VhdlCatalog.Utf8.mem_of_mem_decode` — an ASCII character comes from its own byte;
* `VhdlCatalog.Source.lines_append_plain` — bytes without terminators belong to one line;
* `VhdlCatalog.Source.lineText_append` — **the text of a line** is decoded from its bytes before
  the terminator.
-/

set_option relaxedAutoImplicit false
set_option autoImplicit false

namespace VhdlCatalog

namespace Utf8

/-! ### Pending sequences -/

/-- The sequence does not go on with an ASCII byte, and does not come to an ASCII character. -/
structure Pending.Beyond (p : Pending) : Prop where
  low : 0x80 ≤ p.low.toNat
  value : 0x80 ≤ (p.bits * 64 + (p.low.toNat - 0x80)) * 64 ^ p.more

/-- What is pending, if anything is, is beyond ASCII. -/
def Safe (pending : Option Pending) : Prop := ∀ p, pending = some p → p.Beyond

theorem safe_none : Safe none := fun p h => by cases h

theorem safe_lead? (b : UInt8) : Safe (lead? b) := by
  intro p h
  have h80 : (0x80 : UInt8).toNat = 0x80 := rfl
  have h90 : (0x90 : UInt8).toNat = 0x90 := rfl
  have ha0 : (0xa0 : UInt8).toNat = 0xa0 := rfl
  rw [lead?_eq] at h
  split_ifs at h <;> rw [← Option.some.inj h] <;> constructor <;> dsimp only <;> omega

theorem safe_begin (b : UInt8) : Safe (begin b).2 := by
  unfold begin
  split
  · exact safe_none
  · split
    · next p hp =>
        intro q hq
        cases hq
        exact safe_lead? b p hp
    · exact safe_none

variable {pending : Option Pending} {b : UInt8} {c : Char}

/-- **One byte** leaves nothing pending that could hide an ASCII character. -/
theorem safe_step (h : Safe pending) (b : UInt8) : Safe (step pending b).2 := by
  cases pending with
  | none => exact safe_begin b
  | some p =>
      simp only [step]
      split
      · next hrange =>
          split
          · exact safe_none
          · next more hmore =>
              intro q hq
              have h80 : (0x80 : UInt8).toNat = 0x80 := rfl
              have hvalue := (h p rfl).value
              have hlow := UInt8.le_iff_toNat_le.1 hrange.1
              rw [hmore] at hvalue
              rw [← Option.some.inj hq]
              refine ⟨h80.ge, ?_⟩
              -- the byte is at least the least one that may come
              calc 0x80 ≤ (p.bits * 64 + (p.low.toNat - 0x80)) * 64 ^ (more + 1) := hvalue
                _ ≤ (p.bits * 64 + (b.toNat - 0x80)) * 64 ^ (more + 1) :=
                    Nat.mul_le_mul_right _ (by omega)
                _ = ((p.bits * 64 + (b.toNat - 0x80)) * 64 + ((0x80 : UInt8).toNat - 0x80)) *
                    64 ^ more := by rw [h80, pow_succ']; ring
      · exact safe_begin b

/-! ### ASCII bytes -/

/-- An ASCII byte ends what is pending and stands for itself. -/
theorem step_ascii (h : Safe pending) (hb : b.toNat < 0x80) :
    step pending b = (flush pending ++ [Char.ofNat b.toNat], none) := by
  have hbegin : begin b = ([Char.ofNat b.toNat], none) := by
    rw [begin, if_pos (UInt8.lt_iff_toNat_lt.2 hb)]
  cases pending with
  | none => exact hbegin
  | some p =>
      have hlow := (h p rfl).low
      have hrange : ¬(p.low ≤ b ∧ b ≤ p.high) := by
        rintro ⟨hle, -⟩
        have hle' := UInt8.le_iff_toNat_le.1 hle
        omega
      simp only [step, if_neg hrange, hbegin, flush, List.singleton_append]

theorem decodeFrom_append_ascii (h : Safe pending) (as : Bytes) (hb : b.toNat < 0x80) (bs : Bytes) :
    decodeFrom pending (as ++ b :: bs) =
      decodeFrom pending as ++ Char.ofNat b.toNat :: decode bs := by
  induction as generalizing pending with
  | nil =>
      simp only [List.nil_append, decodeFrom, step_ascii h hb, decode, List.append_assoc,
        List.singleton_append]
  | cons a as ih =>
      simp only [List.cons_append, decodeFrom, ih (safe_step h a), List.append_assoc]

/-- **An ASCII byte divides** what is decoded. -/
theorem decode_append_ascii (as : Bytes) (hb : b.toNat < 0x80) (bs : Bytes) :
    decode (as ++ b :: bs) = decode as ++ Char.ofNat b.toNat :: decode bs :=
  decodeFrom_append_ascii safe_none as hb bs

/-- ASCII bytes at the end. -/
theorem decode_append_of_ascii (as : Bytes) {bs : Bytes} (h : ∀ b ∈ bs, b.toNat < 0x80) :
    decode (as ++ bs) = decode as ++ bs.map fun b => Char.ofNat b.toNat := by
  induction bs generalizing as with
  | nil => simp
  | cons b bs ih =>
      obtain ⟨hb, hbs⟩ := List.forall_mem_cons.1 h
      have htail := ih [] hbs
      rw [List.nil_append, decode_nil, List.nil_append] at htail
      rw [decode_append_ascii as hb, htail, List.map_cons]

/-! ### ASCII characters -/

theorem toNat_ofNat_ge {n : Nat} (h : 0x80 ≤ n) :
    (Char.ofNat n).toNat = 0 ∨ 0x80 ≤ (Char.ofNat n).toNat := by
  rw [Char.toNat_ofNat]
  split
  · exact Or.inr h
  · exact Or.inl rfl

theorem eq_of_mem_begin (h : c ∈ (begin b).1) (hlt : c.toNat < 0x80) : c.toNat = b.toNat := by
  unfold begin at h
  split at h
  · next hb =>
      have hb' : b.toNat < 0x80 := UInt8.lt_iff_toNat_lt.1 hb
      rw [List.mem_singleton.1 h, Char.toNat_ofNat, if_pos (Or.inl (by omega))]
  · split at h
    · cases h
    · rw [List.mem_singleton.1 h] at hlt
      exact absurd hlt (by decide)

/-- **One byte** completes no ASCII character but its own. -/
theorem eq_of_mem_step (hsafe : Safe pending) (h : c ∈ (step pending b).1) (hpos : 0 < c.toNat)
    (hlt : c.toNat < 0x80) : c.toNat = b.toNat := by
  cases pending with
  | none => exact eq_of_mem_begin h hlt
  | some p =>
      simp only [step] at h
      split at h
      · next hrange =>
          split at h
          · next hmore =>
              have hvalue := (hsafe p rfl).value
              have hlow := UInt8.le_iff_toNat_le.1 hrange.1
              rw [hmore, pow_zero, Nat.mul_one] at hvalue
              rw [List.mem_singleton.1 h] at hpos hlt
              rcases toNat_ofNat_ge (n := p.bits * 64 + (b.toNat - 0x80)) (by omega) with h0 | hge
              · omega
              · omega
          · cases h
      · rcases List.mem_cons.1 h with rfl | h
        · exact absurd hlt (by decide)
        · exact eq_of_mem_begin h hlt

theorem exists_of_mem_decodeFrom {bs : Bytes} (hsafe : Safe pending)
    (h : c ∈ decodeFrom pending bs) (hpos : 0 < c.toNat) (hlt : c.toNat < 0x80) :
    ∃ b ∈ bs, c.toNat = b.toNat := by
  induction bs generalizing pending with
  | nil =>
      -- what is pending at the end is shown as a replacement character
      cases pending with
      | none => cases h
      | some p =>
          rw [List.mem_singleton.1 h] at hlt
          exact absurd hlt (by decide)
  | cons b bs ih =>
      rcases List.mem_append.1 h with h | h
      · exact ⟨b, by simp, eq_of_mem_step hsafe h hpos hlt⟩
      · obtain ⟨b', hb', hc⟩ := ih (safe_step hsafe b) h
        exact ⟨b', List.mem_cons_of_mem _ hb', hc⟩

/-- **An ASCII character comes from its own byte.** -/
theorem mem_of_mem_decode {bs : Bytes} (h : c ∈ decode bs) (hb : c.toNat = b.toNat)
    (hpos : 0 < b.toNat) (hlt : b.toNat < 0x80) : b ∈ bs := by
  obtain ⟨b', hb', hc⟩ := exists_of_mem_decodeFrom safe_none h (by omega) (by omega)
  have heq : b' = b := UInt8.toNat_inj.1 (hc.symm.trans hb)
  exact heq ▸ hb'

end Utf8

/-! ### Lines -/

namespace Source

/-- The byte belongs to a line terminator. -/
def IsTerminator (b : UInt8) : Prop := b = lf ∨ b = cr

/-- There is no line terminator among the bytes. -/
def Plain (bs : Bytes) : Prop := ∀ b ∈ bs, ¬IsTerminator b

/-- **Bytes without terminators** belong to one line with what comes after them. -/
theorem lines_append_plain {line : Bytes} (hne : line ≠ []) (h : Plain line) (rest : Bytes) :
    lines (line ++ rest) = (line ++ (lines rest).headD []) :: (lines rest).tail := by
  induction line with
  | nil => exact absurd rfl hne
  | cons b line ih =>
      obtain ⟨hb, hline⟩ := List.forall_mem_cons.1 h
      have hlf : b ≠ lf := fun heq => hb (Or.inl heq)
      have hcr : b ≠ cr := fun heq => hb (Or.inr heq)
      rw [List.cons_append, lines_cons]
      cases line with
      | nil =>
          rw [List.nil_append]
          cases lines rest <;> simp [extendLines, hlf, hcr]
      | cons a line =>
          rw [ih (List.cons_ne_nil a line) hline]
          simp [extendLines, hlf, hcr]

/-- A first line that begins with a terminator is a terminator. -/
theorem isTerminator_of_mem_headD {rest : Bytes} (h : ∀ b ∈ rest.head?, IsTerminator b) :
    ∀ b ∈ (lines rest).headD [], IsTerminator b := by
  cases rest with
  | nil => simp
  | cons b rest =>
      have hb : IsTerminator b := h b rfl
      rw [lines_cons]
      cases lines rest with
      | nil => simpa [extendLines] using hb
      | cons first more =>
          rcases hb with rfl | rfl
          · simp [extendLines, IsTerminator]
          · have hne : cr ≠ lf := by decide
            by_cases hfirst : first = [lf]
            · simp [extendLines, hne, hfirst, IsTerminator]
            · simp [extendLines, hne, hfirst, IsTerminator]

/-- **The text of a line** is what its bytes before the terminator are decoded to. -/
theorem lineText_append {line ending : Bytes} (hline : Plain line)
    (hending : ∀ b ∈ ending, IsTerminator b) : lineText (line ++ ending) = Utf8.decode line := by
  have hascii : ∀ b ∈ ending, b.toNat < 0x80 := by
    intro b hb
    rcases hending b hb with rfl | rfl <;> decide
  have hterminators : ∀ c ∈ ending.map fun b => Char.ofNat b.toNat, isTerminator c = true := by
    intro c hc
    obtain ⟨b, hb, rfl⟩ := List.mem_map.1 hc
    rcases hending b hb with rfl | rfl <;> decide
  have htext : ∀ c ∈ Utf8.decode line, isTerminator c = false := by
    intro c hc
    by_contra hterm
    simp only [isTerminator, Bool.not_eq_false, Bool.or_eq_true, beq_iff_eq] at hterm
    rcases hterm with rfl | rfl
    · exact hline cr (Utf8.mem_of_mem_decode hc rfl (by decide) (by decide)) (Or.inr rfl)
    · exact hline lf (Utf8.mem_of_mem_decode hc rfl (by decide) (by decide)) (Or.inl rfl)
  rw [lineText, Utf8.decode_append_of_ascii line hascii, Text.trimEnd, List.reverse_append,
    List.dropWhile_append_of_pos fun c hc => hterminators c (List.mem_reverse.1 hc)]
  change (Utf8.decode line).rdropWhile isTerminator = Utf8.decode line
  rw [List.rdropWhile_eq_self_iff]
  intro hne
  simp [htext _ (List.getLast_mem hne)]

end Source

end VhdlCatalog
