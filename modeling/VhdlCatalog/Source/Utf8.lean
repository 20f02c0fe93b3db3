/-!
**Decoding bytes.**

Sources are bytes and need not be well-formed UTF-8.  Decoding never fails: every maximal part of
the input that begins a sequence which cannot be completed is shown as one replacement character.

Main definitions:

* `VhdlCatalog.Bytes` — raw contents;
* `VhdlCatalog.Utf8.Pending` — a sequence that has begun and waits for more bytes;
* `VhdlCatalog.Utf8.step` — one more byte;
* `VhdlCatalog.Utf8.decode` — the text of raw contents.

Main results:

* `VhdlCatalog.Utf8.decodeFrom_append` — decoding a concatenation goes on from where decoding the
  first part has got to.
-/

set_option relaxedAutoImplicit false
set_option autoImplicit false

namespace VhdlCatalog

/-- Raw contents of a file. -/
abbrev Bytes := List UInt8

namespace Utf8

/-- The character shown in place of what cannot be decoded. -/
def replacement : Char := Char.ofNat 0xfffd

/-- A sequence of bytes that has begun a character and is not complete. -/
structure Pending where
  /-- The bits read so far. -/
  bits : Nat
  /-- How many more bytes follow the next one. -/
  more : Nat
  /-- The least value the next byte may have. -/
  low : UInt8
  /-- The greatest value the next byte may have. -/
  high : UInt8
  deriving DecidableEq, Repr

/-- The sequence that the lead byte `b` begins, if it begins one of two bytes or more.  The bounds
on the second byte rule out overlong forms, surrogates and code points past the last one. -/
def lead? (b : UInt8) : Option Pending :=
  if 0xc2 ≤ b ∧ b ≤ 0xdf then some ⟨b.toNat - 0xc0, 0, 0x80, 0xbf⟩
  else if b = 0xe0 then some ⟨0, 1, 0xa0, 0xbf⟩
  else if b = 0xed then some ⟨0xd, 1, 0x80, 0x9f⟩
  else if 0xe1 ≤ b ∧ b ≤ 0xef then some ⟨b.toNat - 0xe0, 1, 0x80, 0xbf⟩
  else if b = 0xf0 then some ⟨0, 2, 0x90, 0xbf⟩
  else if 0xf1 ≤ b ∧ b ≤ 0xf3 then some ⟨b.toNat - 0xf0, 2, 0x80, 0xbf⟩
  else if b = 0xf4 then some ⟨4, 2, 0x80, 0x8f⟩
  else none

/-- A byte where no sequence is pending. -/
def begin (b : UInt8) : List Char × Option Pending :=
  if b < 0x80 then ([Char.ofNat b.toNat], none)
  else match lead? b with
    | some p => ([], some p)
    | none => ([replacement], none)

/-- One more byte: the characters it completes, and what is pending after it. -/
def step : Option Pending → UInt8 → List Char × Option Pending
  | none, b => begin b
  | some p, b =>
      if p.low ≤ b ∧ b ≤ p.high then
        let bits := p.bits * 64 + (b.toNat - 0x80)
        match p.more with
        | 0 => ([Char.ofNat bits], none)
        | more + 1 => ([], some ⟨bits, more, 0x80, 0xbf⟩)
      else
        let (cs, next) := begin b
        (replacement :: cs, next)

/-- What a sequence still pending at the end of the input is shown as. -/
def flush : Option Pending → List Char
  | none => []
  | some _ => [replacement]

/-- Decodes bytes that follow a pending sequence. -/
def decodeFrom (pending : Option Pending) : Bytes → List Char
  | [] => flush pending
  | b :: bs => (step pending b).1 ++ decodeFrom (step pending b).2 bs

/-- What is pending after some bytes. -/
def pendingAfter (pending : Option Pending) (bs : Bytes) : Option Pending :=
  bs.foldl (fun p b => (step p b).2) pending

/-- The characters completed by some bytes. -/
def emitted (pending : Option Pending) : Bytes → List Char
  | [] => []
  | b :: bs => (step pending b).1 ++ emitted (step pending b).2 bs

/-- The text of raw contents. -/
def decode (bs : Bytes) : List Char := decodeFrom none bs

@[simp] theorem decode_nil : decode [] = [] := rfl

/-- Decoding a concatenation goes on where decoding the first part has got to. -/
theorem decodeFrom_append (pending : Option Pending) (as bs : Bytes) :
    decodeFrom pending (as ++ bs) =
      emitted pending as ++ decodeFrom (pendingAfter pending as) bs := by
  induction as generalizing pending with
  | nil => rfl
  | cons a as ih => simp [decodeFrom, emitted, pendingAfter, ih]

end Utf8

end VhdlCatalog
