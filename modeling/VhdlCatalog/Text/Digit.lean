import VhdlCatalog.Text.CharSet

/-!
**Decimal digits and written integers.**

A number on the command line may be written with the decimal digits of any script.

Main definitions:

* `VhdlCatalog.digitValue?` — the value of a decimal digit;
* `VhdlCatalog.Text.integer?` — the integer a text writes: white space around it, a sign, digits,
  and single underscores between digits.
-/

set_option relaxedAutoImplicit false
set_option autoImplicit false

namespace VhdlCatalog

/-- The decimal digits (Unicode 14).  Every range starts with a zero and goes up by tens. -/
def decimalDigits : CharSet where
  ranges :=
    [(0x30, 0x39), (0x660, 0x669), (0x6f0, 0x6f9), (0x7c0, 0x7c9), (0x966, 0x96f), (0x9e6, 0x9ef),
      (0xa66, 0xa6f), (0xae6, 0xaef), (0xb66, 0xb6f), (0xbe6, 0xbef), (0xc66, 0xc6f),
      (0xce6, 0xcef), (0xd66, 0xd6f), (0xde6, 0xdef), (0xe50, 0xe59), (0xed0, 0xed9),
      (0xf20, 0xf29), (0x1040, 0x1049), (0x1090, 0x1099), (0x17e0, 0x17e9), (0x1810, 0x1819),
      (0x1946, 0x194f), (0x19d0, 0x19d9), (0x1a80, 0x1a89), (0x1a90, 0x1a99), (0x1b50, 0x1b59),
      (0x1bb0, 0x1bb9), (0x1c40, 0x1c49), (0x1c50, 0x1c59), (0xa620, 0xa629), (0xa8d0, 0xa8d9),
      (0xa900, 0xa909), (0xa9d0, 0xa9d9), (0xa9f0, 0xa9f9), (0xaa50, 0xaa59), (0xabf0, 0xabf9),
      (0xff10, 0xff19), (0x104a0, 0x104a9), (0x10d30, 0x10d39), (0x11066, 0x1106f),
      (0x110f0, 0x110f9), (0x11136, 0x1113f), (0x111d0, 0x111d9), (0x112f0, 0x112f9),
      (0x11450, 0x11459), (0x114d0, 0x114d9), (0x11650, 0x11659), (0x116c0, 0x116c9),
      (0x11730, 0x11739), (0x118e0, 0x118e9), (0x11950, 0x11959), (0x11c50, 0x11c59),
      (0x11d50, 0x11d59), (0x11da0, 0x11da9), (0x16a60, 0x16a69), (0x16ac0, 0x16ac9),
      (0x16b50, 0x16b59), (0x1d7ce, 0x1d7ff), (0x1e140, 0x1e149), (0x1e2f0, 0x1e2f9),
      (0x1e950, 0x1e959), (0x1fbf0, 0x1fbf9)]

/-- The value of a decimal digit. -/
def digitValue? (c : Char) : Option Nat :=
  (decimalDigits.ranges.find? fun r => decide (r.1 ≤ c.toNat) && decide (c.toNat ≤ r.2)).map
    fun r => (c.toNat - r.1) % 10

/-- `c` is a decimal digit. -/
def isDecimal (c : Char) : Bool := decimalDigits.contains c

/-- The white space allowed around a number. -/
def isNumberBlank (c : Char) : Bool :=
  if c.toNat < 0x80 then c == ' ' || (decide (9 ≤ c.toNat) && decide (c.toNat ≤ 13))
  else CharSet.contains ⟨[(0x85, 0x85), (0xa0, 0xa0), (0x1680, 0x1680), (0x2000, 0x200a),
    (0x2028, 0x2029), (0x202f, 0x202f), (0x205f, 0x205f), (0x3000, 0x3000)]⟩ c

namespace Text

/-- The most digits a written integer may have. -/
def digitLimit : Nat := 4300

/-- Reads digits with single underscores between them, after the digits `read` (last one first). -/
def digitsAfter? (read : List Nat) : List Char → Option (List Nat)
  | [] => some read
  | '_' :: c :: cs => do digitsAfter? ((← digitValue? c) :: read) cs
  | c :: cs => do digitsAfter? ((← digitValue? c) :: read) cs

/-- The digits of an unsigned integer, last one first. -/
def digits? : List Char → Option (List Nat)
  | [] => none
  | c :: cs => do digitsAfter? [← digitValue? c] cs

/-- The number whose decimal digits are given last one first. -/
def ofDigits : List Nat → Nat
  | [] => 0
  | d :: ds => d + 10 * ofDigits ds

/-- The natural number an unsigned text writes. -/
def natural? (cs : List Char) : Option Nat := do
  let ds ← digits? cs
  if ds.length ≤ digitLimit then some (ofDigits ds) else none

/-- The integer a text writes. -/
def integer? (cs : List Char) : Option Int :=
  let body := (((cs.dropWhile isNumberBlank).reverse).dropWhile isNumberBlank).reverse
  match body with
  | '+' :: rest => (natural? rest).map Int.ofNat
  | '-' :: rest => (natural? rest).map fun n => -Int.ofNat n
  | rest => (natural? rest).map Int.ofNat

end Text

end VhdlCatalog
