/-!
**Sets of characters.**

A character class of the Unicode standard is a long list of code points that come in runs.  This
module keeps such a class as a list of closed ranges, which is how the tables of the other text
modules are written down.

Main definitions:

* `VhdlCatalog.CharSet` — a class given by its ranges;
* `VhdlCatalog.CharSet.contains` — membership.

Main results:

* `VhdlCatalog.CharSet.contains_iff` — a character is a member exactly when one of the ranges
  holds its code point.
-/

set_option relaxedAutoImplicit false
set_option autoImplicit false

namespace VhdlCatalog

/-- A set of characters, as a list of closed ranges of code points. -/
structure CharSet where
  /-- The ranges, first and last code point each. -/
  ranges : List (Nat × Nat)

namespace CharSet

/-- Some range of the set holds the code point of `c`. -/
def contains (s : CharSet) (c : Char) : Bool :=
  s.ranges.any fun r => decide (r.1 ≤ c.toNat) && decide (c.toNat ≤ r.2)

theorem contains_iff (s : CharSet) (c : Char) :
    s.contains c = true ↔ ∃ r ∈ s.ranges, r.1 ≤ c.toNat ∧ c.toNat ≤ r.2 := by
  simp [contains]

end CharSet

end VhdlCatalog
