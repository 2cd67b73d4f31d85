/-
  Sets of characters given by ranges of code points.
-/

namespace ArithLang

/-- A range of code points, both ends included. -/
structure CharRange where
  first : Nat
  last : Nat

/-- Does `c` lie in one of the ranges? -/
def CharRange.any (ranges : List CharRange) (c : Char) : Bool :=
  ranges.any fun r => r.first ≤ c.toNat && c.toNat ≤ r.last

theorem CharRange.any_eq_true_iff {ranges : List CharRange} {c : Char} :
    CharRange.any ranges c = true ↔ ∃ r ∈ ranges, r.first ≤ c.toNat ∧ c.toNat ≤ r.last := by
  simp [CharRange.any]

end ArithLang
