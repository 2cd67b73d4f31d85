/-
  Whole numbers in decimal digits, as far as they fit into 64 bits.

  A reading may start with one `+` and has at least one digit after it; leading zeros
  do not matter.
-/

namespace ArithLang

/-- The value of a decimal digit. -/
def digitValue? (c : Char) : Option Nat :=
  if '0' ≤ c ∧ c ≤ '9' then some (c.toNat - '0'.toNat) else none

/-- The number that results when `c` is written behind the number `n`. -/
def appendDigit? (n : UInt64) (c : Char) : Option UInt64 := do
  let d ← digitValue? c
  let m := n.toNat * 10 + d
  if m < UInt64.size then some (UInt64.ofNat m) else none

/-- The number that a text of digits stands for. -/
def readDigits? : List Char → Option UInt64
  | [] => none
  | cs => cs.foldlM appendDigit? 0

/-- The number that a text stands for: digits, perhaps behind a `+`. -/
def readNumber? : List Char → Option UInt64
  | '+' :: cs => readDigits? cs
  | cs => readDigits? cs

end ArithLang
