/-
  What can be chosen for reading a text.
-/
import ArithLang.Level

namespace ArithLang

/-- How many statements an input holds: exactly one, or any number one after the
    other. -/
inductive Mode where
  | single
  | repeated
deriving DecidableEq

/-- The choices for reading a text. -/
structure Options where
  mode : Mode := .single
  /-- The deepest nesting of expressions that is read. -/
  maxDepth : Nat := 256
  /-- The way chains of `**` group. -/
  powers : Associativity := .left
deriving DecidableEq

end ArithLang
