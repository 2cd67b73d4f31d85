/-
  How tightly operators bind.

  A `Level` is a floor as well as a strength: reading an expression at a floor takes in
  the operators that bind at least as tightly. A `Binding` gives an operator its level
  and says which way chains of it group, which fixes the floor for its right operand.
-/
import ArithLang.Operator

namespace ArithLang

/-- Strengths of binding, weakest first. -/
inductive Level where
  | lowest
  | additive
  | multiplicative
  | exponent
  | unary
deriving DecidableEq

namespace Level

/-- The level's place in the order, from zero. -/
def rank : Level → Nat
  | lowest => 0
  | additive => 1
  | multiplicative => 2
  | exponent => 3
  | unary => 4

/-- The level's name in listings. -/
def name : Level → String
  | lowest => "Default"
  | additive => "Additive"
  | multiplicative => "Multiplicative"
  | exponent => "Exponent"
  | unary => "Unary"

/-- The next tighter level; nothing is tighter than `unary`. -/
def next : Level → Level
  | lowest => additive
  | additive => multiplicative
  | multiplicative => exponent
  | exponent => unary
  | unary => unary

instance : LE Level := ⟨fun a b => a.rank ≤ b.rank⟩

instance : LT Level := ⟨fun a b => a.rank < b.rank⟩

instance (a b : Level) : Decidable (a ≤ b) := inferInstanceAs (Decidable (a.rank ≤ b.rank))

instance (a b : Level) : Decidable (a < b) := inferInstanceAs (Decidable (a.rank < b.rank))

theorem le_def {a b : Level} : a ≤ b ↔ a.rank ≤ b.rank := Iff.rfl

theorem lt_def {a b : Level} : a < b ↔ a.rank < b.rank := Iff.rfl

theorem rank_inj {a b : Level} : a.rank = b.rank ↔ a = b := by
  cases a <;> cases b <;> simp [rank]

/-- The order in which `a` and `b` stand. -/
def order (a b : Level) : Ordering := compare a.rank b.rank

theorem lowest_le (a : Level) : lowest ≤ a := Nat.zero_le _

theorem le_trans {a b c : Level} (h : a ≤ b) (h' : b ≤ c) : a ≤ c := Nat.le_trans h h'

theorem lt_of_lt_of_le {a b c : Level} (h : a < b) (h' : b ≤ c) : a < c :=
  Nat.lt_of_lt_of_le h h'

theorem not_lt {a b : Level} : ¬ a < b ↔ b ≤ a := Nat.not_lt

theorem le_next (a : Level) : a ≤ a.next := by cases a <;> decide

/-- Below `unary`, what binds tighter than a level is what reaches the next one. -/
theorem next_le_iff {a b : Level} (h : a ≠ unary) : a.next ≤ b ↔ a < b := by
  cases a <;> cases b <;> simp_all [next, le_def, lt_def, rank]

end Level

/-- Which way a chain of one operator groups. -/
inductive Associativity where
  | left
  | right
deriving DecidableEq

/-- An operator's level and the grouping of its chains. -/
structure Binding where
  level : Level
  associativity : Associativity
deriving DecidableEq

/-- The floor for the right operand: chains that group to the left leave their own
    level out of it. -/
def Binding.operandFloor (b : Binding) : Level :=
  match b.associativity with
  | .left => b.level.next
  | .right => b.level

theorem Level.le_of_lt_next {a b : Level} (h : a < b.next) : a ≤ b := by
  cases a <;> cases b <;> simp_all [next, le_def, lt_def, rank]

theorem Binding.level_le_operandFloor (b : Binding) : b.level ≤ b.operandFloor := by
  obtain ⟨level, associativity⟩ := b
  cases associativity
  · exact level.le_next
  · exact Nat.le_refl _

/-- What stays below the floor for the right operand binds no tighter than the operator. -/
theorem Binding.le_level_of_lt_operandFloor {b : Binding} {a : Level} (h : a < b.operandFloor) :
    a ≤ b.level := by
  obtain ⟨level, associativity⟩ := b
  cases associativity
  · exact Level.le_of_lt_next h
  · exact Nat.le_of_lt h

/-- How the operators of the language bind when powers group as `powers` says. -/
def BinaryOp.binding (powers : Associativity) : BinaryOp → Binding
  | .add | .subtract => ⟨.additive, .left⟩
  | .multiply | .divide => ⟨.multiplicative, .left⟩
  | .power => ⟨.exponent, powers⟩

/-- No operator of the language binds as tightly as a sign. -/
theorem BinaryOp.binding_level_lt_unary (powers : Associativity) (op : BinaryOp) :
    (op.binding powers).level < .unary := by
  cases powers <;> cases op <;> decide

end ArithLang
