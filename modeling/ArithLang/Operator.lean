/-
  The operators of the language and the kinds of token that stand for them.
-/
import ArithLang.Token

namespace ArithLang

/-- The signs that stand in front of an operand. -/
inductive UnaryOp where
  | plus
  | minus
deriving DecidableEq

/-- The operators that stand between two operands. -/
inductive BinaryOp where
  | add
  | subtract
  | multiply
  | divide
  | power
deriving DecidableEq

namespace UnaryOp

/-- The kind of token that the sign is read from. -/
def kind : UnaryOp → Kind
  | plus => .plus
  | minus => .dash

/-- How the sign is written. -/
def symbol : UnaryOp → String
  | plus => "+"
  | minus => "-"

/-- The sign that a kind of token stands for. -/
def ofKind? : Kind → Option UnaryOp
  | .plus => some plus
  | .dash => some minus
  | _ => none

theorem ofKind?_eq_some_iff {k : Kind} {op : UnaryOp} : ofKind? k = some op ↔ k = op.kind := by
  cases k <;> cases op <;> simp [ofKind?, kind]

@[simp] theorem ofKind?_kind (op : UnaryOp) : ofKind? op.kind = some op :=
  ofKind?_eq_some_iff.2 rfl

theorem fixedText?_kind (op : UnaryOp) : op.kind.fixedText? = some op.symbol := by
  cases op <;> rfl

theorem ne_eof_of_ofKind? {k : Kind} {op : UnaryOp} (h : ofKind? k = some op) : k ≠ .eof := by
  rintro rfl
  cases h

end UnaryOp

namespace BinaryOp

/-- The kind of token that the operator is read from. -/
def kind : BinaryOp → Kind
  | add => .plus
  | subtract => .dash
  | multiply => .star
  | divide => .slash
  | power => .starStar

/-- How the operator is written. -/
def symbol : BinaryOp → String
  | add => "+"
  | subtract => "-"
  | multiply => "*"
  | divide => "/"
  | power => "**"

/-- The operator that a kind of token stands for. -/
def ofKind? : Kind → Option BinaryOp
  | .plus => some add
  | .dash => some subtract
  | .star => some multiply
  | .slash => some divide
  | .starStar => some power
  | _ => none

theorem ofKind?_eq_some_iff {k : Kind} {op : BinaryOp} : ofKind? k = some op ↔ k = op.kind := by
  cases k <;> cases op <;> simp [ofKind?, kind]

@[simp] theorem ofKind?_kind (op : BinaryOp) : ofKind? op.kind = some op :=
  ofKind?_eq_some_iff.2 rfl

theorem fixedText?_kind (op : BinaryOp) : op.kind.fixedText? = some op.symbol := by
  cases op <;> rfl

theorem ne_eof_of_ofKind? {k : Kind} {op : BinaryOp} (h : ofKind? k = some op) : k ≠ .eof := by
  rintro rfl
  cases h

end BinaryOp

end ArithLang
