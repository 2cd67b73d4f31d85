/-
  Reading expressions.

  An expression is read at a floor. It starts as the rule of the current token says, and
  then goes on as long as the current token binds at least as tightly as the floor.
  Starting and every going on is one level of nesting, given back when the expression is
  finished.

  The recursion is bounded by the levels that are left under the limit: `exprWithin room`
  reads with at most `room` of them, and `expr` gives it all that there are and one more,
  which can only be used to fail.
-/
import ArithLang.Expr
import ArithLang.Parser

namespace ArithLang.Parser

/-! ## The rules, over a way to read operands -/

/-- A number or an identifier. -/
def literal : Parser Expr := do
  match (← current).kind with
  | .number =>
      let t ← advance
      return .number t.text t.span
  | .identifier =>
      let t ← advance
      return .identifier t.text t.span
  | _ => fail "number or identifier"

/-- A sign and its operand. -/
def signedBy (expr : Level → Parser Expr) : Parser Expr := do
  match UnaryOp.ofKind? (← current).kind with
  | none => fail "`+` or `-`"
  | some op =>
      let sign ← advance
      let operand ← expr .unary
      return .unary op operand (.cover sign.span operand.span)

/-- An expression between parentheses. -/
def groupedBy (expr : Level → Parser Expr) : Parser Expr := do
  let opening ← expect .openParen
  let inner ← expr .lowest
  let closing ← expect .closeParen
  return .group inner (.cover opening.span closing.span)

/-- An operator and its right operand, behind the expression `left`. -/
def joinedBy (expr : Level → Parser Expr) (left : Expr) (binding : Binding) : Parser Expr := do
  match BinaryOp.ofKind? (← current).kind with
  | none => fail "binary operator"
  | some op =>
      let _ ← advance
      let right ← expr binding.operandFloor
      return .binary op left right (.cover left.span right.span)

/-- The start of an expression, by the rule of the current token. -/
def startBy (expr : Level → Parser Expr) : Parser Expr := do
  let s ← get
  match s.rules.start? s.stream.current.kind with
  | none => fail "expression"
  | some .literal => literal
  | some .sign => signedBy expr
  | some .group => groupedBy expr

/-- The rule and the binding by which an expression goes on at the current token, if that
    binds at least as tightly as `floor`. -/
def joinAt? (floor : Level) : Parser (Option (JoinRule × Binding)) := do
  let s ← get
  match s.rules.binding? s.stream.current.kind with
  | none => return none
  | some binding =>
      if binding.level < floor then return none
      else
        match s.rules.join? s.stream.current.kind with
        | none => fail "operator"
        | some rule => return some (rule, binding)

/-- What a rule makes of the expression `left` and the tokens behind it. -/
def joinBy (expr : Level → Parser Expr) (left : Expr) : JoinRule → Binding → Parser Expr
  | .binary, binding => joinedBy expr left binding

/-- Everything that goes on behind the expression `left` at a floor, with at most `room`
    further levels of nesting. -/
def climbBy (expr : Level → Parser Expr) (floor : Level) (room : Nat) (left : Expr) :
    Parser Expr := do
  match ← joinAt? floor with
  | none => return left
  | some (rule, binding) =>
      match room with
      | 0 => overLimit
      | room + 1 =>
          nested do
            let joined ← joinBy expr left rule binding
            climbBy expr floor room joined

/-! ## The recursion -/

/-- An expression at a floor, with at most `room` levels of nesting. -/
def exprWithin : (room : Nat) → (floor : Level) → Parser Expr
  | 0, _ => overLimit
  | room + 1, floor => do
      note (.expression floor (← current))
      nested do
        let left ← startBy (exprWithin room)
        climbBy (exprWithin room) floor room left

/-- An expression at a floor. -/
def expr (floor : Level) : Parser Expr := do
  let s ← get
  exprWithin (s.limit - s.depth + 1) floor

/-- A sign and its operand. -/
def signed : Parser Expr := signedBy expr

/-- An expression between parentheses. -/
def grouped : Parser Expr := groupedBy expr

/-- An operator and its right operand, behind the expression `left`. -/
def joined (left : Expr) (binding : Binding) : Parser Expr := joinedBy expr left binding

end ArithLang.Parser
