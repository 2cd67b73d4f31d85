/-
  Reading statements.

  An identifier with `=` behind it starts an assignment; anything else is an expression.
  The value of an assignment is an expression, never an assignment again.
-/
import ArithLang.Expr.Parser
import ArithLang.Stmt

namespace ArithLang.Parser

/-- A name, `=`, and the value that the name is given. -/
def assignment : Parser Stmt := do
  let target ← expect .identifier
  let _ ← expect .assignment
  let value ← expr .lowest
  return .assignment target.text target.span value (.cover target.span value.span)

/-- A statement. -/
def stmt : Parser Stmt := do
  let next ← current
  note (.statement next)
  if next.kind = .identifier ∧ (← peek 1) = .assignment then
    assignment
  else
    let e ← expr .lowest
    return .expression e e.span

/-- A statement with nothing behind it. -/
def onlyStmt : Parser Stmt := do
  let st ← stmt
  if ← atEnd then return st else fail Kind.eof.describe

/-- Statements up to the end mark, at most `room` of them. -/
def stmtsWithin : (room : Nat) → Parser (List Stmt)
  | 0 => return []
  | room + 1 => do
      if ← atEnd then return []
      let st ← stmt
      let sts ← stmtsWithin room
      return st :: sts

/-- Statements up to the end mark. Each one uses up a token, so there are no more of them
    than pending tokens. -/
def stmts : Parser (List Stmt) := do
  let s ← get
  stmtsWithin s.stream.pending.length

/-- The statements of an input. -/
def body : Mode → Parser (List Stmt)
  | .single => return [← onlyStmt]
  | .repeated => stmts

/-- A whole program, from offset zero to the start of the end mark. -/
def program (mode : Mode) : Parser Program := do
  let sts ← body mode
  let s ← get
  return ⟨sts, ⟨0, s.position⟩⟩

end ArithLang.Parser
