/-
  Statements and programs.
-/
import ArithLang.Expr

namespace ArithLang

/-- A statement: a name is given a value, or an expression stands alone. -/
inductive Stmt where
  | assignment (target : String) (targetSpan : Span) (value : Expr) (span : Span)
  | expression (e : Expr) (span : Span)
deriving DecidableEq

namespace Stmt

/-- Where the statement stood. -/
def span : Stmt → Span
  | assignment _ _ _ s => s
  | expression _ s => s

/-- The name of the grammar rule that the statement comes from. -/
def ruleName : Stmt → String
  | assignment _ _ _ _ => "assignment"
  | expression e _ => e.ruleName

/-- The expression of the statement, in an assignment the value. -/
def expr : Stmt → Expr
  | assignment _ _ value _ => value
  | expression e _ => e

/-- The name that is given a value, and where it stood. -/
def target? : Stmt → Option (String × Span)
  | assignment target s _ _ => some (target, s)
  | expression _ _ => none

/-- The statement as a text of the language. -/
def render : Stmt → String
  | assignment target _ value _ => target ++ " = " ++ value.render
  | expression e _ => e.render

/-- The shape of the statement, operators in front. -/
def sexp : Stmt → String
  | assignment target _ value _ => "(= " ++ target ++ " " ++ value.sexp ++ ")"
  | expression e _ => e.sexp

/-- The statement with `f` applied to every span. -/
def mapSpan (f : Span → Span) : Stmt → Stmt
  | assignment target ts value s => assignment target (f ts) (value.mapSpan f) (f s)
  | expression e s => expression (e.mapSpan f) (f s)

@[simp] theorem span_mapSpan (f : Span → Span) (st : Stmt) : (st.mapSpan f).span = f st.span := by
  cases st <;> rfl

@[simp] theorem render_mapSpan (f : Span → Span) (st : Stmt) :
    (st.mapSpan f).render = st.render := by
  cases st <;> simp [mapSpan, render]

@[simp] theorem sexp_mapSpan (f : Span → Span) (st : Stmt) : (st.mapSpan f).sexp = st.sexp := by
  cases st <;> simp [mapSpan, sexp]

end Stmt

/-- Statements in the order of their text, and the span of the whole text. -/
structure Program where
  body : List Stmt
  span : Span
deriving DecidableEq

namespace Program

/-- The program as a text of the language, a statement a line. -/
def render (p : Program) : String := "\n".intercalate (p.body.map Stmt.render)

/-- The shapes of the statements. -/
def sexps (p : Program) : List String := p.body.map Stmt.sexp

end Program

end ArithLang
