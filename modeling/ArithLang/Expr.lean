/-
  Expressions.

  An expression keeps the parentheses of its text and the span of every node. It can
  be written out again (`render`), shown by its shape alone (`sexp`), and walked by
  the labels of its parts (`field?`, `outline`).
-/
import ArithLang.Operator
import ArithLang.Text.Decimal

namespace ArithLang

/-- An expression. Numbers and identifiers are kept as written. -/
inductive Expr where
  | number (text : String) (span : Span)
  | identifier (text : String) (span : Span)
  | unary (op : UnaryOp) (operand : Expr) (span : Span)
  | binary (op : BinaryOp) (left right : Expr) (span : Span)
  | group (inner : Expr) (span : Span)
deriving DecidableEq

namespace Expr

/-- Where the expression stood. -/
def span : Expr → Span
  | number _ s => s
  | identifier _ s => s
  | unary _ _ s => s
  | binary _ _ _ s => s
  | group _ s => s

/-- The name of the grammar rule that the expression comes from. -/
def ruleName : Expr → String
  | number _ _ => "number"
  | identifier _ _ => "identifier"
  | unary _ _ _ => "unary_expression"
  | binary _ _ _ _ => "binary_expression"
  | group _ _ => "parentheses_expression"

/-- How the operator of the expression is written, if it has one. -/
def symbol? : Expr → Option String
  | unary op _ _ => some op.symbol
  | binary op _ _ _ => some op.symbol
  | _ => none

/-- The text of a number or an identifier. -/
def literal? : Expr → Option String
  | number text _ => some text
  | identifier text _ => some text
  | _ => none

/-- The value of a number that fits into 64 bits. -/
def value? : Expr → Option UInt64
  | number text _ => readNumber? text.toList
  | _ => none

/-! ## Parts -/

/-- The parts of the expression with their labels, in the order of the text. -/
def parts : Expr → List (String × Expr)
  | number _ _ => []
  | identifier _ _ => []
  | unary _ operand _ => [("expr", operand)]
  | binary _ left right _ => [("lhs", left), ("rhs", right)]
  | group inner _ => [("expr", inner)]

/-- The part with the given label. -/
def field? (label : String) (e : Expr) : Option Expr := e.parts.lookup label

/-- The part that a path of labels leads to. -/
def follow? (path : List String) (e : Expr) : Option Expr := path.foldlM (fun e l => e.field? l) e

/-- A node in a listing of an expression: how deep it is and how it is labelled in
    its parent. -/
structure Entry where
  depth : Nat
  label : String
  node : Expr

/-- All nodes of an expression in front of `later`, each one before its parts. -/
def outlineOnto (depth : Nat) (label : String) (e : Expr) (later : List Entry) : List Entry :=
  ⟨depth, label, e⟩ ::
    match e with
    | number _ _ => later
    | identifier _ _ => later
    | unary _ operand _ => operand.outlineOnto (depth + 1) "expr" later
    | binary _ left right _ =>
        left.outlineOnto (depth + 1) "lhs" (right.outlineOnto (depth + 1) "rhs" later)
    | group inner _ => inner.outlineOnto (depth + 1) "expr" later

/-- All nodes of an expression, each one before its parts. -/
def outline (e : Expr) : List Entry := e.outlineOnto 0 "root" []

/-! ## Writing -/

/-- The expression as a text of the language: signs touch their operand, other
    operators stand between two spaces. -/
def render : Expr → String
  | number text _ => text
  | identifier text _ => text
  | unary op operand _ => op.symbol ++ operand.render
  | binary op left right _ => left.render ++ " " ++ op.symbol ++ " " ++ right.render
  | group inner _ => "(" ++ inner.render ++ ")"

/-- The shape of the expression, operators in front. -/
def sexp : Expr → String
  | number text _ => text
  | identifier text _ => text
  | unary op operand _ => "(" ++ op.symbol ++ " " ++ operand.sexp ++ ")"
  | binary op left right _ =>
      "(" ++ op.symbol ++ " " ++ left.sexp ++ " " ++ right.sexp ++ ")"
  | group inner _ => "(group " ++ inner.sexp ++ ")"

/-! ## Spans put aside -/

/-- The expression with `f` applied to every span. -/
def mapSpan (f : Span → Span) : Expr → Expr
  | number text s => number text (f s)
  | identifier text s => identifier text (f s)
  | unary op operand s => unary op (operand.mapSpan f) (f s)
  | binary op left right s => binary op (left.mapSpan f) (right.mapSpan f) (f s)
  | group inner s => group (inner.mapSpan f) (f s)

@[simp] theorem span_mapSpan (f : Span → Span) (e : Expr) : (e.mapSpan f).span = f e.span := by
  cases e <;> rfl

@[simp] theorem render_mapSpan (f : Span → Span) (e : Expr) : (e.mapSpan f).render = e.render := by
  induction e <;> simp_all [mapSpan, render]

@[simp] theorem sexp_mapSpan (f : Span → Span) (e : Expr) : (e.mapSpan f).sexp = e.sexp := by
  induction e <;> simp_all [mapSpan, sexp]

end Expr

end ArithLang
