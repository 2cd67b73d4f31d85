/-
  What a kind of token means to whoever reads expressions.

  `Rules` are three tables over the kinds: how an expression starts there, how a finished
  expression goes on there, and how tightly that binds. The tables are open: any kind
  may be given any rule.
-/
import ArithLang.Options

namespace ArithLang

/-- The ways an expression starts. -/
inductive StartRule where
  /-- A number or an identifier. -/
  | literal
  /-- A sign and its operand. -/
  | sign
  /-- An expression between parentheses. -/
  | group
deriving DecidableEq

/-- The ways a finished expression goes on. -/
inductive JoinRule where
  /-- An operator and its right operand. -/
  | binary
deriving DecidableEq

/-- The tables that reading an expression goes by. -/
structure Rules where
  start? : Kind → Option StartRule
  join? : Kind → Option JoinRule
  binding? : Kind → Option Binding

namespace Rules

/-- The rules with `rule` as the way expressions start at `kind`. -/
def setStart (kind : Kind) (rule : StartRule) (r : Rules) : Rules :=
  { r with start? := fun k => if k = kind then some rule else r.start? k }

/-- The rules with `rule` as the way expressions go on at `kind`, binding as
    `binding`. -/
def setJoin (kind : Kind) (binding : Binding) (rule : JoinRule) (r : Rules) : Rules :=
  { r with
    join? := fun k => if k = kind then some rule else r.join? k
    binding? := fun k => if k = kind then some binding else r.binding? k }

/-- The rules of the language when powers group as `powers` says. -/
def standard (powers : Associativity) : Rules where
  start?
    | .number | .identifier => some .literal
    | .plus | .dash => some .sign
    | .openParen => some .group
    | _ => none
  join? k := (BinaryOp.ofKind? k).map fun _ => .binary
  binding? k := (BinaryOp.ofKind? k).map (·.binding powers)

end Rules

end ArithLang
