/-
  The words of the language.

  A `Token` is a kind, the text it was read from and where that text stood. Kinds
  that are always written the same way have a `fixedText?`.
-/
import ArithLang.Span

namespace ArithLang

/-- What sort of word a token is. `eof` marks the end of the input. -/
inductive Kind where
  | eof
  | number
  | identifier
  | openParen
  | closeParen
  | assignment
  | plus
  | dash
  | star
  | starStar
  | slash
deriving DecidableEq

namespace Kind

/-- Every kind. -/
def all : List Kind :=
  [eof, number, identifier, openParen, closeParen, assignment, plus, dash, star, starStar, slash]

theorem mem_all (k : Kind) : k ∈ all := by cases k <;> decide

/-- The kind's name in listings. -/
def name : Kind → String
  | eof => "EOF"
  | number => "Number"
  | identifier => "Identifier"
  | openParen => "OpenParen"
  | closeParen => "CloseParen"
  | assignment => "Assignment"
  | plus => "Plus"
  | dash => "Dash"
  | star => "Star"
  | starStar => "StarStar"
  | slash => "Slash"

/-- How the kind is written, when there is only one way. -/
def fixedText? : Kind → Option String
  | eof => none
  | number => none
  | identifier => none
  | openParen => some "("
  | closeParen => some ")"
  | assignment => some "="
  | plus => some "+"
  | dash => some "-"
  | star => some "*"
  | starStar => some "**"
  | slash => some "/"

/-- The kind as messages put it: a fixed text between backticks, or words. -/
def describe : Kind → String
  | eof => "end of input"
  | number => "number"
  | identifier => "identifier"
  | openParen => "`(`"
  | closeParen => "`)`"
  | assignment => "`=`"
  | plus => "`+`"
  | dash => "`-`"
  | star => "`*`"
  | starStar => "`**`"
  | slash => "`/`"

theorem describe_of_fixedText? {k : Kind} {t : String} (h : k.fixedText? = some t) :
    k.describe = "`" ++ t ++ "`" := by
  cases k <;> simp [fixedText?] at h <;> subst h <;> decide

end Kind

/-- A word of the input: its kind, its text and where it stood. -/
structure Token where
  kind : Kind
  text : String
  span : Span
deriving DecidableEq

namespace Token

/-- The token that closes an input at `offset`. -/
def eof (offset : Nat) : Token := ⟨.eof, "EOF", .point offset⟩

/-- A token in a listing: numbers and identifiers show their text. -/
def render (t : Token) : String :=
  match t.kind with
  | .number | .identifier => t.kind.name ++ " (" ++ t.text ++ ")"
  | k => k.name

@[simp] theorem kind_eof (offset : Nat) : (eof offset).kind = .eof := rfl

@[simp] theorem span_eof (offset : Nat) : (eof offset).span = .point offset := rfl

end Token

end ArithLang
