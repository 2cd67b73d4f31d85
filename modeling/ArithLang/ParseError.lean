/-
  Why an input is refused, and where.

  A `ParseError` is a cause and the byte offset it was found at. The causes carry what
  a message needs; all wording is in `Cause.message` and `Cause.tip?`.
-/
import ArithLang.Text.Escape

namespace ArithLang

/-- What is wrong with an input. -/
inductive Cause where
  /-- A character that starts no word. -/
  | invalidCharacter (character : Char)
  /-- A comment that is opened and never closed. -/
  | unterminatedComment
  /-- A word where something else has to stand. -/
  | unexpectedToken (expected found : String)
  /-- The end where something has to stand. -/
  | unexpectedEnd (expected : String)
  /-- More nesting than `limit`. -/
  | tooComplex (limit : Nat)
deriving DecidableEq

namespace Cause

/-- A one-word name for the sort of cause. -/
def name : Cause → String
  | invalidCharacter _ => "InvalidCharacter"
  | unterminatedComment => "UnterminatedComment"
  | unexpectedToken _ _ => "UnexpectedToken"
  | unexpectedEnd _ => "UnexpectedEndOfInput"
  | tooComplex _ => "InputTooComplex"

/-- What is wrong, in a phrase. -/
def message : Cause → String
  | invalidCharacter c => "invalid character: " ++ quoteChar c
  | unterminatedComment => "unterminated comment"
  | unexpectedToken expected found =>
      "unexpected token: expected " ++ expected ++ ", found " ++ quoteText found
  | unexpectedEnd expected => "unexpected end of input: expected " ++ expected
  | tooComplex limit => "input too complex: nesting exceeds " ++ toString limit

/-- A hint for whoever wrote the input. There is none for an open comment. -/
def tip? : Cause → Option String
  | invalidCharacter c => some ("Character `" ++ asciiEscape c ++ "` is not part of the language")
  | unterminatedComment => none
  | unexpectedToken expected found =>
      some ("Expected " ++ expected ++ ", found `" ++ found ++ "`")
  | unexpectedEnd expected => some ("Expected " ++ expected ++ " before the end of input")
  | tooComplex limit =>
      some ("Expression nests deeper than the limit of " ++ toString limit)

end Cause

/-- A cause and the byte offset where it was found. -/
structure ParseError where
  cause : Cause
  position : Nat
deriving DecidableEq

namespace ParseError

/-- What is wrong and where, in a phrase. -/
def message (e : ParseError) : String :=
  e.cause.message ++ " at position " ++ toString e.position

/-- The same cause, found `n` bytes further on. -/
def shift (n : Nat) (e : ParseError) : ParseError := { e with position := e.position + n }

@[simp] theorem cause_shift (n : Nat) (e : ParseError) : (e.shift n).cause = e.cause := rfl

@[simp] theorem position_shift (n : Nat) (e : ParseError) :
    (e.shift n).position = e.position + n := rfl

end ParseError

/-- Results can be compared when values and errors can. -/
instance decidableEqResult {ε α : Type} [DecidableEq ε] [DecidableEq α] :
    DecidableEq (Except ε α)
  | .ok a, .ok b => decidable_of_iff (a = b) (by simp)
  | .error a, .error b => decidable_of_iff (a = b) (by simp)
  | .ok _, .error _ => isFalse (by simp)
  | .error _, .ok _ => isFalse (by simp)

end ArithLang
