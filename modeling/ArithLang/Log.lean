/-
  What is noted down while a text is read.
-/
import ArithLang.Level
import ArithLang.ParseError

namespace ArithLang

/-- How much detail a note is. -/
inductive Severity where
  | debug
  | trace
deriving DecidableEq

/-- The severity's name in a log. -/
def Severity.name : Severity → String
  | debug => "DEBUG"
  | trace => "TRACE"

/-- A note about reading a text. -/
inductive Record where
  /-- A text of some bytes was cut into some tokens, the last one included. -/
  | tokenized (count bytes : Nat)
  /-- A statement is about to be read. -/
  | statement (next : Token)
  /-- An expression is about to be read at a floor. -/
  | expression (floor : Level) (next : Token)
  /-- The tokens could not be read. -/
  | failed (error : ParseError)
deriving DecidableEq

namespace Record

/-- How much detail the note is. -/
def severity : Record → Severity
  | tokenized _ _ => .debug
  | statement _ => .trace
  | expression _ _ => .trace
  | failed _ => .debug

/-- The note in words. -/
def message : Record → String
  | tokenized count bytes =>
      "tokenized " ++ toString count ++ " tokens from " ++ toString bytes ++ " bytes"
  | statement next => "parse_stmt: next token = " ++ next.render
  | expression floor next => "parse_expr(" ++ floor.name ++ "): next token = " ++ next.render
  | failed error => "parse failed: " ++ error.message

/-- The note as it is written out: the name of its severity and its words. -/
def line (r : Record) : String × String := (r.severity.name, r.message)

end Record

end ArithLang
