/-
  Reading texts.

  The ways into the library: from a text to its words (`tokenize`), from words to a
  program (`parseTokens`), and both in one (`parse`, `parseStatement`,
  `parseStatements`). `read` and `readTokens` also give the notes taken on the way.
-/
import ArithLang.Stmt.Parser
import ArithLang.Token.Lexer

namespace ArithLang

/-- What came of reading, and the notes taken meanwhile. -/
structure Reading where
  result : Except ParseError Program
  log : List Record

/-- The notes as they are written out, oldest first. -/
def Reading.lines (r : Reading) : List (String × String) := r.log.map Record.line

/-- Reads a program from tokens. -/
def readTokens (tokens : List Token) (options : Options) : Reading :=
  match (Parser.program options.mode).run (.ofTokens tokens options) with
  | .ok p s => ⟨.ok p, s.log.toList⟩
  | .error e s => ⟨.error e, s.log.toList ++ [.failed e]⟩

/-- Reads a program from a text. A text that cannot be cut into words leaves no notes. -/
def read (source : String) (options : Options) : Reading :=
  match tokenize source with
  | .error e => ⟨.error e, []⟩
  | .ok tokens =>
      let r := readTokens tokens options
      { r with log := .tokenized tokens.length source.utf8ByteSize :: r.log }

/-- The program that some tokens make up. -/
def parseTokens (tokens : List Token) (options : Options) : Except ParseError Program :=
  (readTokens tokens options).result

/-- The program that a text makes up. -/
def parse (source : String) (options : Options) : Except ParseError Program :=
  (read source options).result

/-- The single statement that a text makes up. -/
def parseStatement (source : String) : Except ParseError Stmt := do
  let tokens ← tokenize source
  match Parser.onlyStmt.run (.ofTokens tokens {}) with
  | .ok st _ => return st
  | .error e _ => throw e

/-- The statements that a text makes up. -/
def parseStatements (source : String) : Except ParseError (List Stmt) :=
  (parse source { mode := .repeated }).map Program.body

end ArithLang
