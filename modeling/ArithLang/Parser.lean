/-
  Steps of reading tokens.

  A `Parser` is a step from a `State` to a result and a new `State`. A step that fails
  leaves a state as well: the stream and the depth stay where the failure met them.
-/
import ArithLang.Log
import ArithLang.Rules
import ArithLang.Token.Stream

namespace ArithLang

/-- Everything that reading tokens depends on and changes. -/
structure State where
  stream : Stream
  /-- The nesting of expressions at the moment. -/
  depth : Nat
  /-- The deepest nesting allowed. -/
  limit : Nat
  rules : Rules
  /-- The notes taken so far, oldest first. -/
  log : Array Record

namespace State

/-- In front of some tokens, with the rules of the language. -/
def ofTokens (tokens : List Token) (options : Options) : State where
  stream := .ofList tokens
  depth := 0
  limit := options.maxDepth
  rules := .standard options.powers
  log := #[]

/-- Where the current token starts. -/
def position (s : State) : Nat := s.stream.current.span.start

/-- The error of finding the current token where `expected` has to stand. -/
def unexpected (expected : String) (s : State) : ParseError where
  cause :=
    if s.stream.current.kind = .eof then .unexpectedEnd expected
    else .unexpectedToken expected s.stream.current.text
  position := s.position

end State

/-- A step of reading tokens. -/
abbrev Parser := EStateM ParseError State

namespace Parser

/-- The current token. -/
def current : Parser Token := return (← get).stream.current

/-- The kind of the token `n` places behind the current one, for any number `n`, be it too large
    for a machine word. -/
def peek (n : Nat) : Parser Kind := return (← get).stream.peek n

/-- Is the current token an end mark? -/
def atEnd : Parser Bool := return (← get).stream.current.kind = .eof

/-- Takes the current token, whatever it is. -/
def advance : Parser Token :=
  modifyGet fun s => (s.stream.current, { s with stream := s.stream.next })

/-- Fails because the current token is not `expected`. -/
def fail {α : Type} (expected : String) : Parser α := do throw ((← get).unexpected expected)

/-- Takes the current token if it is of the given kind. -/
def expect (kind : Kind) : Parser Token := do
  if (← current).kind = kind then advance else fail kind.describe

/-- Takes a note. -/
def note (record : Record) : Parser Unit :=
  modify fun s => { s with log := s.log.push record }

/-! ## Nesting -/

/-- Fails because nothing may be nested here any more. -/
def overLimit {α : Type} : Parser α := do
  let s ← get
  throw ⟨.tooComplex s.limit, s.position⟩

/-- Goes one level down, which fails below the limit. The depth is raised even then. -/
def enter : Parser Unit := do
  modify fun s => { s with depth := s.depth + 1 }
  let s ← get
  if s.limit < s.depth then overLimit

/-- Comes one level up. -/
def leave : Parser Unit := modify fun s => { s with depth := s.depth - 1 }

/-- A step one level further down. -/
def nested {α : Type} (p : Parser α) : Parser α := do
  enter
  let a ← p
  leave
  return a

/-! ## Rules -/

/-- Makes `rule` the way expressions start at `kind`. -/
def setStart (kind : Kind) (rule : StartRule) : Parser Unit :=
  modify fun s => { s with rules := s.rules.setStart kind rule }

/-- Makes `rule` the way expressions go on at `kind`, binding as `binding`. -/
def setJoin (kind : Kind) (binding : Binding) (rule : JoinRule) : Parser Unit :=
  modify fun s => { s with rules := s.rules.setJoin kind binding rule }

/-! ## What the steps do

  Reading the current token and moving on behind it never fail; `fail` and `overLimit`
  leave everything as it is; `enter` fails exactly when the limit is reached. -/

theorem current_run (s : State) : current s = .ok s.stream.current s := rfl

theorem peek_run (n : Nat) (s : State) : peek n s = .ok (s.stream.peek n) s := rfl

theorem atEnd_run (s : State) : atEnd s = .ok (decide (s.stream.current.kind = .eof)) s := rfl

theorem advance_run (s : State) :
    advance s = .ok s.stream.current { s with stream := s.stream.next } := rfl

theorem fail_run {α : Type} (expected : String) (s : State) :
    (fail expected : Parser α) s = .error (s.unexpected expected) s := rfl

theorem note_run (r : Record) (s : State) : note r s = .ok () { s with log := s.log.push r } := rfl

theorem overLimit_run {α : Type} (s : State) :
    (overLimit : Parser α) s = .error ⟨.tooComplex s.limit, s.position⟩ s := rfl

theorem leave_run (s : State) : leave s = .ok () { s with depth := s.depth - 1 } := rfl

theorem expect_run (kind : Kind) (s : State) :
    expect kind s =
      (if s.stream.current.kind = kind then advance else fail kind.describe : Parser Token) s := rfl

theorem expect_run_of_kind {kind : Kind} {s : State} (h : s.stream.current.kind = kind) :
    expect kind s = .ok s.stream.current { s with stream := s.stream.next } := by
  rw [expect_run, if_pos h, advance_run]

theorem expect_run_of_ne {kind : Kind} {s : State} (h : s.stream.current.kind ≠ kind) :
    expect kind s = .error (s.unexpected kind.describe) s := by
  rw [expect_run, if_neg h, fail_run]

theorem enter_run (s : State) :
    enter s =
      (if s.limit < s.depth + 1 then overLimit else pure () : Parser Unit)
        { s with depth := s.depth + 1 } := rfl

theorem enter_run_of_lt {s : State} (h : s.depth < s.limit) :
    enter s = .ok () { s with depth := s.depth + 1 } := by
  rw [enter_run, if_neg (Nat.not_lt.2 h)]
  rfl

theorem enter_run_of_le {s : State} (h : s.limit ≤ s.depth) :
    enter s = .error ⟨.tooComplex s.limit, s.position⟩ { s with depth := s.depth + 1 } := by
  rw [enter_run, if_pos (Nat.lt_succ_of_le h), overLimit_run]
  rfl

end Parser

end ArithLang
