/-
  Tokens read by index.

  A `Stream` has a current token wherever it stands. A list has one only at the indices inside it,
  and whoever goes by index could look outside. To see that nobody does, the parsers are written
  once more as `Reader`s, over a list and an index. `Reader.look` fails outside the list, and with
  it the whole reading, for no error of the text.

  `Mirrors` relates a reader to a parser: where the list from the index on is the stream, the two do
  the same, and what makes the reader fail is an error of the text. It is closed under all that
  the parsers are built from. So a program is read by index as it is from a stream
  (`readByIndex?_eq`): there is a token at the index whenever one is looked at. The same goes for
  any session (`sessionByIndex_shows`): the list stays what it was, and the index inside it is the
  cursor of the stream.
-/
import ArithLang.Proofs.Session
import ArithLang.Reading

namespace ArithLang

/-- As `State`, with all the tokens in a list and the index of the current one. Nothing keeps the
    index inside the list. -/
structure IndexState where
  tokens : List Token
  index : Nat
  depth : Nat
  limit : Nat
  rules : Rules
  log : Array Record

/-- In front of the first token, with an end mark behind the tokens unless they have one. -/
def IndexState.ofTokens (tokens : List Token) (options : Options) : IndexState where
  tokens := closed tokens
  index := 0
  depth := 0
  limit := options.maxDepth
  rules := .standard options.powers
  log := #[]

/-- A step of reading tokens by index. It fails without an error where it looks outside the list. -/
abbrev Reader := EStateM (Option ParseError) IndexState

namespace Reader

/-! ## Steps -/

/-- The token at the index, if there is one. -/
def look : Reader Token := do
  let s ← get
  match s.tokens[s.index]? with
  | none => throw none
  | some t => return t

/-- The kind of the token `n` places further on, `eof` past the end of the list. The index and `n`
    are numbers of any size, so their sum cannot wrap around as one of machine words would. -/
def peek (n : Nat) : Reader Kind := do
  let s ← get
  return (s.tokens[s.index + n]?.map Token.kind).getD .eof

/-- Is the current token an end mark? -/
def atEnd : Reader Bool := return (← look).kind = .eof

/-- Takes the current token. The index never moves on from the last one. -/
def advance : Reader Token := do
  let t ← look
  modify fun s => if s.index + 1 < s.tokens.length then { s with index := s.index + 1 } else s
  return t

/-- The error of finding the current token where `expected` has to stand. -/
def unexpected (expected : String) : Reader ParseError := do
  let t ← look
  let cause :=
    if t.kind = .eof then .unexpectedEnd expected else .unexpectedToken expected t.text
  return ⟨cause, t.span.start⟩

/-- Fails because the current token is not `expected`. -/
def fail {α : Type} (expected : String) : Reader α := do throw (some (← unexpected expected))

/-- Takes the current token if it is of the given kind. -/
def expect (kind : Kind) : Reader Token := do
  if (← look).kind = kind then advance else fail kind.describe

/-- Takes a note. -/
def note (record : Record) : Reader Unit :=
  modify fun s => { s with log := s.log.push record }

/-- Fails because nothing may be nested here any more. -/
def overLimit {α : Type} : Reader α := do
  let s ← get
  let t ← look
  throw (some ⟨.tooComplex s.limit, t.span.start⟩)

/-- Goes one level down, which fails below the limit. -/
def enter : Reader Unit := do
  modify fun s => { s with depth := s.depth + 1 }
  let s ← get
  if s.limit < s.depth then overLimit

/-- Comes one level up. -/
def leave : Reader Unit := modify fun s => { s with depth := s.depth - 1 }

/-- A step one level further down. -/
def nested {α : Type} (p : Reader α) : Reader α := do
  enter
  let a ← p
  leave
  return a

/-- Makes `rule` the way expressions start at `kind`. -/
def setStart (kind : Kind) (rule : StartRule) : Reader Unit :=
  modify fun s => { s with rules := s.rules.setStart kind rule }

/-- Makes `rule` the way expressions go on at `kind`, binding as `binding`. -/
def setJoin (kind : Kind) (binding : Binding) (rule : JoinRule) : Reader Unit :=
  modify fun s => { s with rules := s.rules.setJoin kind binding rule }

/-! ## Expressions and statements -/

/-- A number or an identifier. -/
def literal : Reader Expr := do
  match (← look).kind with
  | .number =>
      let t ← advance
      return .number t.text t.span
  | .identifier =>
      let t ← advance
      return .identifier t.text t.span
  | _ => fail "number or identifier"

/-- A sign and its operand. -/
def signedBy (expr : Level → Reader Expr) : Reader Expr := do
  match UnaryOp.ofKind? (← look).kind with
  | none => fail "`+` or `-`"
  | some op =>
      let sign ← advance
      let operand ← expr .unary
      return .unary op operand (.cover sign.span operand.span)

/-- An expression between parentheses. -/
def groupedBy (expr : Level → Reader Expr) : Reader Expr := do
  let opening ← expect .openParen
  let inner ← expr .lowest
  let closing ← expect .closeParen
  return .group inner (.cover opening.span closing.span)

/-- An operator and its right operand, behind the expression `left`. -/
def joinedBy (expr : Level → Reader Expr) (left : Expr) (binding : Binding) : Reader Expr := do
  match BinaryOp.ofKind? (← look).kind with
  | none => fail "binary operator"
  | some op =>
      let _ ← advance
      let right ← expr binding.operandFloor
      return .binary op left right (.cover left.span right.span)

/-- The start of an expression, by the rule of the current token. -/
def startBy (expr : Level → Reader Expr) : Reader Expr := do
  let s ← get
  let t ← look
  match s.rules.start? t.kind with
  | none => fail "expression"
  | some .literal => literal
  | some .sign => signedBy expr
  | some .group => groupedBy expr

/-- The rule and the binding by which an expression goes on, if that binds at least as tightly as
    `floor`. -/
def joinAt? (floor : Level) : Reader (Option (JoinRule × Binding)) := do
  let s ← get
  let t ← look
  match s.rules.binding? t.kind with
  | none => return none
  | some binding =>
      if binding.level < floor then return none
      else
        match s.rules.join? t.kind with
        | none => fail "operator"
        | some rule => return some (rule, binding)

/-- What a rule makes of the expression `left` and the tokens behind it. -/
def joinBy (expr : Level → Reader Expr) (left : Expr) : JoinRule → Binding → Reader Expr
  | .binary, binding => joinedBy expr left binding

/-- Everything that goes on behind the expression `left` at a floor, with at most `room` further
    levels of nesting. -/
def climbBy (expr : Level → Reader Expr) (floor : Level) (room : Nat) (left : Expr) :
    Reader Expr := do
  match ← joinAt? floor with
  | none => return left
  | some (rule, binding) =>
      match room with
      | 0 => overLimit
      | room + 1 =>
          nested do
            let joined ← joinBy expr left rule binding
            climbBy expr floor room joined

/-- An expression at a floor, with at most `room` levels of nesting. -/
def exprWithin : (room : Nat) → (floor : Level) → Reader Expr
  | 0, _ => overLimit
  | room + 1, floor => do
      note (.expression floor (← look))
      nested do
        let left ← startBy (exprWithin room)
        climbBy (exprWithin room) floor room left

/-- An expression at a floor. -/
def expr (floor : Level) : Reader Expr := do
  let s ← get
  exprWithin (s.limit - s.depth + 1) floor

/-- A name, `=`, and the value that the name is given. -/
def assignment : Reader Stmt := do
  let target ← expect .identifier
  let _ ← expect .assignment
  let value ← expr .lowest
  return .assignment target.text target.span value (.cover target.span value.span)

/-- A statement. -/
def stmt : Reader Stmt := do
  let next ← look
  note (.statement next)
  if next.kind = .identifier ∧ (← peek 1) = .assignment then
    assignment
  else
    let e ← expr .lowest
    return .expression e e.span

/-- A statement with nothing behind it. -/
def onlyStmt : Reader Stmt := do
  let st ← stmt
  if ← atEnd then return st else fail Kind.eof.describe

/-- Statements up to the end mark, at most `room` of them. -/
def stmtsWithin : (room : Nat) → Reader (List Stmt)
  | 0 => return []
  | room + 1 => do
      if ← atEnd then return []
      let st ← stmt
      let sts ← stmtsWithin room
      return st :: sts

/-- Statements up to the end mark, no more of them than there are tokens in front of it. -/
def stmts : Reader (List Stmt) := do
  let s ← get
  stmtsWithin (s.tokens.length - (s.index + 1))

/-- The statements of an input. -/
def body : Mode → Reader (List Stmt)
  | .single => return [← onlyStmt]
  | .repeated => stmts

/-- A whole program, from offset zero to the start of the end mark. -/
def program (mode : Mode) : Reader Program := do
  let sts ← body mode
  let t ← look
  return ⟨sts, ⟨0, t.span.start⟩⟩

end Reader

/-- The program that some tokens make up, read by index; nothing if that looks outside the list. -/
def readByIndex? (tokens : List Token) (options : Options) : Option (Except ParseError Program) :=
  match (Reader.program options.mode).run (.ofTokens tokens options) with
  | .ok p _ => some (.ok p)
  | .error (some e) _ => some (.error e)
  | .error none _ => none

/-! ## Readers and parsers -/

/-- The list is `all`, which from the index on is the stream, and everything else is the same. -/
structure IndexState.Shows (all : List Token) (x : IndexState) (s : State) : Prop where
  tokens : x.tokens = all
  drop_index : all.drop x.index = s.stream.toList
  depth : x.depth = s.depth
  limit : x.limit = s.limit
  rules : x.rules = s.rules
  log : x.log = s.log

theorem IndexState.shows_ofTokens (tokens : List Token) (options : Options) :
    (IndexState.ofTokens tokens options).Shows (closed tokens) (.ofTokens tokens options) :=
  ⟨rfl, (toList_ofList_eq_closed tokens).symm, rfl, rfl, rfl, rfl⟩

/-- Where the same tokens are shown, `q` does what `p` does, and the list stays the same. -/
def Reader.Mirrors {α : Type} (q : Reader α) (p : Parser α) : Prop :=
  ∀ all x s, IndexState.Shows all x s → match p s with
    | .ok a s' => ∃ x', q x = .ok a x' ∧ x'.Shows all s'
    | .error e s' => ∃ x', q x = .error (some e) x' ∧ x'.Shows all s'

/-- From one state `q` ends as `p` does: with the same value, or with the same error of the text. -/
def Reader.Answers {α : Type} (q : Reader α) (p : Parser α) (all : List Token) (x : IndexState)
    (s : State) : Prop :=
  match q x with
  | .ok a x' => ∃ s', p s = .ok a s' ∧ x'.Shows all s'
  | .error (some e) x' => ∃ s', p s = .error e s' ∧ x'.Shows all s'
  | .error none _ => False

namespace IndexState.Shows

variable {all : List Token} {x : IndexState} {s : State}

theorem getElem?_add (h : x.Shows all s) (n : Nat) :
    x.tokens[x.index + n]? = s.stream.toList[n]? := by
  rw [← h.drop_index, h.tokens, List.getElem?_drop]

/-- There is a token at the index, and it is the current one. -/
theorem getElem?_index (h : x.Shows all s) : x.tokens[x.index]? = some s.stream.current := by
  obtain ⟨rest, hrest⟩ := s.stream.toList_eq_cons
  rw [← Nat.add_zero x.index, h.getElem?_add, hrest]
  rfl

theorem look_run (h : x.Shows all s) : Reader.look x = .ok s.stream.current x := by
  have hlook : Reader.look x = (match x.tokens[x.index]? with
      | none => throw none
      | some t => return t : Reader Token) x := rfl
  rw [hlook, h.getElem?_index]
  rfl

theorem length_pending (h : x.Shows all s) :
    x.tokens.length - (x.index + 1) = s.stream.pending.length := by
  have hlength := congrArg List.length h.drop_index
  rw [← h.tokens, List.length_drop, Stream.toList, List.length_append, List.length_singleton] at hlength
  omega

/-- Moving on in the list is moving on in the stream. Both stay at their last token. -/
theorem next (h : x.Shows all s) :
    (if x.index + 1 < x.tokens.length then { x with index := x.index + 1 } else x).Shows all
      { s with stream := s.stream.next } := by
  have hlength := h.length_pending
  obtain ⟨hlt, -⟩ := List.getElem?_eq_some_iff.1 h.getElem?_index
  have hnext : s.stream.next.toList = s.stream.pending.tail ++ [s.stream.final] := rfl
  cases hpending : s.stream.pending with
  | nil =>
      rw [hpending, List.length_nil] at hlength
      rw [if_neg (by omega)]
      refine ⟨h.tokens, ?_, h.depth, h.limit, h.rules, h.log⟩
      rw [h.drop_index, hnext, Stream.toList, hpending]
      rfl
  | cons t ts =>
      rw [hpending, List.length_cons] at hlength
      rw [if_pos (by omega)]
      refine ⟨h.tokens, ?_, h.depth, h.limit, h.rules, h.log⟩
      show all.drop (x.index + 1) = _
      rw [← List.tail_drop, h.drop_index, hnext, Stream.toList, hpending]
      rfl

/-- The index is the cursor of the stream in the list, and so inside it. -/
theorem index_eq (h : x.Shows all s) : x.index = s.cursor all := by
  have hlength := congrArg List.length h.drop_index
  obtain ⟨hlt, -⟩ := List.getElem?_eq_some_iff.1 h.getElem?_index
  rw [h.tokens] at hlt
  rw [List.length_drop] at hlength
  unfold State.cursor
  omega

theorem index_lt (h : x.Shows all s) : x.index < all.length := by
  obtain ⟨hlt, -⟩ := List.getElem?_eq_some_iff.1 h.getElem?_index
  rwa [h.tokens] at hlt

end IndexState.Shows

namespace Reader

/-! ## Mirroring, step by step -/

section
variable {α β : Type} {q : Reader α} {p : Parser α}

theorem bind_run {g : α → Reader β} {a : α} {x x' : IndexState} (h : q x = .ok a x') :
    (q >>= g) x = g a x' := by
  show EStateM.bind q g x = _
  unfold EStateM.bind
  rw [h]

theorem bind_run_error {g : α → Reader β} {e : Option ParseError} {x x' : IndexState}
    (h : q x = .error e x') : (q >>= g) x = .error e x' := by
  show EStateM.bind q g x = _
  unfold EStateM.bind
  rw [h]

theorem mirrors_pure (a : α) : Mirrors (pure a) (pure a) := fun _ x _ hs => ⟨x, rfl, hs⟩

theorem Mirrors.bind {g : α → Reader β} {f : α → Parser β} (h : Mirrors q p)
    (hf : ∀ a, Mirrors (g a) (f a)) : Mirrors (q >>= g) (p >>= f) := by
  intro all x s hs
  have hx := h all x s hs
  cases hp : p s with
  | ok a s' =>
      rw [hp] at hx
      obtain ⟨x', hq, hs'⟩ := hx
      rw [Parser.bind_run hp, bind_run hq]
      exact hf a all x' s' hs'
  | error e s' =>
      rw [hp] at hx
      obtain ⟨x', hq, hs'⟩ := hx
      rw [Parser.bind_run_error hp]
      exact ⟨x', bind_run_error hq, hs'⟩

theorem Mirrors.answers (h : Mirrors q p) {all : List Token} {x : IndexState} {s : State}
    (hs : x.Shows all s) : q.Answers p all x s := by
  unfold Answers
  have hx := h all x s hs
  cases hp : p s with
  | ok a s' =>
      rw [hp] at hx
      obtain ⟨x', hq, hs'⟩ := hx
      rw [hq]
      exact ⟨s', rfl, hs'⟩
  | error e s' =>
      rw [hp] at hx
      obtain ⟨x', hq, hs'⟩ := hx
      rw [hq]
      exact ⟨s', rfl, hs'⟩

/-- A reader may go by what the state holds besides the tokens. -/
theorem Mirrors.get_bind {g : IndexState → Reader β} {f : State → Parser β}
    (h : ∀ all x s, IndexState.Shows all x s → Mirrors (g x) (f s)) :
    Mirrors (get >>= g) (get >>= f) :=
  fun all x s hs => h all x s hs all x s hs

/-- The current token of the parser's state is looked up. -/
theorem Mirrors.get_look_bind {g : IndexState → Token → Reader β} {f : State → Parser β}
    (h : ∀ all x s, IndexState.Shows all x s → Mirrors (g x s.stream.current) (f s)) :
    Mirrors (get >>= fun x => look >>= g x) (get >>= f) := by
  intro all x s hs
  have hg : (look >>= g x) x = g x s.stream.current x := bind_run hs.look_run
  have hx := h all x s hs all x s hs
  rw [← hg] at hx
  exact hx

theorem mirrors_look : Mirrors look Parser.current := fun _ x _ hs => ⟨x, hs.look_run, hs⟩

theorem mirrors_peek (n : Nat) : Mirrors (peek n) (Parser.peek n) := by
  intro all x s hs
  have hpeek : (x.tokens[x.index + n]?.map Token.kind).getD .eof = s.stream.peek n := by
    rw [hs.getElem?_add, Stream.peek, Stream.toList, List.getElem?_append]
    split
    · rfl
    · next hn =>
        -- Past the pending tokens there is the end mark, and past that nothing.
        rw [List.getElem?_eq_none (Nat.not_lt.1 hn)]
        cases n - s.stream.pending.length with
        | zero => exact s.stream.kind_final
        | succ m => rfl
  exact ⟨x, congrArg (EStateM.Result.ok · x) hpeek, hs⟩

theorem mirrors_atEnd : Mirrors atEnd Parser.atEnd :=
  mirrors_look.bind fun _ => mirrors_pure _

theorem mirrors_advance : Mirrors advance Parser.advance :=
  fun _ _ _ hs => ⟨_, bind_run hs.look_run, hs.next⟩

theorem mirrors_unexpected (expected : String) :
    Mirrors (unexpected expected) (fun s => .ok (s.unexpected expected) s) :=
  fun _ x _ hs => ⟨x, bind_run hs.look_run, hs⟩

theorem mirrors_fail (expected : String) : Mirrors (fail expected : Reader α) (Parser.fail expected) :=
  (mirrors_unexpected expected).bind fun _ => fun _ x _ hs => ⟨x, rfl, hs⟩

theorem mirrors_expect (kind : Kind) : Mirrors (expect kind) (Parser.expect kind) := by
  refine mirrors_look.bind fun t => ?_
  split
  · exact mirrors_advance
  · exact mirrors_fail kind.describe

theorem mirrors_note (record : Record) : Mirrors (note record) (Parser.note record) :=
  fun _ _ _ hs => ⟨_, rfl, ⟨hs.tokens, hs.drop_index, hs.depth, hs.limit, hs.rules,
    congrArg (Array.push · record) hs.log⟩⟩

theorem mirrors_overLimit : Mirrors (overLimit : Reader α) Parser.overLimit := by
  refine Mirrors.get_look_bind fun all x s hs => ?_
  rw [hs.limit]
  exact fun _ x' _ hs' => ⟨x', rfl, hs'⟩

theorem mirrors_enter : Mirrors enter Parser.enter := by
  have hdown : Mirrors (modify fun s => { s with depth := s.depth + 1 })
      (modify fun s => { s with depth := s.depth + 1 }) :=
    fun _ _ _ hs =>
      ⟨_, rfl, ⟨hs.tokens, hs.drop_index, congrArg (· + 1) hs.depth, hs.limit, hs.rules, hs.log⟩⟩
  refine hdown.bind fun _ => Mirrors.get_bind fun all x s hs => ?_
  rw [hs.limit, hs.depth]
  split
  · exact mirrors_overLimit
  · exact mirrors_pure ()

theorem mirrors_leave : Mirrors leave Parser.leave :=
  fun _ _ _ hs =>
    ⟨_, rfl, ⟨hs.tokens, hs.drop_index, congrArg (· - 1) hs.depth, hs.limit, hs.rules, hs.log⟩⟩

theorem mirrors_setStart (kind : Kind) (rule : StartRule) :
    Mirrors (setStart kind rule) (Parser.setStart kind rule) :=
  fun _ _ _ hs => ⟨_, rfl, ⟨hs.tokens, hs.drop_index, hs.depth, hs.limit,
    congrArg (Rules.setStart kind rule) hs.rules, hs.log⟩⟩

theorem mirrors_setJoin (kind : Kind) (binding : Binding) (rule : JoinRule) :
    Mirrors (setJoin kind binding rule) (Parser.setJoin kind binding rule) :=
  fun _ _ _ hs => ⟨_, rfl, ⟨hs.tokens, hs.drop_index, hs.depth, hs.limit,
    congrArg (Rules.setJoin kind binding rule) hs.rules, hs.log⟩⟩

theorem Mirrors.nested (h : Mirrors q p) : Mirrors (nested q) (Parser.nested p) := by
  refine mirrors_enter.bind fun _ => h.bind fun a => ?_
  exact mirrors_leave.bind fun _ => mirrors_pure a

end

/-! ## Mirroring, rule by rule -/

theorem mirrors_literal : Mirrors literal Parser.literal := by
  refine mirrors_look.bind fun t => ?_
  cases t.kind
  case number | identifier => exact mirrors_advance.bind fun _ => mirrors_pure _
  all_goals exact mirrors_fail _

theorem mirrors_joinAt? (floor : Level) : Mirrors (joinAt? floor) (Parser.joinAt? floor) := by
  refine Mirrors.get_look_bind fun all x s hs => ?_
  rw [hs.rules]
  cases s.rules.binding? s.stream.current.kind with
  | none => exact mirrors_pure none
  | some binding =>
      dsimp only
      split
      · exact mirrors_pure none
      · cases s.rules.join? s.stream.current.kind with
        | none => exact mirrors_fail _
        | some rule => exact mirrors_pure _

section
variable {q : Level → Reader Expr} {p : Level → Parser Expr}
  (he : ∀ floor, Mirrors (q floor) (p floor))
include he

theorem signedBy_mirrors : Mirrors (signedBy q) (Parser.signedBy p) := by
  refine mirrors_look.bind fun t => ?_
  cases UnaryOp.ofKind? t.kind with
  | none => exact mirrors_fail _
  | some op =>
      refine mirrors_advance.bind fun sign => ?_
      exact (he .unary).bind fun operand => mirrors_pure _

theorem groupedBy_mirrors : Mirrors (groupedBy q) (Parser.groupedBy p) := by
  refine (mirrors_expect .openParen).bind fun opening => (he .lowest).bind fun inner => ?_
  exact (mirrors_expect .closeParen).bind fun closing => mirrors_pure _

theorem joinedBy_mirrors (left : Expr) (binding : Binding) :
    Mirrors (joinedBy q left binding) (Parser.joinedBy p left binding) := by
  refine mirrors_look.bind fun t => ?_
  cases BinaryOp.ofKind? t.kind with
  | none => exact mirrors_fail _
  | some op =>
      refine mirrors_advance.bind fun _ => ?_
      exact (he binding.operandFloor).bind fun right => mirrors_pure _

theorem startBy_mirrors : Mirrors (startBy q) (Parser.startBy p) := by
  refine Mirrors.get_look_bind fun all x s hs => ?_
  rw [hs.rules]
  cases s.rules.start? s.stream.current.kind with
  | none => exact mirrors_fail _
  | some rule =>
      cases rule with
      | literal => exact mirrors_literal
      | sign => exact signedBy_mirrors he
      | group => exact groupedBy_mirrors he

theorem climbBy_mirrors (floor : Level) (room : Nat) (left : Expr) :
    Mirrors (climbBy q floor room left) (Parser.climbBy p floor room left) := by
  induction room generalizing left with
  | zero =>
      unfold climbBy Parser.climbBy
      refine (mirrors_joinAt? floor).bind fun next => ?_
      rcases next with _ | next
      · exact mirrors_pure left
      · exact mirrors_overLimit
  | succ room ih =>
      unfold climbBy Parser.climbBy
      refine (mirrors_joinAt? floor).bind fun next => ?_
      rcases next with _ | ⟨⟨⟩, binding⟩
      · exact mirrors_pure left
      · exact ((joinedBy_mirrors he left binding).bind fun joined => ih joined).nested

end

theorem exprWithin_mirrors (room : Nat) (floor : Level) :
    Mirrors (exprWithin room floor) (Parser.exprWithin room floor) := by
  induction room generalizing floor with
  | zero => exact mirrors_overLimit
  | succ room ih =>
      refine mirrors_look.bind fun t => (mirrors_note _).bind fun _ => ?_
      exact ((startBy_mirrors ih).bind fun left => climbBy_mirrors ih floor room left).nested

theorem expr_mirrors (floor : Level) : Mirrors (expr floor) (Parser.expr floor) := by
  refine Mirrors.get_bind fun all x s hs => ?_
  rw [hs.limit, hs.depth]
  exact exprWithin_mirrors _ floor

theorem assignment_mirrors : Mirrors assignment Parser.assignment := by
  refine (mirrors_expect .identifier).bind fun target => ?_
  refine (mirrors_expect .assignment).bind fun _ => ?_
  exact (expr_mirrors .lowest).bind fun value => mirrors_pure _

theorem stmt_mirrors : Mirrors stmt Parser.stmt := by
  refine mirrors_look.bind fun next => (mirrors_note _).bind fun _ => ?_
  refine (mirrors_peek 1).bind fun behind => ?_
  split
  · exact assignment_mirrors
  · exact (expr_mirrors .lowest).bind fun e => mirrors_pure _

theorem onlyStmt_mirrors : Mirrors onlyStmt Parser.onlyStmt := by
  refine stmt_mirrors.bind fun st => mirrors_atEnd.bind fun atEnd => ?_
  split
  · exact mirrors_pure st
  · exact mirrors_fail _

theorem stmtsWithin_mirrors (room : Nat) :
    Mirrors (stmtsWithin room) (Parser.stmtsWithin room) := by
  induction room with
  | zero => exact mirrors_pure []
  | succ room ih =>
      refine mirrors_atEnd.bind fun atEnd => ?_
      split
      · exact mirrors_pure []
      · exact stmt_mirrors.bind fun st => ih.bind fun sts => mirrors_pure _

theorem body_mirrors (mode : Mode) : Mirrors (body mode) (Parser.body mode) := by
  cases mode with
  | single => exact onlyStmt_mirrors.bind fun st => mirrors_pure _
  | repeated =>
      refine Mirrors.get_bind fun all x s hs => ?_
      rw [hs.length_pending]
      exact stmtsWithin_mirrors _

theorem program_mirrors (mode : Mode) : Mirrors (program mode) (Parser.program mode) := by
  refine (body_mirrors mode).bind fun sts => ?_
  exact fun _ x _ hs => ⟨x, bind_run hs.look_run, hs⟩

end Reader

/-- By index tokens are read as from a stream. The index is inside the list at every look. -/
theorem readByIndex?_eq (tokens : List Token) (o : Options) :
    readByIndex? tokens o = some (parseTokens tokens o) := by
  have hmirrors := Reader.program_mirrors o.mode _ _ _ (IndexState.shows_ofTokens tokens o)
  unfold readByIndex? parseTokens readTokens EStateM.run
  cases hp : Parser.program o.mode (.ofTokens tokens o) with
  | ok p s' =>
      rw [hp] at hmirrors
      obtain ⟨x', hq, -⟩ := hmirrors
      rw [hq]
  | error e s' =>
      rw [hp] at hmirrors
      obtain ⟨x', hq, -⟩ := hmirrors
      rw [hq]

/-! ## Sessions by index -/

/-- Reading a piece by index. -/
def Piece.reader : (piece : Piece) → Reader piece.Value
  | expr floor => Reader.expr floor
  | literal => Reader.literal
  | signed => Reader.signedBy Reader.expr
  | grouped => Reader.groupedBy Reader.expr
  | joined left binding => Reader.joinedBy Reader.expr left binding
  | stmt => Reader.stmt
  | assignment => Reader.assignment

theorem Piece.mirrors (piece : Piece) : piece.reader.Mirrors piece.parser := by
  cases piece with
  | expr floor => exact Reader.expr_mirrors floor
  | literal => exact Reader.mirrors_literal
  | signed => exact Reader.signedBy_mirrors Reader.expr_mirrors
  | grouped => exact Reader.groupedBy_mirrors Reader.expr_mirrors
  | joined left binding => exact Reader.joinedBy_mirrors Reader.expr_mirrors left binding
  | stmt => exact Reader.stmt_mirrors
  | assignment => exact Reader.assignment_mirrors

namespace Operation

/-- The step that an operation takes by index. -/
def reader : (op : Operation) → Reader op.Value
  | current => Reader.look
  | peek n => Reader.peek n
  | advance => Reader.advance
  | expect kind => Reader.expect kind
  | unexpected expected => Reader.unexpected expected
  | enter => Reader.enter
  | leave => Reader.leave
  | setStart kind rule => Reader.setStart kind rule
  | setJoin kind binding rule => Reader.setJoin kind binding rule
  | read piece => piece.reader

/-- The state that an operation leaves behind by index, however it ends. -/
def afterByIndex (op : Operation) (x : IndexState) : IndexState :=
  match op.reader x with
  | .ok _ x' | .error _ x' => x'

theorem mirrors (op : Operation) : op.reader.Mirrors op.parser := by
  cases op with
  | current => exact Reader.mirrors_look
  | peek n => exact Reader.mirrors_peek n
  | advance => exact Reader.mirrors_advance
  | expect kind => exact Reader.mirrors_expect kind
  | unexpected expected => exact Reader.mirrors_unexpected expected
  | enter => exact Reader.mirrors_enter
  | leave => exact Reader.mirrors_leave
  | setStart kind rule => exact Reader.mirrors_setStart kind rule
  | setJoin kind binding rule => exact Reader.mirrors_setJoin kind binding rule
  | read piece => exact piece.mirrors

theorem afterByIndex_shows (op : Operation) {all : List Token} {x : IndexState} {s : State}
    (h : x.Shows all s) : (op.afterByIndex x).Shows all (op.after s) := by
  have hmirrors := op.mirrors all x s h
  unfold afterByIndex after
  cases hp : op.parser s with
  | ok a s' =>
      rw [hp] at hmirrors
      obtain ⟨x', hq, hs'⟩ := hmirrors
      rwa [hq]
  | error e s' =>
      rw [hp] at hmirrors
      obtain ⟨x', hq, hs'⟩ := hmirrors
      rwa [hq]

end Operation

/-- The state that a sequence of operations leads to by index. -/
def sessionByIndex (x : IndexState) (ops : List Operation) : IndexState :=
  ops.foldl (fun x op => op.afterByIndex x) x

theorem sessionByIndex_shows {all : List Token} {x : IndexState} {s : State} (h : x.Shows all s)
    (ops : List Operation) : (sessionByIndex x ops).Shows all (session s ops) := by
  induction ops generalizing x s with
  | nil => exact h
  | cons op ops ih => exact ih (op.afterByIndex_shows h)

/-- No session looks outside the list: whatever a parser is asked by index, in whatever order, it
    keeps the list that it was made with, and its index is a place in it, the cursor of the stream.
    The next operation only moves the index forward, fails for an error of the text if it fails,
    and has the result that it has from the stream. -/
theorem sessionByIndex_inside (tokens : List Token) (o : Options) (ops : List Operation) :
    let x := sessionByIndex (.ofTokens tokens o) ops
    let s := session (.ofTokens tokens o) ops
    x.tokens = closed tokens ∧ x.index < x.tokens.length ∧ x.index = s.cursor (closed tokens) ∧
      ∀ op : Operation, x.index ≤ (op.afterByIndex x).index ∧
        op.reader.Answers op.parser (closed tokens) x s := by
  intro x s
  have hs : x.Shows (closed tokens) s :=
    sessionByIndex_shows (IndexState.shows_ofTokens tokens o) ops
  refine ⟨hs.tokens, hs.tokens ▸ hs.index_lt, hs.index_eq, fun op => ⟨?_, ?_⟩⟩
  · rw [hs.index_eq, (op.afterByIndex_shows hs).index_eq]
    exact (op.onward s).cursor_le
  · exact op.mirrors.answers hs

end ArithLang
