/-
  The notes taken while a text is read.

  A note is taken where an expression or a statement is about to be read, before there is a
  tree. Still the notes are known from the tree alone: `Expr.calls` lists those taken inside an
  expression, in the order of its tokens.

  `Notes` is what a parser does to the log: it adds trace notes at the end, which a relation
  ties to the value if there is one. It is closed under binds, so each rule has one statement,
  about any parser of operands that notes what it should, and the recursion is by induction on
  the room. `read_log` puts these together for whole texts. How the notes are written out is in
  `Proofs/LogLines`.
-/
import ArithLang.Proofs.Slice

namespace ArithLang

/-! ## Notes of a tree -/

/-- The floor that the right operand of an operator is read at. -/
def BinaryOp.rightFloor (powers : Associativity) : BinaryOp → Level
  | .add | .subtract => .multiplicative
  | .multiply | .divide => .exponent
  | .power =>
      match powers with
      | .left => .unary
      | .right => .exponent

theorem BinaryOp.operandFloor_binding (powers : Associativity) (op : BinaryOp) :
    (op.binding powers).operandFloor = op.rightFloor powers := by
  cases powers <;> cases op <;> rfl

namespace Expr

/-- The token that the expression starts with. -/
def firstToken : Expr → Token
  | number text s => ⟨.number, text, s⟩
  | identifier text s => ⟨.identifier, text, s⟩
  | unary op _ s => ⟨op.kind, op.symbol, ⟨s.start, s.start + 1⟩⟩
  | binary _ left _ _ => left.firstToken
  | group _ s => ⟨.openParen, "(", ⟨s.start, s.start + 1⟩⟩

/-- What is noted inside the expression, from left to right. -/
def calls (powers : Associativity) : Expr → List Record
  | number _ _ => []
  | identifier _ _ => []
  | unary _ x _ => .expression .unary x.firstToken :: x.calls powers
  | binary op left right _ =>
      left.calls powers ++
        .expression (op.rightFloor powers) right.firstToken :: right.calls powers
  | group x _ => .expression .lowest x.firstToken :: x.calls powers

/-- What is noted when the expression is read at a floor. -/
def trace (powers : Associativity) (floor : Level) (e : Expr) : List Record :=
  .expression floor e.firstToken :: e.calls powers

end Expr

namespace Stmt

/-- The token that the statement starts with. -/
def firstToken : Stmt → Token
  | assignment target s _ _ => ⟨.identifier, target, s⟩
  | expression e _ => e.firstToken

/-- What is noted when the statement is read. -/
def trace (powers : Associativity) (st : Stmt) : List Record :=
  .statement st.firstToken :: st.expr.trace powers .lowest

end Stmt

/-! ## Tokens of a text -/

/-- The token is written as its kind asks, and its span is as long as its text. -/
structure Token.Written (t : Token) : Prop where
  lexical : t.Lexical
  stop : t.span.stop = t.span.start + t.text.utf8ByteSize

theorem Tiles.written {ls : List Lexeme} (h : Tiles ls) {t : Token} (ht : t ∈ words 0 ls) :
    t.Written := by
  refine ⟨h.lexical ht, ?_⟩
  obtain ⟨xs, ys, hsplit⟩ := List.append_of_mem ht
  obtain ⟨before, l, after, -, -, hl, -⟩ := words_eq_append_cons hsplit
  rw [span_of_word? hl]
  obtain ⟨kind, -, rfl⟩ := Option.map_eq_some_iff.1 hl
  rw [← byteLength_toList, String.toList_ofList]

/-- A token of one character is known from its kind and where it starts. -/
theorem Token.Written.eq_of_fixedText? {t : Token} (h : t.Written) {text : String}
    (hk : t.kind.fixedText? = some text) (hlen : text.utf8ByteSize = 1) :
    (⟨t.kind, text, ⟨t.span.start, t.span.start + 1⟩⟩ : Token) = t := by
  have htext : t.text = text :=
    String.toList_injective ((Lexeme.valid_iff_of_fixedText? hk).1 h.lexical)
  have hstop := h.stop
  rw [htext, hlen] at hstop
  rw [← hstop, ← htext]

/-- The state has the rules of the language and tokens of a text ahead. -/
structure State.OnText (powers : Associativity) (s : State) : Prop where
  rules : s.rules = .standard powers
  written : ∀ t ∈ s.ahead, t.Written

namespace State

/-- The state with a note more. -/
abbrev noted (r : Record) (s : State) : State := { s with log := s.log.push r }

variable {powers : Associativity} {s : State}

theorem OnText.next (h : s.OnText powers) : s.next.OnText powers :=
  ⟨h.rules, fun t ht => h.written t (List.mem_of_mem_tail ht)⟩

theorem OnText.down (h : s.OnText powers) : s.down.OnText powers := ⟨h.rules, h.written⟩

theorem OnText.noted (h : s.OnText powers) (r : Record) : (s.noted r).OnText powers :=
  ⟨h.rules, h.written⟩

/-- The log of the second state is that of the first with trace notes behind it. -/
structure Adds (s s' : State) (rs : List Record) : Prop where
  log : s'.log.toList = s.log.toList ++ rs
  trace : ∀ r ∈ rs, r.severity = .trace

theorem adds_nil {s' : State} (h : s'.log = s.log) : s.Adds s' [] :=
  ⟨by rw [h, List.append_nil], nofun⟩

theorem adds_noted {r : Record} (h : r.severity = .trace) : s.Adds (s.noted r) [r] :=
  ⟨Array.toList_push, by simpa using h⟩

theorem Adds.trans {s' s'' : State} {rs rs' : List Record} (h : s.Adds s' rs)
    (h' : s'.Adds s'' rs') : s.Adds s'' (rs ++ rs') :=
  ⟨by rw [h'.log, h.log, List.append_assoc], List.forall_mem_append.2 ⟨h.trace, h'.trace⟩⟩

theorem OnText.current (h : s.OnText powers) (hne : s.stream.current.kind ≠ .eof) :
    s.stream.current.Written :=
  h.written _ (by rw [ahead_eq_cons hne]; exact List.mem_cons_self)

end State

namespace Parser

/-! ## Parsers that take notes -/

section
variable {α β : Type} {powers : Associativity}

/-- Started in `s`, the parser adds trace notes to the log. When it succeeds, `R` relates them to
    its value. -/
def Notes (powers : Associativity) (p : Parser α) (s : State) (R : α → List Record → Prop) :
    Prop :=
  match p s with
  | .ok a s' => s'.OnText powers ∧ ∃ rs, s.Adds s' rs ∧ R a rs
  | .error _ s' => ∃ rs, s.Adds s' rs

variable {p : Parser α} {f : α → Parser β} {s s' : State} {a : α}
  {R : α → List Record → Prop} {Q : β → List Record → Prop}

theorem notes_pure (hs : s.OnText powers) (h : R a []) : (pure a : Parser α).Notes powers s R :=
  ⟨hs, [], State.adds_nil rfl, h⟩

/-- A parser that fails on the spot takes no notes. -/
theorem notes_of_error {e : ParseError} (hp : p s = .error e s') (hlog : s'.log = s.log) :
    p.Notes powers s R := by
  unfold Notes
  rw [hp]
  exact ⟨[], State.adds_nil hlog⟩

/-- What is noted on the way to another state comes first. -/
theorem Notes.of_adds {rs : List Record} (hp : p s = .ok a s') (hadds : s.Adds s' rs)
    (h : (f a).Notes powers s' fun b rs' => Q b (rs ++ rs')) : (p >>= f).Notes powers s Q := by
  unfold Notes at h ⊢
  rw [bind_run hp]
  cases hf : f a s' with
  | ok b s'' =>
      rw [hf] at h
      obtain ⟨hs'', rs', hadds', hQ⟩ := h
      exact ⟨hs'', rs ++ rs', hadds.trans hadds', hQ⟩
  | error e s'' =>
      rw [hf] at h
      obtain ⟨rs', hadds'⟩ := h
      exact ⟨rs ++ rs', hadds.trans hadds'⟩

/-- A parser that only looks or moves on can be run first. -/
theorem Notes.after (hp : p s = .ok a s') (hlog : s'.log = s.log)
    (h : (f a).Notes powers s' Q) : (p >>= f).Notes powers s Q :=
  Notes.of_adds hp (State.adds_nil hlog) h

theorem Notes.after_note {r : Record} {g : Unit → Parser β} (hr : r.severity = .trace)
    (h : (g ()).Notes powers (s.noted r) fun b rs => Q b (r :: rs)) :
    (note r >>= g).Notes powers s Q :=
  Notes.of_adds (note_run r s) (State.adds_noted hr) h

theorem Notes.bind (h : p.Notes powers s R)
    (hf : ∀ a s' rs, s'.OnText powers → R a rs →
      (f a).Notes powers s' fun b rs' => Q b (rs ++ rs')) :
    (p >>= f).Notes powers s Q := by
  unfold Notes at h
  cases hp : p s with
  | ok a s' =>
      rw [hp] at h
      obtain ⟨hs', rs, hadds, hR⟩ := h
      exact Notes.of_adds hp hadds (hf a s' rs hs' hR)
  | error e s' =>
      rw [hp] at h
      unfold Notes
      rw [bind_run_error hp]
      exact h

theorem Notes.mono {R' : α → List Record → Prop} (h : p.Notes powers s R)
    (hR : ∀ a rs, R a rs → R' a rs) : p.Notes powers s R' := by
  unfold Notes at h ⊢
  cases hp : p s with
  | ok a s' =>
      rw [hp] at h
      obtain ⟨hs', rs, hadds, ha⟩ := h
      exact ⟨hs', rs, hadds, hR a rs ha⟩
  | error e s' =>
      rw [hp] at h
      exact h

theorem nested_notes (h : p.Notes powers s.down R) : (nested p).Notes powers s R := by
  by_cases hlt : s.depth < s.limit
  · refine Notes.after (enter_run_of_lt hlt) rfl ?_
    -- `leave` changes the depth alone.
    refine h.bind fun a s' rs hs' ha => Notes.after (leave_run s') rfl ?_
    exact notes_pure ⟨hs'.rules, hs'.written⟩ (by rwa [List.append_nil])
  · exact notes_of_error (bind_run_error (enter_run_of_le (Nat.le_of_not_lt hlt))) rfl

theorem Notes.expect {kind : Kind} {g : Token → Parser β}
    (h : s.stream.current.kind = kind → (g s.stream.current).Notes powers s.next Q) :
    (expect kind >>= g).Notes powers s Q := by
  by_cases hk : s.stream.current.kind = kind
  · exact Notes.after (expect_run_of_kind hk) rfl (h hk)
  · exact notes_of_error (bind_run_error (expect_run_of_ne hk)) rfl

end

/-! ## Expressions -/

/-- The notes are those inside the expression, which starts with the current token. -/
structure NotedFrom (powers : Associativity) (s : State) (e : Expr) (rs : List Record) : Prop where
  records : rs = e.calls powers
  first : e.firstToken = s.stream.current

/-- The notes are those inside the expression that are not inside `left`, which it starts with. -/
structure NotedBehind (powers : Associativity) (left e : Expr) (rs : List Record) : Prop where
  records : e.calls powers = left.calls powers ++ rs
  first : e.firstToken = left.firstToken

/-- `operand` notes what the tree of an operand says, and starts with the current token. -/
def NotesOperands (powers : Associativity) (operand : Level → Parser Expr) : Prop :=
  ∀ (floor : Level) (s : State), s.OnText powers →
    (operand floor).Notes powers s fun e rs =>
      rs = e.trace powers floor ∧ e.firstToken = s.stream.current

variable {powers : Associativity} {operand : Level → Parser Expr} {s : State}

theorem literal_notes (hs : s.OnText powers) : literal.Notes powers s (NotedFrom powers s) := by
  refine Notes.after (current_run s) rfl ?_
  cases hk : s.stream.current.kind
  case number =>
    refine Notes.after (advance_run s) rfl (notes_pure hs.next ⟨rfl, ?_⟩)
    rw [Expr.firstToken, ← hk]
  case identifier =>
    refine Notes.after (advance_run s) rfl (notes_pure hs.next ⟨rfl, ?_⟩)
    rw [Expr.firstToken, ← hk]
  all_goals exact notes_of_error (fail_run _ s) rfl

theorem signedBy_notes (he : NotesOperands powers operand) (hs : s.OnText powers) :
    (signedBy operand).Notes powers s (NotedFrom powers s) := by
  refine Notes.after (current_run s) rfl ?_
  cases hop : UnaryOp.ofKind? s.stream.current.kind with
  | none => exact notes_of_error (fail_run _ s) rfl
  | some op =>
      have hk := UnaryOp.ofKind?_eq_some_iff.1 hop
      have hwritten := hs.current (by rw [hk]; cases op <;> decide)
      refine Notes.after (advance_run s) rfl ?_
      refine (he .unary s.next hs.next).bind fun x s' rs hs' hx => notes_pure hs' ⟨?_, ?_⟩
      · rw [hx.1, List.append_nil]
        rfl
      · have hsign := hwritten.eq_of_fixedText? (hk ▸ op.fixedText?_kind) (by cases op <;> decide)
        rw [hk] at hsign
        exact hsign

theorem groupedBy_notes (he : NotesOperands powers operand) (hs : s.OnText powers) :
    (groupedBy operand).Notes powers s (NotedFrom powers s) := by
  refine Notes.expect fun hk => ?_
  have hwritten := hs.current (by rw [hk]; decide)
  refine (he .lowest s.next hs.next).bind fun x s' rs hs' hx => Notes.expect fun hc => ?_
  refine notes_pure hs'.next ⟨?_, ?_⟩
  · rw [hx.1, List.append_nil]
    rfl
  · have hopen := hwritten.eq_of_fixedText? (hk ▸ rfl : _ = some "(") (by decide)
    rw [hk] at hopen
    exact hopen

theorem joinedBy_notes (he : NotesOperands powers operand) (hs : s.OnText powers) (left : Expr)
    {op : BinaryOp} (hk : s.stream.current.kind = op.kind) :
    (joinedBy operand left (op.binding powers)).Notes powers s (NotedBehind powers left) := by
  refine Notes.after (current_run s) rfl ?_
  rw [hk, BinaryOp.ofKind?_kind]
  refine Notes.after (advance_run s) rfl ?_
  refine (he _ s.next hs.next).bind fun r s' rs hs' hr => notes_pure hs' ⟨?_, rfl⟩
  rw [hr.1, List.append_nil, Expr.trace, op.operandFloor_binding]
  rfl

theorem startBy_notes (he : NotesOperands powers operand) (hs : s.OnText powers) :
    (startBy operand).Notes powers s (NotedFrom powers s) := by
  refine Notes.after (get_run s) rfl ?_
  cases s.rules.start? s.stream.current.kind with
  | none => exact notes_of_error (fail_run _ s) rfl
  | some rule =>
      cases rule with
      | literal => exact literal_notes hs
      | sign => exact signedBy_notes he hs
      | group => exact groupedBy_notes he hs

/-- An expression goes on at an operator of the language, or it does not go on. -/
theorem joinAt?_cases (floor : Level) (hs : s.OnText powers) :
    joinAt? floor s = .ok none s ∨
      ∃ op : BinaryOp, s.stream.current.kind = op.kind ∧
        joinAt? floor s = .ok (some (.binary, op.binding powers)) s := by
  have hrules := hs.rules.trans (Rules.standard_eq_ofBindings powers)
  by_cases hstop : Stops (BinaryOp.binding powers) floor s.ahead
  · exact .inl (joinAt?_run_of_stops hrules hstop)
  · obtain ⟨op, hk, hf⟩ := exists_kind_of_not_stops hstop
    exact .inr ⟨op, hk, joinAt?_run_of_kind hrules hk hf⟩

theorem climbBy_notes (he : NotesOperands powers operand) (floor : Level) (room : Nat)
    (left : Expr) (hs : s.OnText powers) :
    (climbBy operand floor room left).Notes powers s (NotedBehind powers left) := by
  induction room generalizing left s with
  | zero =>
      unfold climbBy
      rcases joinAt?_cases floor hs with hjoin | ⟨op, hk, hjoin⟩
      · exact Notes.after hjoin rfl (notes_pure hs ⟨(List.append_nil _).symm, rfl⟩)
      · exact Notes.after hjoin rfl (notes_of_error (overLimit_run s) rfl)
  | succ room ih =>
      unfold climbBy
      rcases joinAt?_cases floor hs with hjoin | ⟨op, hk, hjoin⟩
      · exact Notes.after hjoin rfl (notes_pure hs ⟨(List.append_nil _).symm, rfl⟩)
      · refine Notes.after hjoin rfl (nested_notes ?_)
        refine (joinedBy_notes he hs.down left hk).bind fun joined s' rs hs' hj => ?_
        refine (ih joined hs').mono fun e rs' h => ⟨?_, h.first.trans hj.first⟩
        rw [h.records, hj.records, List.append_assoc]

theorem exprWithin_notes (room : Nat) : NotesOperands powers (exprWithin room) := by
  induction room with
  | zero => exact fun floor s _ => notes_of_error (overLimit_run s) rfl
  | succ room ih =>
      intro floor s hs
      refine Notes.after (current_run s) rfl (Notes.after_note rfl (nested_notes ?_))
      refine (startBy_notes ih (hs.noted _).down).bind fun left s' rs hs' hleft => ?_
      refine (climbBy_notes ih floor room left hs').mono fun e rs' h => ?_
      have hfirst : e.firstToken = s.stream.current := h.first.trans hleft.first
      refine ⟨?_, hfirst⟩
      rw [Expr.trace, hfirst, h.records, hleft.records]

theorem expr_notes : NotesOperands powers expr := by
  intro floor s hs
  refine Notes.after (get_run s) rfl ?_
  exact exprWithin_notes _ floor s hs

/-! ## Statements -/

theorem assignment_notes (hs : s.OnText powers) :
    assignment.Notes powers s fun st rs =>
      rs = st.expr.trace powers .lowest ∧ st.firstToken = s.stream.current := by
  refine Notes.expect fun hk => Notes.expect fun _ => ?_
  refine (expr_notes .lowest s.next.next hs.next.next).bind fun v s' rs hs' hv => ?_
  refine notes_pure hs' ⟨?_, ?_⟩
  · rw [hv.1, List.append_nil]
    rfl
  · rw [Stmt.firstToken, ← hk]

theorem stmt_notes (hs : s.OnText powers) :
    stmt.Notes powers s fun st rs => rs = st.trace powers := by
  refine Notes.after (current_run s) rfl (Notes.after_note rfl (Notes.after (peek_run 1 _) rfl ?_))
  have hs₁ := hs.noted (.statement s.stream.current)
  split
  · refine (assignment_notes hs₁).mono fun st rs h => ?_
    rw [Stmt.trace, h.1, h.2]
  · refine (expr_notes .lowest _ hs₁).bind fun e s' rs hs' he => notes_pure hs' ?_
    rw [he.1, List.append_nil, Stmt.trace, Stmt.firstToken, he.2]
    rfl

theorem onlyStmt_notes (hs : s.OnText powers) :
    onlyStmt.Notes powers s fun st rs => rs = st.trace powers := by
  refine (stmt_notes hs).bind fun st s' rs hs' hst => Notes.after (atEnd_run s') rfl ?_
  split
  · exact notes_pure hs' (by rw [hst, List.append_nil])
  · exact notes_of_error (fail_run _ s') rfl

theorem stmtsWithin_notes (room : Nat) (hs : s.OnText powers) :
    (stmtsWithin room).Notes powers s fun sts rs => rs = sts.flatMap (Stmt.trace powers) := by
  induction room generalizing s with
  | zero => exact notes_pure hs rfl
  | succ room ih =>
      refine Notes.after (atEnd_run s) rfl ?_
      split
      · exact notes_pure hs rfl
      · refine (stmt_notes hs).bind fun st s' rs hs' hst => ?_
        refine (ih hs').bind fun sts s'' rs' hs'' hsts => notes_pure hs'' ?_
        rw [hst, hsts, List.append_nil, List.flatMap_cons]

theorem body_notes (mode : Mode) (hs : s.OnText powers) :
    (body mode).Notes powers s fun sts rs => rs = sts.flatMap (Stmt.trace powers) := by
  cases mode with
  | single =>
      refine (onlyStmt_notes hs).bind fun st s' rs hs' hst => notes_pure hs' ?_
      rw [hst, List.append_nil, List.flatMap_singleton]
  | repeated =>
      refine Notes.after (get_run s) rfl ?_
      exact stmtsWithin_notes _ hs

theorem program_notes (mode : Mode) (hs : s.OnText powers) :
    (program mode).Notes powers s fun p rs => rs = p.body.flatMap (Stmt.trace powers) := by
  refine (body_notes mode hs).bind fun sts s' rs hs' hsts => Notes.after (get_run s') rfl ?_
  exact notes_pure hs' (by rw [hsts, List.append_nil])

end Parser

/-! ## Whole texts -/

theorem Tiles.onText {ls : List Lexeme} (h : Tiles ls) (stop : Nat) (o : Options) :
    (State.ofTokens (words 0 ls ++ [.eof stop]) o).OnText o.powers := by
  have hstream : (State.ofTokens (words 0 ls ++ [.eof stop]) o).stream = ⟨words 0 ls, _, rfl⟩ :=
    Stream.ofList_append_final rfl
  refine ⟨rfl, fun t ht => ?_⟩
  rw [State.ahead, hstream] at ht
  exact h.written ht

/-- Reading the words of a text notes what the program says. A reading that fails takes trace
    notes, and at last one of its error. -/
theorem readTokens_log {source : String} {ts : List Token} (h : tokenize source = .ok ts)
    (o : Options) :
    (∀ p, parseTokens ts o = .ok p →
      (readTokens ts o).log = p.body.flatMap (Stmt.trace o.powers)) ∧
    ∀ e, parseTokens ts o = .error e → ∃ traces, (∀ r ∈ traces, r.severity = .trace) ∧
      (readTokens ts o).log = traces ++ [.failed e] := by
  obtain ⟨ls, htiles, -, rfl⟩ := tokenize_eq_ok_iff.1 h
  have hnotes := Parser.program_notes o.mode (htiles.onText source.utf8ByteSize o)
  unfold Parser.Notes at hnotes
  unfold parseTokens readTokens
  cases hrun : (Parser.program o.mode).run
      (.ofTokens (words 0 ls ++ [.eof source.utf8ByteSize]) o) with
  | ok q s =>
      rw [EStateM.run] at hrun
      rw [hrun] at hnotes
      obtain ⟨-, rs, hadds, rfl⟩ := hnotes
      refine ⟨fun p hp => ?_, nofun⟩
      obtain rfl := Except.ok.inj hp
      exact hadds.log
  | error e s =>
      rw [EStateM.run] at hrun
      rw [hrun] at hnotes
      obtain ⟨rs, hadds⟩ := hnotes
      refine ⟨nofun, fun e' he' => ⟨rs, hadds.trace, ?_⟩⟩
      obtain rfl := Except.error.inj he'
      exact congrArg (· ++ [.failed e]) hadds.log

/-- The log of a text. Where it is read, the log says how many tokens were cut from how many bytes,
    the end mark counted, and then what the statements say one after the other. Where it cannot be
    cut, nothing is noted, and where it cannot be read, the last note and no other is of the
    error. -/
theorem read_log (source : String) (o : Options) :
    (∀ p, parse source o = .ok p → ∃ ts, tokenize source = .ok ts ∧
      (read source o).log =
        .tokenized ts.length source.utf8ByteSize :: p.body.flatMap (Stmt.trace o.powers)) ∧
    (∀ e, tokenize source = .error e → (read source o).log = []) ∧
    ∀ ts e, tokenize source = .ok ts → parse source o = .error e →
      ∃ traces, (∀ r ∈ traces, r.severity = .trace) ∧
        (read source o).log =
          .tokenized ts.length source.utf8ByteSize :: (traces ++ [.failed e]) := by
  have hlog {ts : List Token} (hts : tokenize source = .ok ts) :
      (read source o).log =
        .tokenized ts.length source.utf8ByteSize :: (readTokens ts o).log := by
    unfold read
    rw [hts]
  refine ⟨fun p hp => ?_, fun e he => ?_, fun ts e hts he => ?_⟩
  · cases hts : tokenize source with
    | error e =>
        rw [parse_of_tokenize_error hts] at hp
        cases hp
    | ok ts =>
        rw [parse_of_tokenize hts] at hp
        exact ⟨ts, rfl, by rw [hlog hts, (readTokens_log hts o).1 p hp]⟩
  · unfold read
    rw [he]
  · rw [parse_of_tokenize hts] at he
    obtain ⟨traces, htrace, htokens⟩ := (readTokens_log hts o).2 e he
    exact ⟨traces, htrace, by rw [hlog hts, htokens]⟩

end ArithLang
