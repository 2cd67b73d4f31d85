/-
  Whatever is asked of a parser, in any order, its state stays sound.

  An `Operation` is one of the things that a parser can be asked from outside: to look, to move
  on, to go down and up, to register a rule for any kind, to read any piece of a program. A
  `session` is any sequence of them, gone on with behind failures as well.

  `Operation.onward` says all that one operation can do to the tokens and the tables, and what
  its error is about; `session_onward` carries it over a session by induction, and
  `session_intact` states it of the token list that the parser was made with, by the cursor.
-/
import ArithLang.Proofs.Progress

namespace ArithLang

/-! ## Operations -/

/-- The pieces of a program that can be read by themselves. -/
inductive Piece where
  | expr (floor : Level)
  | literal
  | signed
  | grouped
  | joined (left : Expr) (binding : Binding)
  | stmt
  | assignment

/-- What reading a piece gives. -/
def Piece.Value : Piece → Type
  | stmt | assignment => Stmt
  | expr _ | literal | signed | grouped | joined _ _ => Expr

/-- Reading a piece. -/
def Piece.parser : (piece : Piece) → Parser piece.Value
  | expr floor => Parser.expr floor
  | literal => Parser.literal
  | signed => Parser.signed
  | grouped => Parser.grouped
  | joined left binding => Parser.joined left binding
  | stmt => Parser.stmt
  | assignment => Parser.assignment

/-- What a parser can be asked. -/
inductive Operation where
  | current
  /-- To tell the kind of the token `n` places further on, for any number `n`: neither it nor the
      place that it leads to has to fit a machine word. -/
  | peek (n : Nat)
  | advance
  | expect (kind : Kind)
  /-- To make the error of finding the current token, without failing. -/
  | unexpected (expected : String)
  | enter
  | leave
  | setStart (kind : Kind) (rule : StartRule)
  | setJoin (kind : Kind) (binding : Binding) (rule : JoinRule)
  | read (piece : Piece)

namespace Operation

/-- What an operation answers. -/
def Value : Operation → Type
  | current | advance | expect _ => Token
  | peek _ => Kind
  | unexpected _ => ParseError
  | enter | leave | setStart _ _ | setJoin _ _ _ => Unit
  | read piece => piece.Value

/-- The step that an operation takes. -/
def parser : (op : Operation) → Parser op.Value
  | current => Parser.current
  | peek n => Parser.peek n
  | advance => Parser.advance
  | expect kind => Parser.expect kind
  | unexpected expected => fun s => .ok (s.unexpected expected) s
  | enter => Parser.enter
  | leave => Parser.leave
  | setStart kind rule => Parser.setStart kind rule
  | setJoin kind binding rule => Parser.setJoin kind binding rule
  | read piece => piece.parser

/-- The state that an operation leaves behind, whether it succeeds or fails. -/
def after (op : Operation) (s : State) : State :=
  match op.parser s with
  | .ok _ s' | .error _ s' => s'

end Operation

/-- The state that a sequence of operations leads to. -/
def session (s : State) (ops : List Operation) : State := ops.foldl (fun s op => op.after s) s

/-! ## One operation -/

/-- What an operation can do to the tokens and the tables. -/
structure State.Onward (s s' : State) : Prop where
  final : s'.stream.final = s.stream.final
  ahead : s'.ahead <:+ s.ahead
  paired : s.rules.Paired → s'.rules.Paired

theorem State.Onward.refl (s : State) : s.Onward s := ⟨rfl, List.suffix_rfl, id⟩

theorem State.Onward.trans {s s' s'' : State} (h : s.Onward s') (h' : s'.Onward s'') :
    s.Onward s'' :=
  ⟨h'.final.trans h.final, h'.ahead.trans h.ahead, h'.paired ∘ h.paired⟩

/-- The depth is neither among the tokens nor in the tables. -/
theorem State.onward_depth (s : State) (depth : Nat) : s.Onward { s with depth := depth } :=
  ⟨rfl, List.suffix_rfl, id⟩

/-- What had to stand where the error was found, if that is what the error is about. -/
def Cause.expected? : Cause → Option String
  | unexpectedToken expected _ | unexpectedEnd expected => some expected
  | invalidCharacter _ | unterminatedComment | tooComplex _ => none

/-- The error is about the current token. -/
structure ParseError.About (e : ParseError) (s : State) : Prop where
  position : e.position = s.position
  found : ∀ expected found, e.cause = .unexpectedToken expected found →
    found = s.stream.current.text

theorem Fault.about (f : Fault) (s : State) : (f.error s).About s := by
  refine ⟨Fault.position_errorAt _ _ f, fun expected found h => ?_⟩
  cases f with
  | tooDeep => cases h
  | missing what =>
      simp only [Fault.error, Fault.errorAt] at h
      split at h <;> cases h
      rfl

theorem Fault.expected?_error {f : Fault} {s : State} {what : String}
    (h : (f.error s).cause.expected? = some what) : f = .missing what := by
  cases f with
  | tooDeep => cases h
  | missing expected =>
      simp only [Fault.error, Fault.errorAt] at h
      split at h <;> cases h <;> rfl

namespace Parser

variable {α : Type} {p : Parser α} {s s' : State} {a : α} {n : Nat}

/-- What can be said of an operation's step from one state: where it ends, and of an error, what
    it is about. -/
structure Sound (p : Parser α) (s : State) : Prop where
  ok : ∀ a s', p s = .ok a s' → s.Onward s'
  error : ∀ e s', p s = .error e s' → s.Onward s' ∧ e.About s' ∧
    (s.rules.Paired → e.cause.expected? ≠ some "operator")

theorem Takes.sound (h : p.Takes n s) : p.Sound s where
  ok a s' hp := by
    obtain ⟨hs, -, hahead, -⟩ := h.of_ok hp
    exact ⟨hs.final, hahead, fun hpaired => hs.rules ▸ hpaired⟩
  error e s' hp := by
    obtain ⟨hs, -, hahead, fault, rfl, hne⟩ := h.of_error hp
    refine ⟨⟨hs.final, hahead, fun hpaired => hs.rules ▸ hpaired⟩, fault.about s', ?_⟩
    exact fun hpaired hexp => hne hpaired (Fault.expected?_error hexp)

/-- A step that succeeds is sound if it goes onward. -/
theorem sound_of_ok (hp : p s = .ok a s') (h : s.Onward s') : p.Sound s where
  ok _ _ hp' := by
    obtain ⟨-, rfl⟩ := EStateM.Result.ok.inj (hp.symm.trans hp')
    exact h
  error _ _ hp' := nomatch hp.symm.trans hp'

theorem enter_sound (s : State) : enter.Sound s := by
  by_cases hlt : s.depth < s.limit
  · exact sound_of_ok (enter_run_of_lt hlt) (s.onward_depth _)
  · have hrun := enter_run_of_le (Nat.not_lt.1 hlt)
    refine ⟨fun a s' hp => (nomatch hrun.symm.trans hp), fun e s' hp => ?_⟩
    obtain ⟨rfl, rfl⟩ := EStateM.Result.error.inj (hrun.symm.trans hp)
    exact ⟨s.onward_depth _, Fault.tooDeep.about s.down, fun _ h => nomatch h⟩

end Parser

/-- Every piece that is read takes a token. -/
theorem Piece.takes (piece : Piece) (s : State) : piece.parser.Takes 1 s := by
  cases piece with
  | expr floor => exact Parser.expr_takes floor s
  | literal => exact Parser.literal_takes s
  | signed => exact Parser.signedBy_takes Parser.expr_takes s
  | grouped => exact Parser.groupedBy_takes Parser.expr_takes s
  | joined left binding => exact Parser.joinedBy_takes Parser.expr_takes left binding s
  | stmt => exact Parser.stmt_takes s
  | assignment => exact Parser.assignment_takes s

/-- No operation moves back, changes the end mark or makes the tables differ, and each error is
    about the token it was found at. -/
theorem Operation.sound (op : Operation) (s : State) : op.parser.Sound s := by
  cases op with
  | current => exact Parser.sound_of_ok (Parser.current_run s) (.refl s)
  | peek n => exact Parser.sound_of_ok (Parser.peek_run n s) (.refl s)
  | advance => exact (Parser.advance_takes s).sound
  | expect kind => exact (Parser.expect_takes kind s).sound
  | unexpected expected => exact @Parser.sound_of_ok _ _ s s _ rfl (.refl s)
  | enter => exact Parser.enter_sound s
  | leave => exact Parser.sound_of_ok (Parser.leave_run s) (s.onward_depth _)
  | setStart kind rule =>
      exact @Parser.sound_of_ok _ _ s _ () rfl ⟨rfl, List.suffix_rfl, fun h => h.setStart kind rule⟩
  | setJoin kind binding rule =>
      exact @Parser.sound_of_ok _ _ s _ () rfl
        ⟨rfl, List.suffix_rfl, fun h => h.setJoin kind binding rule⟩
  | read piece => exact (piece.takes s).sound

theorem Operation.onward (op : Operation) (s : State) : s.Onward (op.after s) := by
  unfold Operation.after
  cases hp : op.parser s with
  | ok a s' => exact (op.sound s).ok a s' hp
  | error e s' => exact ((op.sound s).error e s' hp).1

/-! ## Sessions -/

theorem session_onward (ops : List Operation) (s : State) : s.Onward (session s ops) := by
  induction ops generalizing s with
  | nil => exact .refl s
  | cons op ops ih => exact (op.onward s).trans (ih (op.after s))

/-- The tokens that a parser goes over: those it was made with, with an end mark put behind them
    unless they have one. -/
def closed (ts : List Token) : List Token :=
  match ts.getLast? with
  | none => [.eof 0]
  | some last => if last.kind = .eof then ts else ts ++ [.eof last.span.stop]

theorem toList_ofList_eq_closed (ts : List Token) : (Stream.ofList ts).toList = closed ts := by
  unfold closed
  cases hlast : ts.getLast? with
  | none => simp [Stream.ofList, Stream.toList, hlast]
  | some last =>
      by_cases hk : last.kind = .eof
      · simp only [hk, if_true]
        exact Stream.toList_ofList hlast hk
      · simp [Stream.ofList, Stream.toList, hlast, hk]

/-- Where the current token stands in a list of which the tokens of the state are the end. -/
def State.cursor (all : List Token) (s : State) : Nat := all.length - s.stream.toList.length

/-- A sound state of a parser over `all`. -/
structure State.Intact (all : List Token) (s : State) : Prop where
  /-- The list ends with an end mark, so it is not empty. -/
  last : all.getLast?.map Token.kind = some .eof
  cursor_lt : s.cursor all < all.length
  /-- The tokens still to be read are those of the list from the cursor on. -/
  drop_cursor : all.drop (s.cursor all) = s.stream.toList
  current : all[s.cursor all]? = some s.stream.current
  paired : s.rules.Paired

/-- What lies between a state and one that is further on has been used up. -/
theorem State.Onward.exists_used {s s' : State} (h : s.Onward s') :
    ∃ used, s.stream.toList = used ++ s'.stream.toList := by
  obtain ⟨used, hused⟩ := h.ahead
  refine ⟨used, ?_⟩
  calc s.ahead ++ [s.stream.final]
      = used ++ s'.ahead ++ [s'.stream.final] := by rw [hused, h.final]
    _ = used ++ (s'.ahead ++ [s'.stream.final]) := List.append_assoc ..

theorem Stream.toList_eq_cons (s : Stream) : ∃ rest, s.toList = s.current :: rest := by
  obtain ⟨pending, final, hf⟩ := s
  cases pending with
  | nil => exact ⟨[], rfl⟩
  | cons t ts => exact ⟨ts ++ [final], rfl⟩

theorem State.Onward.cursor_le {all : List Token} {s s' : State} (h : s.Onward s') :
    s.cursor all ≤ s'.cursor all := by
  obtain ⟨used, hused⟩ := h.exists_used
  unfold State.cursor
  rw [hused, List.length_append]
  omega

theorem State.Onward.intact {s s' : State} (h : s.Onward s') (hpaired : s.rules.Paired) :
    s'.Intact s.stream.toList := by
  obtain ⟨used, hused⟩ := h.exists_used
  obtain ⟨rest, hrest⟩ := s'.stream.toList_eq_cons
  have hcursor : s'.cursor s.stream.toList = used.length := by
    unfold State.cursor
    rw [hused, List.length_append, Nat.add_sub_cancel]
  refine ⟨?_, ?_, ?_, ?_, h.paired hpaired⟩
  · simp [Stream.toList, s.stream.kind_final]
  · rw [hcursor, hused, hrest]
    simp
  · rw [hcursor, hused, List.drop_left]
  · rw [hcursor, hused, hrest]
    simp

/-- No session breaks a parser: whatever it is asked, in whatever order, its cursor stays inside
    the list of tokens that it was made with, the tables of joins and of bindings keep the same
    kinds, and the next operation only moves forward, never misses an operator, and fails with
    an error about the token that it stops at. -/
theorem session_intact (tokens : List Token) (o : Options) (ops : List Operation) :
    let s := session (.ofTokens tokens o) ops
    s.Intact (closed tokens) ∧
      ∀ op : Operation, s.cursor (closed tokens) ≤ (op.after s).cursor (closed tokens) ∧
        ∀ e s', op.parser s = .error e s' →
          e.About s' ∧ e.cause.expected? ≠ some "operator" := by
  intro s
  have hs : (State.ofTokens tokens o).Onward s := session_onward ops _
  have hintact := hs.intact (Rules.paired_standard o.powers)
  rw [State.ofTokens, toList_ofList_eq_closed] at hintact
  refine ⟨hintact, fun op => ⟨(op.onward s).cursor_le, fun e s' he => ?_⟩⟩
  obtain ⟨-, habout, hne⟩ := (op.sound s).error e s' he
  exact ⟨habout, hne hintact.paired⟩

/-- Rules for kinds that they do not fit, and `(7` read twice: the first failure leaves the depth
    raised at the end mark, the second one is the sign's own. -/
example :
    let s := session (.ofTokens [⟨.openParen, "(", ⟨0, 1⟩⟩, ⟨.number, "7", ⟨1, 2⟩⟩] {})
      [.setStart .eof .sign, .setJoin .openParen ⟨.additive, .left⟩ .binary,
        .read (.expr .lowest), .read (.expr .lowest)]
    s.depth = 2 ∧ s.position = 2 := by
  decide +kernel

end ArithLang
