/-
  Reading comes to an end, and how deep its recursion goes.

  The parsers are written once more without any room that could run out: going on behind an
  expression, and reading one statement behind the other, is repeated as long as there is
  something to repeat it for. Instead they are watched. Whenever an expression is begun inside
  another one, or something is repeated, fewer tokens have to be ahead than the time before, and
  only so many expressions may be open at once; otherwise the parser gives way to `halt`, which
  may do anything. The first rule alone makes the repetitions well founded.

  `reading_halts_nowhere`: from any state, with any rules, the watched parsers do what the
  parsers themselves do, whatever `halt` is. So the cursor moves on each time
  (`State.Intact.cursor_lt_iff`), and no more expressions are open at once than there are levels
  left under the limit, and one.
-/
import ArithLang.Proofs.Session

namespace ArithLang

/-- Over one list, fewer tokens are ahead exactly where the cursor is further on. -/
theorem State.Intact.cursor_lt_iff {all : List Token} {s s' : State} (h : s.Intact all)
    (h' : s'.Intact all) : s.cursor all < s'.cursor all ↔ s'.ahead.length < s.ahead.length := by
  have rest_length : ∀ {s : State}, s.Intact all →
      all.length = s.cursor all + (s.ahead.length + 1) := by
    intro s h
    have hlt := h.cursor_lt
    have hlength : all.length - s.cursor all = s.ahead.length + 1 := by
      rw [← List.length_drop, h.drop_cursor, Stream.toList, List.length_append,
        List.length_singleton]
    omega
  have hs := rest_length h
  have hs' := rest_length h'
  omega

namespace Parser

/-! ## Watched parsers -/

section
variable (halt : ∀ α : Type, Parser α)

/-- Goes on if fewer tokens than `bound` are ahead. -/
def whenFewer {α : Type} (bound : Nat) (p : (n : Nat) → n < bound → Parser α) : Parser α := do
  let s ← get
  if h : s.ahead.length < bound then p s.ahead.length h else halt α

/-- Everything that goes on behind an expression, with fewer tokens ahead each time. -/
def climbWatched (expr : Level → Parser Expr) (floor : Level) (bound : Nat) (left : Expr) :
    Parser Expr :=
  whenFewer halt bound fun n _ => do
    match ← joinAt? floor with
    | none => return left
    | some (rule, binding) =>
        nested do
          let joined ← joinBy expr left rule binding
          climbWatched expr floor n joined
termination_by bound

/-- An expression, with at most `calls` of them open at once, and with fewer tokens ahead than
    where the one around it began. -/
def exprWatched : (calls bound : Nat) → (floor : Level) → Parser Expr
  | 0, _, _ => halt Expr
  | calls + 1, bound, floor =>
      whenFewer halt bound fun n _ => do
        note (.expression floor (← current))
        nested do
          let left ← startBy (exprWatched calls n)
          climbWatched halt (exprWatched calls n) floor n left

/-- A statement, watched. -/
def stmtWatched (calls bound : Nat) : Parser Stmt := stmtBy (exprWatched halt calls bound .lowest)

/-- Statements up to the end mark, with fewer tokens ahead each time. -/
def stmtsWatched (calls bound : Nat) : Parser (List Stmt) :=
  whenFewer halt bound fun n _ => do
    if ← atEnd then return []
    let st ← stmtWatched halt calls bound
    let sts ← stmtsWatched calls n
    return st :: sts
termination_by bound

/-- A statement with nothing behind it, watched. -/
def onlyStmtWatched (calls bound : Nat) : Parser Stmt := do
  let st ← stmtWatched halt calls bound
  if ← atEnd then return st else fail Kind.eof.describe

/-- The statements of an input, watched. -/
def bodyWatched (calls bound : Nat) : Mode → Parser (List Stmt)
  | .single => return [← onlyStmtWatched halt calls bound]
  | .repeated => stmtsWatched halt calls bound

end

/-! ## Runs that are the same -/

section
variable {α : Type} {p q : Parser α} {s : State}

theorem nested_congr_run (h : s.depth < s.limit → q s.down = p s.down) :
    nested q s = nested p s :=
  enter_bind_congr fun hlt => bind_congr_run (h hlt) fun _ _ _ => rfl

theorem whenFewer_run {halt : ∀ α : Type, Parser α} {bound : Nat}
    {p : (n : Nat) → n < bound → Parser α} (h : s.ahead.length < bound) :
    whenFewer halt bound p s = p s.ahead.length h s := by
  refine (bind_run (get_run s)).trans ?_
  rw [dif_pos h]

end

/-! ## Nothing halts -/

/-- Two ways to read operands do the same where at most `levels` levels are left and fewer than
    `tokens` tokens are ahead. -/
def SameOperands (q p : Level → Parser Expr) (levels tokens : Nat) : Prop :=
  ∀ (floor : Level) (s : State), s.levels ≤ levels → s.ahead.length < tokens →
    q floor s = p floor s

section
variable {q p : Level → Parser Expr} {levels tokens : Nat} {s : State}

theorem SameOperands.behind (h : SameOperands q p levels tokens) (hl : s.levels ≤ levels)
    (ht : s.ahead.length ≤ tokens) : SameBehind q p s := by
  intro floor s' hs hd hlen
  refine h floor s' ?_ (by omega)
  rwa [hs.levels hd]

variable {halt : ∀ α : Type, Parser α}

/-- Going on behind an expression never halts: every operator that is joined is a token fewer. -/
theorem climbWatched_run (h : SameOperands q p levels tokens) (hp : TakesOperands p)
    (floor : Level) {room bound : Nat} (left : Expr) (hl : s.levels ≤ levels)
    (ht : s.ahead.length ≤ tokens) (hroom : s.levels < room) (hbound : s.ahead.length < bound) :
    climbWatched halt q floor bound left s = climbBy p floor room left s := by
  induction room generalizing bound left s with
  | zero => exact absurd hroom (Nat.not_lt_zero _)
  | succ room ih =>
      rw [climbWatched, whenFewer_run hbound]
      unfold climbBy
      refine bind_congr_run rfl fun next s₁ hs₁ => ?_
      obtain ⟨hsame, hd, -, hlen⟩ := (joinAt?_takes floor s).of_ok hs₁
      have hl₁ : s₁.levels = s.levels := hsame.levels hd
      rcases next with _ | ⟨⟨⟩, binding⟩
      · rfl
      · refine nested_congr_run fun hlt => ?_
        have hpos : 0 < s₁.levels := Nat.sub_pos_of_lt hlt
        have hdown := s₁.levels_down
        have hbehind : SameBehind q p s₁.down :=
          h.behind (by omega) (by show s₁.ahead.length ≤ tokens; omega)
        have hjoined := joinedBy_congr_run hbehind left binding
        refine bind_congr_run hjoined fun joined s₂ hs₂ => ?_
        obtain ⟨hsame₂, hd₂, -, hlen₂⟩ := (joinedBy_takes hp left binding s₁.down).of_ok hs₂
        have hl₂ : s₂.levels = s₁.down.levels := hsame₂.levels hd₂
        have hahead : s₂.ahead.length + 1 ≤ s₁.ahead.length := hlen₂
        exact ih joined (by omega) (by omega) (by omega) (by omega)

/-- An expression never halts either: an operand that is read inside it has a token fewer ahead
    and a level less to spare. -/
theorem exprWatched_run {calls room bound : Nat} (floor : Level) (hcalls : s.levels < calls)
    (hroom : s.levels < room) (hbound : s.ahead.length < bound) :
    exprWatched halt calls bound floor s = exprWithin room floor s := by
  induction calls generalizing room bound floor s with
  | zero => exact absurd hcalls (Nat.not_lt_zero _)
  | succ calls ih =>
      obtain ⟨room, rfl⟩ := Nat.exists_eq_succ_of_ne_zero (Nat.ne_zero_of_lt hroom)
      unfold exprWatched exprWithin
      rw [whenFewer_run hbound]
      refine bind_congr_of_ok (current_run s) (bind_congr_of_ok (note_run _ s) ?_)
      refine nested_congr_run fun hlt => ?_
      -- The note changes neither the levels nor the tokens ahead.
      generalize hs₃ : State.down _ = s₃
      obtain ⟨hl₃, ha₃⟩ : s₃.levels = s.levels - 1 ∧ s₃.ahead = s.ahead := by
        subst hs₃
        exact ⟨s.levels_down, rfl⟩
      have hpos : 0 < s.levels := Nat.sub_pos_of_lt hlt
      have hoperands : SameOperands (exprWatched halt calls s.ahead.length) (exprWithin room)
          s₃.levels s.ahead.length :=
        fun floor' s' hl ht => ih floor' (by omega) (by omega) ht
      have hlen₃ : s₃.ahead.length ≤ s.ahead.length := Nat.le_of_eq (congrArg List.length ha₃)
      have hstart := startBy_congr_run (hoperands.behind (Nat.le_refl _) hlen₃)
      refine bind_congr_run hstart fun left s₄ hs₄ => ?_
      obtain ⟨hsame, hd, -, hlen⟩ := (startBy_takes (exprWithin_takes room) s₃).of_ok hs₄
      have hl₄ : s₄.levels = s₃.levels := hsame.levels hd
      rw [ha₃] at hlen
      exact climbWatched_run hoperands (exprWithin_takes room) floor left (by omega) (by omega)
        (by omega) (by omega)

end

section
variable {halt : ∀ α : Type, Parser α} {calls bound : Nat} {s : State}

/-- With a call for every level and one, the expressions that a reader begins are those that the
    watched reader begins. -/
theorem sameOperands_expr : SameOperands (exprWatched halt (calls + 1) bound) expr calls bound := by
  intro floor s hl hbound
  exact exprWatched_run floor (Nat.lt_succ_of_le hl) (Nat.lt_succ_self _) hbound

theorem stmtWatched_run (hl : s.levels ≤ calls) (ht : s.ahead.length < bound) :
    stmtWatched halt (calls + 1) bound s = stmt s := by
  have h := @sameOperands_expr halt calls bound
  rw [← stmtBy_expr]
  exact stmtBy_congr_run (h.behind hl (Nat.le_of_lt ht)) fun _ => h .lowest _ hl ht

/-- Reading statement by statement never halts: each of them is a token fewer at least. -/
theorem stmtsWatched_run {room : Nat} (hl : s.levels ≤ calls) (hroom : s.ahead.length ≤ room)
    (hbound : s.ahead.length < bound) :
    stmtsWatched halt (calls + 1) bound s = stmtsWithin room s := by
  induction room generalizing bound s with
  | zero =>
      have hempty : s.ahead = [] := List.length_eq_zero_iff.1 (Nat.le_zero.1 hroom)
      have hend : s.stream.current.kind = .eof := by
        rw [← s.frontKind_ahead, hempty, frontKind_nil]
      rw [stmtsWatched, whenFewer_run hbound]
      refine (bind_run (atEnd_run s)).trans ?_
      rw [decide_eq_true hend]
      rfl
  | succ room ih =>
      rw [stmtsWatched, whenFewer_run hbound]
      refine bind_congr_of_ok (atEnd_run s) ?_
      split
      · rfl
      · refine bind_congr_run (stmtWatched_run hl hbound) fun st s₂ hs₂ => ?_
        obtain ⟨hsame, hd, -, hlen⟩ := (stmt_takes s).of_ok hs₂
        have hl₂ : s₂.levels = s.levels := hsame.levels hd
        exact bind_congr_run (ih (by omega) (by omega) (by omega)) fun _ _ _ => rfl

theorem bodyWatched_run (mode : Mode) (hl : s.levels ≤ calls) (hbound : s.ahead.length < bound) :
    bodyWatched halt (calls + 1) bound mode s = body mode s := by
  cases mode with
  | single =>
      have honly : onlyStmtWatched halt (calls + 1) bound s = onlyStmt s :=
        bind_congr_run (stmtWatched_run hl hbound) fun _ _ _ => rfl
      exact bind_congr_run honly fun _ _ _ => rfl
  | repeated => exact stmtsWatched_run hl (Nat.le_refl _) hbound

end

end Parser

/-! ## Pieces -/

/-- Reading a piece, watched. -/
def Piece.parserWatched (halt : ∀ α : Type, Parser α) (calls bound : Nat) :
    (piece : Piece) → Parser piece.Value
  | expr floor => Parser.exprWatched halt calls bound floor
  | literal => Parser.literal
  | signed => Parser.signedBy (Parser.exprWatched halt calls bound)
  | grouped => Parser.groupedBy (Parser.exprWatched halt calls bound)
  | joined left binding => Parser.joinedBy (Parser.exprWatched halt calls bound) left binding
  | stmt => Parser.stmtWatched halt calls bound
  | assignment => Parser.assignmentBy (Parser.exprWatched halt calls bound .lowest)

theorem Piece.parserWatched_run (piece : Piece) {halt : ∀ α : Type, Parser α} {calls bound : Nat}
    {s : State} (hl : s.levels ≤ calls) (hbound : s.ahead.length < bound) :
    piece.parserWatched halt (calls + 1) bound s = piece.parser s := by
  have hexpr := @Parser.sameOperands_expr halt calls bound
  have hbehind := hexpr.behind hl (Nat.le_of_lt hbound)
  cases piece with
  | expr floor => exact hexpr floor s hl hbound
  | literal => rfl
  | signed => exact Parser.signedBy_congr_run hbehind
  | grouped => exact Parser.groupedBy_congr_run hbehind
  | joined left binding => exact Parser.joinedBy_congr_run hbehind left binding
  | stmt => exact Parser.stmtWatched_run hl hbound
  | assignment => exact Parser.assignmentBy_congr_run hbehind

/-- Reading halts nowhere, from any state at all: if as many expressions may be open at once as
    levels are left under the limit, and one more, then a watched parser of any piece, or of the
    statements of an input in any mode, ends just as the parser itself does, whatever it would do
    if it halted. More calls or a higher bound to start from change nothing. -/
theorem reading_halts_nowhere (halt : ∀ α : Type, Parser α) (s : State) (more above : Nat) :
    (∀ piece : Piece,
      piece.parserWatched halt (s.limit - s.depth + 1 + more) (s.ahead.length + 1 + above) s =
        piece.parser s) ∧
    ∀ mode : Mode,
      Parser.bodyWatched halt (s.limit - s.depth + 1 + more) (s.ahead.length + 1 + above) mode s =
        Parser.body mode s := by
  have hl : s.levels ≤ s.limit - s.depth + more := Nat.le_add_right _ more
  have hbound : s.ahead.length < s.ahead.length + 1 + above := by omega
  rw [Nat.add_right_comm (s.limit - s.depth) 1 more]
  exact ⟨fun piece => piece.parserWatched_run hl hbound,
    fun mode => Parser.bodyWatched_run mode hl hbound⟩

/-- With a call less than there are levels and one, `((7` does halt: the limit of one level lets
    the first parenthesis through, and the second expression is begun before it is refused. -/
example :
    (match (Piece.expr .lowest).parserWatched (fun _ => Parser.fail "a call") 1 4
        (.ofTokens [⟨.openParen, "(", ⟨0, 1⟩⟩, ⟨.openParen, "(", ⟨1, 2⟩⟩, ⟨.number, "7", ⟨2, 3⟩⟩]
          { maxDepth := 1 }) with
      | .ok _ _ => none
      | .error e _ => some e) = some (⟨.unexpectedToken "a call" "(", 1⟩) := by
  decide +kernel

end ArithLang
