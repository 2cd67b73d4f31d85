/-
  The levels of nesting are balanced.

  In `exprWithin` going down and coming up are one step, `nested`, around all that is a level
  further down. Here they are apart. An expression goes down where it begins and once more for
  each operator, and counts the operators; behind the last of them it comes up as many times as
  it counted, and once more for itself (`exprWithinCounted`).

  A count that is one too high would not show at depth zero, where coming up goes unnoticed. To
  see every time, the step `up` that comes up is left open, and so is `count`, which counts on.
  An `up` that is `leave` in states deeper than the one that reading begins in is enough, and a
  `count` that adds one to numbers below that of the tokens ahead: for these the run is the
  same. `climbCounted_run` carries it along the operators, whose levels are still held, and
  `exprWithinCounted_run` through the recursion. The room is that of `exprWithin`, and does not
  run out (`Proofs/Termination`).

  `Piece.levels_balanced`: read from any state, with any rules, a piece gives back the depth that
  it began at when it succeeds, and is never less deep on the way.
-/
import ArithLang.Proofs.Session

namespace ArithLang

namespace Parser

/-! ## Levels that are counted -/

section
variable (up : Parser Unit) (count : Nat → Nat)

/-- Comes up `n` times. -/
def upTimes : (n : Nat) → Parser Unit
  | 0 => return ()
  | n + 1 => do
      up
      upTimes n

/-- Comes up behind an expression, once for each of its operators and once for itself. -/
def release (e : Expr) (folds : Nat) : Parser Expr := do
  upTimes up (folds + 1)
  return e

/-- Everything that goes on behind an expression. For each operator it goes a level down, and
    does not come up again, but counts it; `folds` have been counted so far. -/
def climbCounted (operand : Level → Parser Expr) (floor : Level) (room folds : Nat)
    (left : Expr) : Parser (Expr × Nat) := do
  match ← joinAt? floor with
  | none => return (left, folds)
  | some (rule, binding) =>
      match room with
      | 0 => overLimit
      | room + 1 =>
          enter
          let joined ← joinBy operand left rule binding
          climbCounted operand floor room (count folds) joined

/-- An expression within some levels, which are given back all together. -/
def exprWithinCounted : (room : Nat) → (floor : Level) → Parser Expr
  | 0, _ => overLimit
  | room + 1, floor => do
      note (.expression floor (← current))
      enter
      let left ← startBy (exprWithinCounted room)
      let (e, folds) ← climbCounted count (exprWithinCounted room) floor room 0 left
      release up e folds

/-- An expression, with its levels counted. -/
def exprCounted (floor : Level) : Parser Expr := do
  let s ← get
  exprWithinCounted up count (s.limit - s.depth + 1) floor

end

/-! ## The same runs -/

section
variable {up : Parser Unit} {count : Nat → Nat} {base tokens : Nat} {s : State}

/-- One more level is given back first, if it is deep enough. -/
theorem release_succ (e : Expr) (folds : Nat) (h : up s = leave s) :
    release up e (folds + 1) s = (leave >>= fun _ => release up e folds) s := by
  show ((up >>= fun _ => upTimes up (folds + 1)) >>= fun _ => pure e) s = _
  rw [bind_assoc]
  exact bind_congr_run h fun _ _ _ => rfl

variable (hup : ∀ s, base < s.depth → up s = leave s) (hcount : ∀ n < tokens, count n = n + 1)
include hup hcount

/-- Behind `folds` operators whose levels are still held, to go on with the count and then to come
    up from all of them is to go on with one level inside the other and then to come up from
    these `folds`. An operator is a token, so there are more tokens than the count comes to. -/
theorem climbCounted_run {q p : Level → Parser Expr} (hp : TakesOperands p)
    (hq : ∀ floor s, base ≤ s.depth → s.ahead.length ≤ tokens → q floor s = p floor s)
    (floor : Level) (room folds : Nat) (left : Expr) (hd : base < s.depth)
    (ht : folds + s.ahead.length < tokens) :
    (climbCounted count q floor room folds left >>= fun r => release up r.1 r.2) s =
      (climbBy p floor room left >>= fun e => release up e folds) s := by
  induction room generalizing folds left s with
  | zero =>
      unfold climbCounted climbBy
      rw [bind_assoc, bind_assoc]
      refine bind_congr_run rfl fun next s₁ _ => ?_
      rcases next with _ | next <;> rfl
  | succ room ih =>
      unfold climbCounted climbBy
      rw [bind_assoc, bind_assoc]
      refine bind_congr_run rfl fun next s₁ hs₁ => ?_
      obtain ⟨-, hd₁, -, hlen₁⟩ := (joinAt?_takes floor s).of_ok hs₁
      rcases next with _ | ⟨⟨⟩, binding⟩
      · rfl
      · simp only [nested, bind_assoc]
        refine enter_bind_congr fun _ => ?_
        have hbehind : SameBehind q p s₁.down := by
          rintro floor' s' - (hd' : s'.depth = s₁.depth + 1)
            (hlen' : s'.ahead.length < s₁.ahead.length)
          exact hq floor' s' (by omega) (by omega)
        refine bind_congr_run (joinedBy_congr_run hbehind left binding) fun joined s₂ hs₂ => ?_
        obtain ⟨-, hdepth, -, hlen₂⟩ := (joinedBy_takes hp left binding s₁.down).of_ok hs₂
        have hd₂ : s₂.depth = s₁.depth + 1 := hdepth
        have ha₂ : s₂.ahead.length + 1 ≤ s₁.ahead.length := hlen₂
        rw [hcount folds (by omega), ih (folds + 1) joined (by omega) (by omega)]
        -- The operator's level is still held here: it is the one more to come up from.
        refine bind_congr_run rfl fun e s₃ hs₃ => ?_
        obtain ⟨-, hd₃, -, -⟩ := (climbBy_takes hp floor room joined s₂).of_ok hs₃
        exact release_succ e folds (hup s₃ (by omega))

/-- An expression is read the same with its levels counted. -/
theorem exprWithinCounted_run (room : Nat) (floor : Level) (hd : base ≤ s.depth)
    (ht : s.ahead.length ≤ tokens) :
    exprWithinCounted up count room floor s = exprWithin room floor s := by
  induction room generalizing floor s with
  | zero => rfl
  | succ room ih =>
      refine bind_congr_of_ok (current_run s) (bind_congr_of_ok (note_run _ s) ?_)
      -- The note changes neither the depth nor the tokens ahead.
      generalize hs₁ : { s with log := _ } = s₁
      obtain ⟨hd₁, ha₁⟩ : s₁.depth = s.depth ∧ s₁.ahead = s.ahead := by
        subst hs₁
        exact ⟨rfl, rfl⟩
      rw [← hd₁] at hd
      rw [← ha₁] at ht
      unfold nested
      refine enter_bind_congr fun _ => ?_
      rw [bind_assoc]
      have hbehind : SameBehind (exprWithinCounted up count room) (exprWithin room) s₁.down := by
        rintro floor' s' - (hd' : s'.depth = s₁.depth + 1)
          (hlen' : s'.ahead.length < s₁.ahead.length)
        exact ih floor' (by omega) (by omega)
      refine bind_congr_run (startBy_congr_run hbehind) fun left s₂ hs₂ => ?_
      obtain ⟨-, hdepth, -, hlen₂⟩ := (startBy_takes (exprWithin_takes room) s₁.down).of_ok hs₂
      have hd₂ : s₂.depth = s₁.depth + 1 := hdepth
      have ha₂ : s₂.ahead.length + 1 ≤ s₁.ahead.length := hlen₂
      have hclimb := climbCounted_run hup hcount (s := s₂) (exprWithin_takes room)
        (fun floor' _ hd' ht' => ih floor' hd' ht') floor room 0 left (by omega) (by omega)
      refine hclimb.trans (bind_congr_run rfl fun e s₃ hs₃ => ?_)
      obtain ⟨-, hd₃, -, -⟩ := (climbBy_takes (exprWithin_takes room) floor room left s₂).of_ok hs₃
      -- One level is left to come up from, the expression's own.
      show ((up >>= fun _ => pure ()) >>= fun _ => pure e) s₃ = _
      rw [bind_assoc]
      exact bind_congr_run (hup s₃ (by omega)) fun _ _ _ => rfl

theorem exprCounted_run (floor : Level) (hd : base ≤ s.depth) (ht : s.ahead.length ≤ tokens) :
    exprCounted up count floor s = expr floor s := by
  refine bind_congr_of_ok (get_run s) ?_
  exact exprWithinCounted_run hup hcount _ floor hd ht

end

end Parser

/-! ## Pieces -/

/-- Reading a piece, with the levels counted, `up` for coming up and `count` for counting on. -/
def Piece.parserCounted (up : Parser Unit) (count : Nat → Nat) :
    (piece : Piece) → Parser piece.Value
  | expr floor => Parser.exprCounted up count floor
  | literal => Parser.literal
  | signed => Parser.signedBy (Parser.exprCounted up count)
  | grouped => Parser.groupedBy (Parser.exprCounted up count)
  | joined left binding => Parser.joinedBy (Parser.exprCounted up count) left binding
  | stmt => Parser.stmtBy (Parser.exprCounted up count .lowest)
  | assignment => Parser.assignmentBy (Parser.exprCounted up count .lowest)

/-- A piece is read the same with its levels counted, however it would come up at the depth that
    it begins at or above it, and however it would count beyond the tokens ahead. -/
theorem Piece.parserCounted_run (piece : Piece) {up : Parser Unit} {count : Nat → Nat} {s : State}
    (hup : ∀ s', s.depth < s'.depth → up s' = Parser.leave s')
    (hcount : ∀ n < s.ahead.length, count n = n + 1) :
    piece.parserCounted up count s = piece.parser s := by
  have hexpr (floor : Level) (s' : State) (hd : s'.depth = s.depth)
      (ht : s'.ahead.length ≤ s.ahead.length) :
      Parser.exprCounted up count floor s' = Parser.expr floor s' :=
    Parser.exprCounted_run hup hcount floor (Nat.le_of_eq hd.symm) ht
  have hbehind : Parser.SameBehind (Parser.exprCounted up count) Parser.expr s :=
    fun floor s' _ hd hlen => hexpr floor s' hd (Nat.le_of_lt hlen)
  cases piece with
  | expr floor => exact hexpr floor s rfl (Nat.le_refl _)
  | literal => rfl
  | signed => exact Parser.signedBy_congr_run hbehind
  | grouped => exact Parser.groupedBy_congr_run hbehind
  | joined left binding => exact Parser.joinedBy_congr_run hbehind left binding
  | stmt =>
      exact Parser.stmtBy_congr_run hbehind fun _ => hexpr .lowest _ rfl (Nat.le_refl _)
  | assignment => exact Parser.assignmentBy_congr_run hbehind

/-- Counted as it should be, a piece is read as it is. -/
theorem Piece.parserCounted_leave (piece : Piece) :
    piece.parserCounted Parser.leave (· + 1) = piece.parser := by
  funext s
  exact piece.parserCounted_run (fun _ _ => rfl) fun _ _ => rfl

/-- Reading a piece with its levels counted, from any state at all, gives back the depth when it
    succeeds, leaves the tables alone and takes a token at least. Whether it succeeds or fails, it
    comes up only from deeper than it began, so that coming up never finds the depth at zero, and
    the count stays below the number of tokens ahead. -/
theorem Piece.levels_balanced (piece : Piece) (s : State) :
    (∀ a s', piece.parserCounted Parser.leave (· + 1) s = .ok a s' →
      s'.depth = s.depth ∧ s'.rules = s.rules ∧
        ∃ used, used ≠ [] ∧ s.stream.toList = used ++ s'.stream.toList) ∧
    (∀ e s', piece.parserCounted Parser.leave (· + 1) s = .error e s' → s.depth ≤ s'.depth) ∧
    ∀ (up : Parser Unit) (count : Nat → Nat),
      (∀ s', s.depth < s'.depth → up s' = Parser.leave s') →
      (∀ n < s.ahead.length, count n = n + 1) →
      piece.parserCounted up count s = piece.parserCounted Parser.leave (· + 1) s ∧
        piece.parserCounted up count s = piece.parser s := by
  rw [piece.parserCounted_leave]
  refine ⟨fun a s' hp => ?_, fun e s' hp => ?_, fun up count hup hcount => ?_⟩
  · obtain ⟨hs, hd, -, hlen⟩ := (piece.takes s).of_ok hp
    obtain ⟨used, hused⟩ := ((piece.takes s).sound.ok a s' hp).exists_used
    refine ⟨hd, hs.rules, used, ?_, hused⟩
    rintro rfl
    have hlen' : s.ahead.length = s'.ahead.length := by
      simpa [Stream.toList] using congrArg List.length hused
    omega
  · obtain ⟨-, hd, -, -⟩ := (piece.takes s).of_error hp
    exact hd
  · have hrun := piece.parserCounted_run hup hcount
    exact ⟨hrun, hrun⟩

/-- A count that is one too high comes up from depth zero behind `1+2`. -/
example :
    (match (Piece.expr .lowest).parserCounted
        (fun s => if s.depth = 0 then Parser.fail "a level" s else Parser.leave s) (· + 2)
        (.ofTokens [⟨.number, "1", ⟨0, 1⟩⟩, ⟨.plus, "+", ⟨1, 2⟩⟩, ⟨.number, "2", ⟨2, 3⟩⟩] {}) with
      | .ok _ _ => none
      | .error e s => some (e, s.depth)) = some (⟨.unexpectedEnd "a level", 3⟩, 0) := by
  decide +kernel

end ArithLang
