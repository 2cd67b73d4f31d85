/-
  What reading does to a state, whatever its rules say.

  `Proofs/Run` follows the parsers under the rules of the language. Here the tables are open:
  a way to start or to go on may be registered for any kind, fitting or not, and the limit may
  be passed already. `Takes n` is what remains true: the limit, the rules and the end mark stay,
  the depth is given back on success, at least `n` tokens are taken off the front, and a failure
  is a fault met in front of the current token.

  A missing operator is a fault of the tables, not of the tokens: it takes a kind that binds and
  has no way to go on. Tables that are `Paired` have none.

  Every rule takes a token before it reads an operand. So a rule over one way to read operands
  runs as it does over another one if both do the same behind a token that was taken, at the same
  depth (`SameBehind`).
-/
import ArithLang.Proofs.Run
import ArithLang.Stmt.Parser

namespace ArithLang

/-! ## Tables over the same kinds -/

/-- The kinds that bind are the kinds at which an expression goes on. -/
def Rules.Paired (r : Rules) : Prop := ∀ kind, (r.binding? kind).isSome = (r.join? kind).isSome

namespace Rules

theorem paired_standard (powers : Associativity) : (standard powers).Paired := by
  intro kind
  simp only [standard, Option.isSome_map]

variable {r : Rules}

theorem Paired.setStart (h : r.Paired) (kind : Kind) (rule : StartRule) :
    (r.setStart kind rule).Paired := h

theorem Paired.setJoin (h : r.Paired) (kind : Kind) (binding : Binding) (rule : JoinRule) :
    (r.setJoin kind binding rule).Paired := by
  intro k
  simp only [Rules.setJoin]
  split
  · rfl
  · exact h k

theorem Paired.ne_none (h : r.Paired) {kind : Kind} {binding : Binding}
    (hb : r.binding? kind = some binding) : r.join? kind ≠ none := by
  have hk := h kind
  rw [hb] at hk
  exact Option.isSome_iff_ne_none.1 hk.symm

end Rules

theorem Kind.describe_ne_operator (kind : Kind) : kind.describe ≠ "operator" := by
  cases kind <;> decide

namespace Parser

/-! ## Parsers that take tokens -/

section
variable {α β : Type}

/-- Started in `s`, the parser takes at least `n` tokens, or fails at one that it meets; it
    misses an operator only where the tables differ. -/
def Takes (n : Nat) (p : Parser α) (s : State) : Prop :=
  p.Obeys s (fun _ rest => rest <:+ s.ahead ∧ rest.length + n ≤ s.ahead.length)
    (fun fault rest => rest <:+ s.ahead ∧ (s.rules.Paired → fault ≠ .missing "operator"))

variable {p : Parser α} {f : α → Parser β} {s s' : State} {a : α} {m n : Nat}

/-- What a parser that takes tokens has done when it succeeds. -/
theorem Takes.of_ok (h : p.Takes n s) (hp : p s = .ok a s') :
    s.Same s' ∧ s'.depth = s.depth ∧ s'.ahead <:+ s.ahead ∧
      s'.ahead.length + n ≤ s.ahead.length := by
  unfold Takes Obeys at h
  rw [hp] at h
  exact h

/-- What a parser that takes tokens has done when it fails. -/
theorem Takes.of_error {e : ParseError} (h : p.Takes n s) (hp : p s = .error e s') :
    s.Same s' ∧ s.depth ≤ s'.depth ∧ s'.ahead <:+ s.ahead ∧
      ∃ fault : Fault, e = fault.error s' ∧ (s.rules.Paired → fault ≠ .missing "operator") := by
  unfold Takes Obeys at h
  rw [hp] at h
  obtain ⟨hs, hd, fault, ⟨hsuffix, hne⟩, he⟩ := h
  exact ⟨hs, hd, hsuffix, fault, he, hne⟩

theorem Takes.zero (h : p.Takes n s) : p.Takes 0 s :=
  Obeys.mono h (fun _ _ hr => ⟨hr.1, hr.1.length_le⟩) fun _ _ hf => hf

/-- What two parsers take, one behind the other. -/
theorem Takes.bind_add (h : p.Takes m s) (hf : ∀ a s', (f a).Takes n s') :
    (p >>= f).Takes (m + n) s := by
  refine Obeys.bind h (fun a s' hs _ hr => ?_) fun _ _ hb => hb
  refine Obeys.mono (hf a s') (fun _ rest hr' => ?_) (fun fault rest hb => ?_)
  · refine ⟨hr'.1.trans hr.1, ?_⟩
    have hm := hr.2
    have hn := hr'.2
    omega
  · refine ⟨hb.1.trans hr.1, fun hpaired => hb.2 ?_⟩
    rw [hs.rules]
    exact hpaired

/-- It is enough if the first parser takes the tokens. -/
theorem Takes.bind (h : p.Takes n s) (hf : ∀ a s', (f a).Takes 0 s') : (p >>= f).Takes n s :=
  h.bind_add hf

/-- It is enough if the second parser takes the tokens. -/
theorem Takes.bind_later (h : p.Takes 0 s) (hf : ∀ a s', (f a).Takes n s') :
    (p >>= f).Takes n s :=
  Nat.zero_add n ▸ h.bind_add hf

theorem takes_pure (a : α) (s : State) : (pure a : Parser α).Takes 0 s :=
  obeys_pure ⟨List.suffix_rfl, Nat.le_refl _⟩

theorem takes_of_error (fault : Fault) (hp : p s = .error (fault.error s) s)
    (h : s.rules.Paired → fault ≠ .missing "operator") : p.Takes n s :=
  obeys_of_error fault hp ⟨List.suffix_rfl, h⟩

theorem fail_takes {expected : String} (n : Nat) (s : State) (h : expected ≠ "operator") :
    (fail expected : Parser α).Takes n s := by
  refine takes_of_error (.missing expected) (fail_run expected s) fun _ heq => h ?_
  injection heq

theorem overLimit_takes (n : Nat) (s : State) : (overLimit : Parser α).Takes n s :=
  takes_of_error .tooDeep (overLimit_run s) fun _ => by simp

theorem advance_takes (s : State) : advance.Takes 0 s :=
  obeys_of_ok (advance_run s) ⟨rfl, rfl, rfl⟩ rfl
    ⟨List.tail_suffix _, (List.tail_suffix s.ahead).length_le⟩

/-- In front of anything but an end mark, moving on takes a token. -/
theorem advance_takes_one (h : s.stream.current.kind ≠ .eof) : advance.Takes 1 s := by
  refine obeys_of_ok (advance_run s) ⟨rfl, rfl, rfl⟩ rfl ⟨List.tail_suffix _, ?_⟩
  rw [State.ahead_eq_cons h]
  exact Nat.le_refl _

theorem expect_takes (kind : Kind) (s : State) : (expect kind).Takes 0 s := by
  refine Obeys.after (current_run s) (.refl s) rfl ?_
  split
  · exact advance_takes s
  · exact fail_takes 0 s kind.describe_ne_operator

theorem expect_takes_one {kind : Kind} (hk : kind ≠ .eof) (s : State) :
    (expect kind).Takes 1 s := by
  refine Obeys.after (current_run s) (.refl s) rfl ?_
  split
  · next h => exact advance_takes_one (h ▸ hk)
  · exact fail_takes 1 s kind.describe_ne_operator

theorem note_takes (r : Record) (s : State) : (note r).Takes 0 s :=
  obeys_of_ok (note_run r s) ⟨rfl, rfl, rfl⟩ rfl ⟨List.suffix_rfl, Nat.le_refl _⟩

theorem nested_takes (h : p.Takes n s.down) : (nested p).Takes n s := by
  rcases Nat.eq_zero_or_pos s.levels with hk | hk
  · exact nested_obeys_of_no_level hk ⟨List.suffix_rfl, fun _ => by simp⟩
  · exact nested_obeys hk h

end

/-! ## Expressions -/

/-- `operand` takes a token at every floor, from every state. -/
def TakesOperands (operand : Level → Parser Expr) : Prop :=
  ∀ (floor : Level) (s : State), (operand floor).Takes 1 s

variable {operand : Level → Parser Expr}

theorem literal_takes (s : State) : literal.Takes 1 s := by
  refine Obeys.after (current_run s) (.refl s) rfl ?_
  have htake (build : Token → Expr) (h : s.stream.current.kind ≠ .eof) :
      (advance >>= fun t => return build t).Takes 1 s :=
    (advance_takes_one h).bind fun t s' => takes_pure (build t) s'
  cases hk : s.stream.current.kind
  case number => exact htake _ (by simp [hk])
  case identifier => exact htake _ (by simp [hk])
  all_goals exact fail_takes 1 s (by decide)

theorem signedBy_takes (he : TakesOperands operand) (s : State) :
    (signedBy operand).Takes 1 s := by
  refine Obeys.after (current_run s) (.refl s) rfl ?_
  cases hop : UnaryOp.ofKind? s.stream.current.kind with
  | none => exact fail_takes 1 s (by decide)
  | some op =>
      refine (advance_takes_one (UnaryOp.ne_eof_of_ofKind? hop)).bind fun _ s₁ => ?_
      exact (he .unary s₁).zero.bind fun _ s₂ => takes_pure _ s₂

theorem groupedBy_takes (he : TakesOperands operand) (s : State) :
    (groupedBy operand).Takes 1 s := by
  refine (expect_takes_one (by decide) s).bind fun _ s₁ => ?_
  refine (he .lowest s₁).zero.bind fun _ s₂ => ?_
  exact (expect_takes .closeParen s₂).bind fun _ s₃ => takes_pure _ s₃

theorem joinedBy_takes (he : TakesOperands operand) (left : Expr) (binding : Binding)
    (s : State) : (joinedBy operand left binding).Takes 1 s := by
  refine Obeys.after (current_run s) (.refl s) rfl ?_
  cases hop : BinaryOp.ofKind? s.stream.current.kind with
  | none => exact fail_takes 1 s (by decide)
  | some op =>
      refine (advance_takes_one (BinaryOp.ne_eof_of_ofKind? hop)).bind fun _ s₁ => ?_
      exact (he binding.operandFloor s₁).zero.bind fun _ s₂ => takes_pure _ s₂

theorem startBy_takes (he : TakesOperands operand) (s : State) : (startBy operand).Takes 1 s := by
  refine Obeys.after (get_run s) (.refl s) rfl ?_
  cases s.rules.start? s.stream.current.kind with
  | none => exact fail_takes 1 s (by decide)
  | some rule =>
      cases rule with
      | literal => exact literal_takes s
      | sign => exact signedBy_takes he s
      | group => exact groupedBy_takes he s

theorem joinAt?_takes (floor : Level) (s : State) : (joinAt? floor).Takes 0 s := by
  refine Obeys.after (get_run s) (.refl s) rfl ?_
  cases hb : s.rules.binding? s.stream.current.kind with
  | none => exact takes_pure none s
  | some binding =>
      show Takes 0 (if _ then _ else _) s
      split
      · exact takes_pure none s
      · cases hj : s.rules.join? s.stream.current.kind with
        | none =>
            -- Only tables that differ come here.
            exact takes_of_error (.missing "operator") (fail_run _ s)
              fun hpaired => absurd hj (hpaired.ne_none hb)
        | some rule => exact takes_pure _ s

theorem climbBy_takes (he : TakesOperands operand) (floor : Level) (room : Nat) (left : Expr)
    (s : State) : (climbBy operand floor room left).Takes 0 s := by
  induction room generalizing left s with
  | zero =>
      unfold climbBy
      refine (joinAt?_takes floor s).bind fun next s₁ => ?_
      rcases next with _ | next
      · exact takes_pure left s₁
      · exact overLimit_takes 0 s₁
  | succ room ih =>
      unfold climbBy
      refine (joinAt?_takes floor s).bind fun next s₁ => ?_
      rcases next with _ | ⟨⟨⟩, binding⟩
      · exact takes_pure left s₁
      · apply nested_takes
        exact (joinedBy_takes he left binding s₁.down).zero.bind fun joined s₂ => ih joined s₂

theorem exprWithin_takes (room : Nat) : TakesOperands (exprWithin room) := by
  induction room with
  | zero => exact fun floor s => overLimit_takes 1 s
  | succ room ih =>
      intro floor s
      refine Obeys.after (current_run s) (.refl s) rfl ?_
      refine (note_takes _ s).bind_later fun _ s₁ => nested_takes ?_
      exact (startBy_takes ih s₁.down).bind fun left s₂ => climbBy_takes ih floor room left s₂

theorem expr_takes : TakesOperands expr := by
  intro floor s
  refine Obeys.after (get_run s) (.refl s) rfl ?_
  exact exprWithin_takes _ floor s

/-! ## Statements -/

theorem assignment_takes (s : State) : assignment.Takes 1 s := by
  refine (expect_takes_one (by decide) s).bind fun _ s₁ => ?_
  refine (expect_takes .assignment s₁).bind fun _ s₂ => ?_
  exact (expr_takes .lowest s₂).zero.bind fun _ s₃ => takes_pure _ s₃

theorem stmt_takes (s : State) : stmt.Takes 1 s := by
  refine Obeys.after (current_run s) (.refl s) rfl ?_
  refine (note_takes _ s).bind_later fun _ s₁ => ?_
  refine Obeys.after (peek_run 1 s₁) (.refl s₁) rfl ?_
  split
  · exact assignment_takes s₁
  · exact (expr_takes .lowest s₁).bind fun _ s₂ => takes_pure _ s₂

/-- An assignment of the value that `value` reads. -/
def assignmentBy (value : Parser Expr) : Parser Stmt := do
  let target ← expect .identifier
  let _ ← expect .assignment
  let v ← value
  return .assignment target.text target.span v (.cover target.span v.span)

/-- A statement over a way to read its expression. -/
def stmtBy (expr : Parser Expr) : Parser Stmt := do
  let next ← current
  note (.statement next)
  if next.kind = .identifier ∧ (← peek 1) = .assignment then
    assignmentBy expr
  else
    let e ← expr
    return .expression e e.span

theorem stmtBy_expr : stmtBy (expr .lowest) = stmt := rfl

/-! ## Rules over operands that are read the same -/

/-- Behind a token taken from `s`, at the same depth, two ways to read operands do the same. -/
def SameBehind (q p : Level → Parser Expr) (s : State) : Prop :=
  ∀ (floor : Level) (s' : State), s.Same s' → s'.depth = s.depth →
    s'.ahead.length < s.ahead.length → q floor s' = p floor s'

section
variable {q p : Level → Parser Expr} {s : State}

theorem SameBehind.after (h : SameBehind q p s) {α : Type} {first : Parser α}
    (htakes : first.Takes 1 s) (floor : Level) {a : α} {s' : State} (hrun : first s = .ok a s') :
    q floor s' = p floor s' := by
  obtain ⟨hs, hd, -, hlen⟩ := htakes.of_ok hrun
  exact h floor s' hs hd (by omega)

theorem signedBy_congr_run (h : SameBehind q p s) : signedBy q s = signedBy p s := by
  refine bind_congr_of_ok (current_run s) ?_
  cases hop : UnaryOp.ofKind? s.stream.current.kind with
  | none => rfl
  | some op =>
      have htakes := advance_takes_one (UnaryOp.ne_eof_of_ofKind? hop)
      have hoperand := h.after htakes .unary (advance_run s)
      exact bind_congr_of_ok (advance_run s) (bind_congr_run hoperand fun _ _ _ => rfl)

theorem groupedBy_congr_run (h : SameBehind q p s) : groupedBy q s = groupedBy p s := by
  refine bind_congr_run rfl fun opening s₁ hs₁ => ?_
  have htakes : (expect .openParen).Takes 1 s := expect_takes_one (by decide) s
  exact bind_congr_run (h.after htakes .lowest hs₁) fun _ _ _ => rfl

theorem joinedBy_congr_run (h : SameBehind q p s) (left : Expr) (binding : Binding) :
    joinedBy q left binding s = joinedBy p left binding s := by
  refine bind_congr_of_ok (current_run s) ?_
  cases hop : BinaryOp.ofKind? s.stream.current.kind with
  | none => rfl
  | some op =>
      have htakes := advance_takes_one (BinaryOp.ne_eof_of_ofKind? hop)
      have hoperand := h.after htakes binding.operandFloor (advance_run s)
      exact bind_congr_of_ok (advance_run s) (bind_congr_run hoperand fun _ _ _ => rfl)

theorem startBy_congr_run (h : SameBehind q p s) : startBy q s = startBy p s := by
  refine bind_congr_of_ok (get_run s) ?_
  cases s.rules.start? s.stream.current.kind with
  | none => rfl
  | some rule =>
      cases rule with
      | literal => rfl
      | sign => exact signedBy_congr_run h
      | group => exact groupedBy_congr_run h

theorem assignmentBy_congr_run (h : SameBehind q p s) :
    assignmentBy (q .lowest) s = assignmentBy (p .lowest) s := by
  refine bind_congr_run rfl fun target s₁ hs₁ => ?_
  refine bind_congr_run rfl fun _ s₂ hs₂ => ?_
  have htakes : (expect .identifier).Takes 1 s := expect_takes_one (by decide) s
  obtain ⟨hsame₁, hd₁, -, hlen₁⟩ := htakes.of_ok hs₁
  obtain ⟨hsame₂, hd₂, -, hlen₂⟩ := (expect_takes .assignment s₁).of_ok hs₂
  have hvalue := h .lowest s₂ (hsame₁.trans hsame₂) (hd₂.trans hd₁) (by omega)
  exact bind_congr_run hvalue fun _ _ _ => rfl

/-- The expression of a statement may begin at its first token, with nothing but a note taken. -/
theorem stmtBy_congr_run (h : SameBehind q p s)
    (hfirst : ∀ log, q .lowest { s with log := log } = p .lowest { s with log := log }) :
    stmtBy (q .lowest) s = stmtBy (p .lowest) s := by
  refine bind_congr_of_ok (current_run s) (bind_congr_of_ok (note_run _ s) ?_)
  refine bind_congr_of_ok (peek_run 1 _) ?_
  split
  · apply assignmentBy_congr_run
    exact fun floor s' hs hd hlen => h floor s' ⟨hs.final, hs.limit, hs.rules⟩ hd hlen
  · exact bind_congr_run (hfirst _) fun _ _ _ => rfl

end

end Parser

end ArithLang
