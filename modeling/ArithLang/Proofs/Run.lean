/-
  The parser of expressions follows the rules of reading.

  `exprWithin_follows`: started in a state with the rules of the language, `exprWithin` ends
  where a derivation of `Reads` or of `Fails` ends, with as many levels to spare as the state
  has under its limit. The budget of its recursion only has to cover these levels.

  Each rule of the parser has one statement, about any parser of operands that follows the
  rules itself. All of them have the form `Obeys`: a parser leaves the limit, the rules and the
  end mark alone, gives the depth back when it succeeds and is no higher up when it fails, and of
  the tokens ahead leaves those that a relation allows.
-/
import ArithLang.Proofs.Derivation
import ArithLang.Expr.Parser

namespace ArithLang

namespace State

/-- The levels of nesting left under the limit. -/
def levels (s : State) : Nat := s.limit - s.depth

/-- The tokens ahead, the end mark left out. -/
abbrev ahead (s : State) : List Token := s.stream.pending

/-- The state one level further down. -/
abbrev down (s : State) : State := { s with depth := s.depth + 1 }

/-- The state behind the current token. -/
abbrev next (s : State) : State := { s with stream := s.stream.next }

/-- What no parser changes. -/
structure Same (s s' : State) : Prop where
  final : s'.stream.final = s.stream.final
  limit : s'.limit = s.limit
  rules : s'.rules = s.rules

theorem Same.refl (s : State) : s.Same s := ⟨rfl, rfl, rfl⟩

theorem Same.trans {s s' s'' : State} (h : s.Same s') (h' : s'.Same s'') : s.Same s'' :=
  ⟨h'.final.trans h.final, h'.limit.trans h.limit, h'.rules.trans h.rules⟩

theorem Same.levels {s s' : State} (h : s.Same s') (hd : s'.depth = s.depth) :
    s'.levels = s.levels := by
  unfold State.levels
  rw [h.limit, hd]

theorem levels_down (s : State) : s.down.levels = s.levels - 1 := by
  simp only [levels]
  omega

theorem frontKind_ahead (s : State) : frontKind s.ahead = s.stream.current.kind := by
  obtain ⟨⟨pending, final, hf⟩, depth, limit, rules, log⟩ := s
  cases pending with
  | nil => exact hf.symm
  | cons t ts => rfl

/-- A current token that marks no end is taken off the tokens ahead. -/
theorem ahead_eq_cons {s : State} (h : s.stream.current.kind ≠ .eof) :
    s.ahead = s.stream.current :: s.next.ahead := by
  obtain ⟨⟨pending, final, hf⟩, depth, limit, rules, log⟩ := s
  cases pending with
  | nil => exact absurd hf h
  | cons t ts => rfl

end State

/-- The error of a fault that is met in front of a token. -/
def Fault.errorAt (limit : Nat) (t : Token) : Fault → ParseError
  | .tooDeep => ⟨.tooComplex limit, t.span.start⟩
  | .missing expected =>
      ⟨if t.kind = .eof then .unexpectedEnd expected else .unexpectedToken expected t.text,
        t.span.start⟩

@[simp] theorem Fault.position_errorAt (limit : Nat) (t : Token) (f : Fault) :
    (f.errorAt limit t).position = t.span.start := by
  cases f <;> rfl

/-- The error of a fault that is met in the given state. -/
abbrev Fault.error (s : State) (f : Fault) : ParseError := f.errorAt s.limit s.stream.current

namespace Parser

/-! ## Parsers that obey relations -/

section
variable {α β : Type}

/-- Started in `s`, the parser comes to a value and the tokens that `reads` relates to it, or
    meets a fault in front of the tokens that `fails` relates to it. -/
def Obeys (p : Parser α) (s : State) (reads : α → List Token → Prop)
    (fails : Fault → List Token → Prop) : Prop :=
  match p s with
  | .ok a s' => s.Same s' ∧ s'.depth = s.depth ∧ reads a s'.ahead
  | .error e s' => s.Same s' ∧ s.depth ≤ s'.depth ∧ ∃ f, fails f s'.ahead ∧ e = f.error s'

variable {p : Parser α} {f : α → Parser β} {s s' : State} {a : α}
  {reads : α → List Token → Prop} {reads' : β → List Token → Prop}
  {fails fails' : Fault → List Token → Prop}

theorem get_run (s : State) : (get : Parser State) s = .ok s s := rfl

theorem bind_run (hp : p s = .ok a s') : (p >>= f) s = f a s' := by
  show EStateM.bind p f s = _
  unfold EStateM.bind
  rw [hp]

theorem bind_run_error {e : ParseError} (hp : p s = .error e s') :
    (p >>= f) s = .error e s' := by
  show EStateM.bind p f s = _
  unfold EStateM.bind
  rw [hp]

/-- Steps that do the same are gone on with alike if what follows does the same. -/
theorem bind_congr_run {q : Parser α} {g : α → Parser β} (h : q s = p s)
    (hf : ∀ a s', p s = .ok a s' → g a s' = f a s') : (q >>= g) s = (p >>= f) s := by
  cases hp : p s with
  | ok a s' => rw [bind_run (h.trans hp), bind_run hp, hf a s' hp]
  | error e s' => rw [bind_run_error (h.trans hp), bind_run_error hp]

/-- A step that succeeds on the spot can be taken first. -/
theorem bind_congr_of_ok {g : α → Parser β} (hp : p s = .ok a s') (h : g a s' = f a s') :
    (p >>= g) s = (p >>= f) s := by
  rw [bind_run hp, bind_run hp, h]

/-- On the way down only what follows a level further down has to be the same. -/
theorem enter_bind_congr {f g : Unit → Parser β} (h : s.depth < s.limit → g () s.down = f () s.down) :
    (enter >>= g) s = (enter >>= f) s := by
  by_cases hlt : s.depth < s.limit
  · exact bind_congr_of_ok (enter_run_of_lt hlt) (h hlt)
  · have hrun := enter_run_of_le (Nat.not_lt.1 hlt)
    rw [bind_run_error hrun, bind_run_error hrun]

/-- A run that comes to a value ends in some state. -/
theorem exists_ok_of_run' (h : p.run' s = some a) : ∃ s', p s = .ok a s' := by
  unfold EStateM.run' EStateM.run at h
  cases hp : p s with
  | ok a' s' =>
      rw [hp] at h
      exact ⟨s', Option.some.inj h ▸ rfl⟩
  | error e s' =>
      rw [hp] at h
      cases h

theorem obeys_of_ok (hp : p s = .ok a s') (hs : s.Same s') (hd : s'.depth = s.depth)
    (h : reads a s'.ahead) : p.Obeys s reads fails := by
  unfold Obeys
  rw [hp]
  exact ⟨hs, hd, h⟩

/-- A fault that is met on the spot. -/
theorem obeys_of_error (fault : Fault) (hp : p s = .error (fault.error s) s)
    (h : fails fault s.ahead) : p.Obeys s reads fails := by
  unfold Obeys
  rw [hp]
  exact ⟨.refl s, Nat.le_refl _, fault, h, rfl⟩

theorem obeys_pure (h : reads a s.ahead) : (pure a : Parser α).Obeys s reads fails :=
  obeys_of_ok rfl (.refl s) rfl h

/-- A parser that succeeds on the spot can be run first. -/
theorem Obeys.after (hp : p s = .ok a s') (hs : s.Same s') (hd : s'.depth = s.depth)
    (h : (f a).Obeys s' reads' fails') : (p >>= f).Obeys s reads' fails' := by
  unfold Obeys at h ⊢
  rw [bind_run hp]
  cases hf : f a s' with
  | ok c s'' =>
      rw [hf] at h
      exact ⟨hs.trans h.1, h.2.1.trans hd, h.2.2⟩
  | error e s'' =>
      rw [hf] at h
      exact ⟨hs.trans h.1, hd ▸ h.2.1, h.2.2⟩

theorem Obeys.bind (h : p.Obeys s reads fails)
    (hg : ∀ a s', s.Same s' → s'.depth = s.depth → reads a s'.ahead →
      (f a).Obeys s' reads' fails')
    (hb : ∀ fault rest, fails fault rest → fails' fault rest) :
    (p >>= f).Obeys s reads' fails' := by
  cases hp : p s with
  | ok a s' =>
      unfold Obeys at h
      rw [hp] at h
      obtain ⟨hs, hd, hr⟩ := h
      exact Obeys.after hp hs hd (hg a s' hs hd hr)
  | error e s' =>
      unfold Obeys at h ⊢
      rw [hp] at h
      obtain ⟨hs, hd, fault, hf, he⟩ := h
      rw [bind_run_error hp]
      exact ⟨hs, hd, fault, hb fault _ hf, he⟩

theorem Obeys.mono {reads₂ : α → List Token → Prop} {fails₂ : Fault → List Token → Prop}
    (h : p.Obeys s reads fails) (hr : ∀ a rest, reads a rest → reads₂ a rest)
    (hb : ∀ fault rest, fails fault rest → fails₂ fault rest) : p.Obeys s reads₂ fails₂ := by
  unfold Obeys at h ⊢
  cases hp : p s with
  | ok a s' =>
      rw [hp] at h
      exact ⟨h.1, h.2.1, hr _ _ h.2.2⟩
  | error e s' =>
      rw [hp] at h
      obtain ⟨hs, hd, fault, hf, he⟩ := h
      exact ⟨hs, hd, fault, hb _ _ hf, he⟩

/-- Without a level to spare the way down fails. -/
theorem nested_obeys_of_no_level (hk : s.levels = 0) (h : fails .tooDeep s.ahead) :
    (nested p).Obeys s reads fails := by
  have hrun : nested p s = .error (Fault.tooDeep.error s.down) s.down :=
    bind_run_error (enter_run_of_le (Nat.le_of_sub_eq_zero hk))
  unfold Obeys
  rw [hrun]
  exact ⟨⟨rfl, rfl, rfl⟩, Nat.le_succ _, .tooDeep, h, rfl⟩

theorem nested_obeys (hk : 0 < s.levels) (h : p.Obeys s.down reads fails) :
    (nested p).Obeys s reads fails := by
  have hlt : s.depth < s.limit := Nat.lt_of_sub_pos hk
  unfold Obeys at h ⊢
  unfold nested
  rw [bind_run (enter_run_of_lt hlt)]
  cases hp : p s.down with
  | ok a s' =>
      rw [hp] at h
      obtain ⟨hs, hd, hr⟩ := h
      rw [bind_run hp, bind_run (leave_run s')]
      refine ⟨⟨hs.final, hs.limit, hs.rules⟩, ?_, hr⟩
      show s'.depth - 1 = s.depth
      rw [hd, Nat.add_sub_cancel]
  | error e s' =>
      rw [hp] at h
      obtain ⟨hs, hd, hf⟩ := h
      rw [bind_run_error hp]
      exact ⟨⟨hs.final, hs.limit, hs.rules⟩, Nat.le_of_succ_le hd, hf⟩

end

/-! ## The rules -/

section
variable (b : BinaryOp → Binding)

/-- Started in `s`, the parser carries out a task as the rules of reading say. -/
def Follows (p : Parser Expr) (s : State) (floor : Level) (task : Task) : Prop :=
  p.Obeys s (Reads b s.levels floor task s.ahead) (Fails b s.levels floor task s.ahead)

/-- `operand` reads whole expressions by the rules, from every state with at most `room`
    levels. -/
def ReadsOperands (operand : Level → Parser Expr) (room : Nat) : Prop :=
  ∀ (floor : Level) (s : State), s.rules = .ofBindings b → s.levels ≤ room →
    (operand floor).Follows b s floor (.whole .start)

end

variable {b : BinaryOp → Binding} {operand : Level → Parser Expr} {room : Nat} {s : State}

theorem literal_follows {e : Expr} (floor : Level) (h : s.stream.current.literal? = some e) :
    literal.Follows b s floor (.step .start) := by
  have hne : s.stream.current.kind ≠ .eof := by
    rcases Expr.literal?_eq_some_iff.1 h with ⟨hk, -⟩ | ⟨hk, -⟩ <;> simp [hk]
  have hread : Reads b s.levels floor (.step .start) s.ahead e s.next.ahead := by
    rw [State.ahead_eq_cons hne]
    exact .literal h
  refine Obeys.after (current_run s) (.refl s) rfl ?_
  rcases Expr.literal?_eq_some_iff.1 h with ⟨hk, rfl⟩ | ⟨hk, rfl⟩
  all_goals
    rw [hk]
    exact Obeys.after (advance_run s) ⟨rfl, rfl, rfl⟩ rfl (obeys_pure hread)

theorem signedBy_follows (he : ReadsOperands b operand room) {op : UnaryOp} (floor : Level)
    (hr : s.rules = .ofBindings b) (hk : s.levels ≤ room) (h : s.stream.current.kind = op.kind) :
    (signedBy operand).Follows b s floor (.step .start) := by
  have hne : s.stream.current.kind ≠ .eof := by rw [h]; cases op <;> decide
  unfold Follows
  rw [State.ahead_eq_cons hne]
  refine Obeys.after (current_run s) (.refl s) rfl ?_
  rw [h, UnaryOp.ofKind?_kind]
  refine Obeys.after (advance_run s) ⟨rfl, rfl, rfl⟩ rfl ?_
  refine (he .unary s.next hr hk).bind (fun x s' _ _ hx => ?_) (fun _ _ hx => .sign h hx)
  exact obeys_pure (.sign h hx)

theorem groupedBy_follows (he : ReadsOperands b operand room) (floor : Level)
    (hr : s.rules = .ofBindings b) (hk : s.levels ≤ room)
    (h : s.stream.current.kind = .openParen) :
    (groupedBy operand).Follows b s floor (.step .start) := by
  have hne : s.stream.current.kind ≠ .eof := by rw [h]; decide
  unfold Follows
  rw [State.ahead_eq_cons hne]
  refine Obeys.after (expect_run_of_kind h) ⟨rfl, rfl, rfl⟩ rfl ?_
  refine (he .lowest s.next hr hk).bind (fun x s' _ _ hx => ?_) (fun _ _ hx => .group h hx)
  by_cases hc : s'.stream.current.kind = .closeParen
  · have hne' : s'.stream.current.kind ≠ .eof := by rw [hc]; decide
    rw [State.ahead_eq_cons hne'] at hx
    refine Obeys.after (expect_run_of_kind hc) ⟨rfl, rfl, rfl⟩ rfl ?_
    exact obeys_pure (.group h hx hc)
  · refine obeys_of_error (.missing Kind.closeParen.describe)
      (bind_run_error (expect_run_of_ne hc)) ?_
    exact .unclosed h hx (s'.frontKind_ahead ▸ hc)

theorem joinedBy_follows (he : ReadsOperands b operand room) {op : BinaryOp} {floor : Level}
    (left : Expr) (hr : s.rules = .ofBindings b) (hk : s.levels ≤ room)
    (h : s.stream.current.kind = op.kind) (hf : floor ≤ (b op).level) :
    (joinedBy operand left (b op)).Follows b s floor (.step (.behind left)) := by
  have hne : s.stream.current.kind ≠ .eof := by rw [h]; cases op <;> decide
  unfold Follows
  rw [State.ahead_eq_cons hne]
  refine Obeys.after (current_run s) (.refl s) rfl ?_
  rw [h, BinaryOp.ofKind?_kind]
  refine Obeys.after (advance_run s) ⟨rfl, rfl, rfl⟩ rfl ?_
  refine (he _ s.next hr hk).bind (fun r s' _ _ hx => ?_) (fun _ _ hx => .operand h hf hx)
  exact obeys_pure (.join h hf hx)

theorem startBy_follows (he : ReadsOperands b operand room) (floor : Level)
    (hr : s.rules = .ofBindings b) (hk : s.levels ≤ room) :
    (startBy operand).Follows b s floor (.step .start) := by
  refine Obeys.after (get_run s) (.refl s) rfl ?_
  have hliteral := fun e h => literal_follows (b := b) (s := s) (e := e) floor h
  have hsign := fun (op : UnaryOp) (h : s.stream.current.kind = op.kind) =>
    signedBy_follows he floor hr hk h
  have hgroup := groupedBy_follows he floor hr hk
  have hnone : (Rules.ofBindings b).start? s.stream.current.kind = none →
      (fail "expression").Follows b s floor (.step .start) := fun h =>
    obeys_of_error (.missing "expression") (fail_run _ s)
      (.noStart (s.frontKind_ahead ▸ h))
  rw [hr]
  cases hkind : s.stream.current.kind <;> rw [hkind] at hgroup hnone
  case number => exact hliteral _ (Expr.literal?_eq_some_iff.2 (.inl ⟨hkind, rfl⟩))
  case identifier => exact hliteral _ (Expr.literal?_eq_some_iff.2 (.inr ⟨hkind, rfl⟩))
  case plus => exact hsign .plus hkind
  case dash => exact hsign .minus hkind
  case openParen => exact hgroup rfl
  all_goals exact hnone rfl

/-! ## Whole expressions -/

/-- A step and what follows behind it, both one level further down. -/
theorem nested_follows {first : Parser Expr} {rest : Expr → Parser Expr} {k : Nat}
    {floor : Level} {phase : Phase} (hk : s.levels = k + 1)
    (hfirst : first.Follows b s.down floor (.step phase))
    (hrest : ∀ left s', s'.rules = s.rules → s'.levels = k →
      (rest left).Follows b s' floor (.whole (.behind left))) :
    (nested (first >>= rest)).Follows b s floor (.whole phase) := by
  have hdown : s.down.levels = k := by rw [State.levels_down, hk, Nat.add_sub_cancel]
  unfold Follows at hfirst ⊢
  rw [hdown] at hfirst
  rw [hk]
  refine nested_obeys (hk ▸ Nat.succ_pos k) (hfirst.bind (fun left s' hs hd h => ?_)
    fun _ _ h => .first h)
  have hk' : s'.levels = k := (hs.levels hd).trans hdown
  have hr := hrest left s' hs.rules hk'
  unfold Follows at hr
  rw [hk'] at hr
  exact hr.mono (fun _ _ h' => .go h h') fun _ _ h' => .later h h'

theorem joinAt?_run_of_stops {floor : Level} (hr : s.rules = .ofBindings b)
    (h : Stops b floor s.ahead) : joinAt? floor s = .ok none s := by
  refine (bind_run (get_run s)).trans ?_
  rw [hr]
  cases hop : BinaryOp.ofKind? s.stream.current.kind with
  | none => simp only [Rules.ofBindings, hop]; rfl
  | some op =>
      have hlt := h op (s.frontKind_ahead.trans (BinaryOp.ofKind?_eq_some_iff.1 hop))
      simp only [Rules.ofBindings, hop, Option.map_some]
      rw [if_pos hlt]
      rfl

theorem joinAt?_run_of_kind {floor : Level} {op : BinaryOp} (hr : s.rules = .ofBindings b)
    (h : s.stream.current.kind = op.kind) (hf : floor ≤ (b op).level) :
    joinAt? floor s = .ok (some (.binary, b op)) s := by
  refine (bind_run (get_run s)).trans ?_
  rw [hr, h]
  simp only [Rules.ofBindings, Rules.standard, BinaryOp.ofKind?_kind, Option.map_some]
  rw [if_neg (Level.not_lt.2 hf)]
  rfl

/-- Where the reader does not stop, an operator that reaches the floor is the current token. -/
theorem exists_kind_of_not_stops {floor : Level} (h : ¬ Stops b floor s.ahead) :
    ∃ op : BinaryOp, s.stream.current.kind = op.kind ∧ floor ≤ (b op).level := by
  simp only [Stops, Classical.not_forall] at h
  obtain ⟨op, hop, hf⟩ := h
  exact ⟨op, s.frontKind_ahead.symm.trans hop, Level.not_lt.1 hf⟩

theorem climbBy_follows_of_stops {floor : Level} (left : Expr) (budget : Nat)
    (hr : s.rules = .ofBindings b) (h : Stops b floor s.ahead) :
    (climbBy operand floor budget left).Follows b s floor (.whole (.behind left)) := by
  unfold climbBy
  refine Obeys.after (joinAt?_run_of_stops hr h) (.refl s) rfl ?_
  exact obeys_pure (.stop h)

theorem climbBy_follows (he : ReadsOperands b operand room) (floor : Level) (budget : Nat)
    (left : Expr) (s : State) (hr : s.rules = .ofBindings b) (hbudget : s.levels ≤ budget)
    (hroom : s.levels ≤ room) :
    (climbBy operand floor budget left).Follows b s floor (.whole (.behind left)) := by
  induction budget generalizing left s with
  | zero =>
      by_cases hstop : Stops b floor s.ahead
      · exact climbBy_follows_of_stops left 0 hr hstop
      · obtain ⟨op, hkind, hf⟩ := exists_kind_of_not_stops hstop
        unfold climbBy
        refine Obeys.after (joinAt?_run_of_kind hr hkind hf) (.refl s) rfl ?_
        refine obeys_of_error .tooDeep (overLimit_run s) ?_
        rw [Nat.le_zero.1 hbudget]
        exact .noFold hstop
  | succ budget ih =>
      by_cases hstop : Stops b floor s.ahead
      · exact climbBy_follows_of_stops left (budget + 1) hr hstop
      · obtain ⟨op, hkind, hf⟩ := exists_kind_of_not_stops hstop
        unfold climbBy
        refine Obeys.after (joinAt?_run_of_kind hr hkind hf) (.refl s) rfl ?_
        rcases Nat.eq_zero_or_eq_succ_pred s.levels with hk | hk
        · exact nested_obeys_of_no_level hk (hk ▸ .noFold hstop)
        · have hdown := s.levels_down
          have hfirst := joinedBy_follows he (s := s.down) left hr (by omega) hkind hf
          refine nested_follows hk hfirst fun joined s' hs hk' => ?_
          exact ih joined s' (hs.trans hr) (by omega) (by omega)

/-- An expression at a floor is read by the rules, as long as the budget covers the levels. -/
theorem exprWithin_follows (room : Nat) : ReadsOperands b (exprWithin room) room := by
  induction room with
  | zero =>
      intro floor s hr hk
      refine obeys_of_error .tooDeep (overLimit_run s) ?_
      rw [Nat.le_zero.1 hk]
      exact .noRoom
  | succ room ih =>
      intro floor s hr hk
      unfold exprWithin
      refine Obeys.after (current_run s) (.refl s) rfl ?_
      refine Obeys.after (note_run _ s) ⟨rfl, rfl, rfl⟩ rfl ?_
      -- The note is not part of what the rules speak about.
      generalize hs₁ : { s with log := _ } = s₁
      obtain ⟨hr₁, hk₁, ha₁⟩ : s₁.rules = s.rules ∧ s₁.levels = s.levels ∧ s₁.ahead = s.ahead := by
        subst hs₁
        exact ⟨rfl, rfl, rfl⟩
      rw [← hk₁, ← ha₁]
      rcases Nat.eq_zero_or_eq_succ_pred s₁.levels with hk₀ | hk₀
      · exact nested_obeys_of_no_level hk₀ (hk₀ ▸ .noRoom)
      · have hdown := s₁.levels_down
        have hfirst := startBy_follows ih (s := s₁.down) floor (hr₁.trans hr) (by omega)
        refine nested_follows hk₀ hfirst fun left s' hs hk' => ?_
        exact climbBy_follows ih floor room left s' ((hs.trans hr₁).trans hr) (by omega)
          (by omega)

/-- An expression at a floor is read by the rules. -/
theorem expr_follows (floor : Level) (s : State) (hr : s.rules = .ofBindings b) :
    (expr floor).Follows b s floor (.whole .start) := by
  unfold expr
  refine Obeys.after (get_run s) (.refl s) rfl ?_
  exact exprWithin_follows _ floor s hr (Nat.le_succ _)

/-- An expression that the parser comes to is read by the rules, with the tokens that are left. -/
theorem reads_of_expr_run {floor : Level} {e : Expr} {s s' : State} (hr : s.rules = .ofBindings b)
    (h : expr floor s = .ok e s') :
    s.Same s' ∧ Reads b s.levels floor (.whole .start) s.ahead e s'.ahead := by
  have hfollows := expr_follows floor s hr
  unfold Follows Obeys at hfollows
  rw [h] at hfollows
  exact ⟨hfollows.1, hfollows.2.2⟩

/-- The parser comes to every expression that is read by the rules. -/
theorem exists_expr_run {floor : Level} {e : Expr} {s : State} {rest : List Token}
    (hr : s.rules = .ofBindings b)
    (h : Reads b s.levels floor (.whole .start) s.ahead e rest) :
    ∃ s', expr floor s = .ok e s' := by
  have hfollows := expr_follows floor s hr
  unfold Follows Obeys at hfollows
  cases hrun : expr floor s with
  | ok e' s' =>
      rw [hrun] at hfollows
      obtain ⟨rfl, -⟩ := h.unique hfollows.2.2
      exact ⟨s', rfl⟩
  | error err s' =>
      rw [hrun] at hfollows
      obtain ⟨-, -, f, hfails, -⟩ := hfollows
      exact absurd hfails h.not_fails

end Parser

end ArithLang
