/-
  How reading statements and programs goes, as rules, and that the parser follows them.

  `ReadsStmt` and `FailsStmt` extend the rules for expressions by the two forms of statements,
  `ReadsBody` and `FailsBody` by the two modes. `parseTokens_eq_ok_iff` says that a program is
  accepted exactly when there is a derivation of `ReadsBody`, and `failsBody_of_parseTokens`
  that an error comes from one of `FailsBody`.
-/
import ArithLang.Proofs.Precedence
import ArithLang.Proofs.Run
import ArithLang.Reading

namespace ArithLang

/-- The tokens start as an assignment does. -/
def Assigns (ts : List Token) : Prop :=
  frontKind ts = .identifier ∧ frontKind ts.tail = .assignment

/-- From the tokens in front comes a statement, with the other tokens still ahead. -/
inductive ReadsStmt (b : BinaryOp → Binding) : Nat → List Token → Stmt → List Token → Prop where
  | assignment {k : Nat} {name eq : Token} {ts rest : List Token} {v : Expr}
      (hn : name.kind = .identifier) (he : eq.kind = .assignment)
      (h : Reads b k .lowest (.whole .start) ts v rest) :
      ReadsStmt b k (name :: eq :: ts)
        (.assignment name.text name.span v (.cover name.span v.span)) rest
  | expression {k : Nat} {ts rest : List Token} {e : Expr} (hn : ¬ Assigns ts)
      (h : Reads b k .lowest (.whole .start) ts e rest) :
      ReadsStmt b k ts (.expression e e.span) rest

/-- A statement that starts with the tokens in front meets a fault. -/
inductive FailsStmt (b : BinaryOp → Binding) : Nat → List Token → Fault → List Token → Prop where
  | assignment {k : Nat} {name eq : Token} {ts rest : List Token} {f : Fault}
      (hn : name.kind = .identifier) (he : eq.kind = .assignment)
      (h : Fails b k .lowest (.whole .start) ts f rest) :
      FailsStmt b k (name :: eq :: ts) f rest
  | expression {k : Nat} {ts rest : List Token} {f : Fault} (hn : ¬ Assigns ts)
      (h : Fails b k .lowest (.whole .start) ts f rest) : FailsStmt b k ts f rest

/-- From the tokens come the statements of an input, with an end mark next. -/
inductive ReadsBody (b : BinaryOp → Binding) :
    Mode → Nat → List Token → List Stmt → List Token → Prop where
  | single {k : Nat} {ts rest : List Token} {st : Stmt} (h : ReadsStmt b k ts st rest)
      (he : frontKind rest = .eof) : ReadsBody b .single k ts [st] rest
  | done {k : Nat} {ts : List Token} (he : frontKind ts = .eof) :
      ReadsBody b .repeated k ts [] ts
  | more {k : Nat} {ts mid rest : List Token} {st : Stmt} {sts : List Stmt}
      (hne : frontKind ts ≠ .eof) (h : ReadsStmt b k ts st mid)
      (hs : ReadsBody b .repeated k mid sts rest) : ReadsBody b .repeated k ts (st :: sts) rest

/-- The statements of an input meet a fault. -/
inductive FailsBody (b : BinaryOp → Binding) :
    Mode → Nat → List Token → Fault → List Token → Prop where
  | single {k : Nat} {ts rest : List Token} {f : Fault} (h : FailsStmt b k ts f rest) :
      FailsBody b .single k ts f rest
  | leftover {k : Nat} {ts rest : List Token} {st : Stmt} (h : ReadsStmt b k ts st rest)
      (hne : frontKind rest ≠ .eof) :
      FailsBody b .single k ts (.missing Kind.eof.describe) rest
  | first {k : Nat} {ts rest : List Token} {f : Fault} (hne : frontKind ts ≠ .eof)
      (h : FailsStmt b k ts f rest) : FailsBody b .repeated k ts f rest
  | later {k : Nat} {ts mid rest : List Token} {st : Stmt} {f : Fault}
      (hne : frontKind ts ≠ .eof) (h : ReadsStmt b k ts st mid)
      (hs : FailsBody b .repeated k mid f rest) : FailsBody b .repeated k ts f rest

variable {b : BinaryOp → Binding}

/-! ## Statements -/

theorem Reads.exists_used {k : Nat} {floor : Level} {e : Expr} {ts rest : List Token}
    (h : Reads b k floor (.whole .start) ts e rest) :
    ∃ used, ts = used ++ rest ∧ e.Part b floor used ∧ Stops b floor rest ∧ e.need ≤ k :=
  h.sound [] rfl

theorem not_assigns_append {pre rest : List Token} (h : ¬ Assigns (pre ++ rest))
    (hpre : pre ≠ []) {rest' : List Token}
    (hr : frontKind rest' = .assignment → frontKind rest = .assignment) :
    ¬ Assigns (pre ++ rest') := by
  obtain ⟨t, pre, rfl⟩ := List.exists_cons_of_ne_nil hpre
  intro h'
  obtain ⟨hid, heq⟩ := h'
  refine h ⟨hid, ?_⟩
  cases pre with
  | nil => exact hr heq
  | cons u pre => exact heq

/-- An expression that no assignment starts with is not followed by `=` if it is a name. -/
theorem ReadsStmt.change_rest {k : Nat} {st : Stmt} {ts rest : List Token}
    (h : ReadsStmt b k ts st rest) :
    ∃ used, ts = used ++ rest ∧ used ≠ [] ∧ ∀ rest', GoesOnAs rest' rest →
      (frontKind rest' = .assignment → frontKind rest = .assignment) →
        ReadsStmt b k (used ++ rest') st rest' := by
  cases h with
  | @assignment name eq ts rest v hn he h =>
      obtain ⟨used, rfl, hr⟩ := h.change_rest
      exact ⟨name :: eq :: used, rfl, by simp, fun rest' h _ => .assignment hn he (hr rest' h)⟩
  | expression hn h =>
      obtain ⟨used, rfl, hr⟩ := h.change_rest
      have hne : used ≠ [] := by
        intro h'
        subst h'
        obtain ⟨used, hu, hp, -⟩ := h.exists_used
        exact hp.spells.ne_nil (List.self_eq_append_left.1 hu)
      exact ⟨used, rfl, hne,
        fun rest' h hr' => .expression (not_assigns_append hn hne hr') (hr rest' h)⟩

theorem ReadsStmt.unique {k k' : Nat} {st st' : Stmt} {ts rest rest' : List Token}
    (h : ReadsStmt b k ts st rest) (h' : ReadsStmt b k' ts st' rest') :
    st = st' ∧ rest = rest' := by
  cases h with
  | assignment hn he h =>
      cases h' with
      | assignment hn' he' h' =>
          obtain ⟨rfl, rfl⟩ := h.unique h'
          exact ⟨rfl, rfl⟩
      | expression hn' h' => exact absurd ⟨hn, he⟩ hn'
  | expression hn h =>
      cases h' with
      | assignment hn' he' h' => exact absurd ⟨hn', he'⟩ hn
      | expression hn' h' =>
          obtain ⟨rfl, rfl⟩ := h.unique h'
          exact ⟨rfl, rfl⟩

/-- An expression never starts as an assignment does. -/
theorem Expr.Spells.not_assigns {e : Expr} {ts : List Token} (h : e.Spells ts) : ¬ Assigns ts := by
  intro h'
  obtain ⟨-, heq⟩ := h'
  match ts, h, heq with
  | _ :: t :: _, h, heq => exact (h.kind_ne t (by simp)).2 heq

/-- What is read as a statement is the part of the tokens that a canonical tree spells. A `=`
    in second place always belongs to it. -/
theorem readsStmt_iff (hb : ∀ op, (b op).level < .unary) {k : Nat} {st : Stmt}
    {ts rest : List Token} :
    ReadsStmt b k ts st rest ↔
      ∃ used, ts = used ++ rest ∧ st.Spells used ∧ st.expr.Canonical b ∧ st.expr.need ≤ k ∧
        Stops b .lowest rest ∧ (Assigns ts → Assigns used) := by
  constructor
  · intro h
    cases h with
    | @assignment name eq ts rest v hn he h =>
        obtain ⟨used, rfl, hp, hs, hk⟩ := h.exists_used
        exact ⟨name :: eq :: used, rfl, .assignment hn he hp.spells, hp.canonical, hk, hs,
          fun _ => ⟨hn, he⟩⟩
    | expression hn h =>
        obtain ⟨used, rfl, hp, hs, hk⟩ := h.exists_used
        exact ⟨used, rfl, .expression hp.spells, hp.canonical, hk, hs, fun ha => absurd ha hn⟩
  · intro h'
    obtain ⟨used, rfl, hst, hc, hk, hs, ha⟩ := h'
    cases hst with
    | @assignment name eq v ts hn he hv =>
        have hpart : v.Part b .lowest ts := ⟨hv, hc, v.atFloor_lowest⟩
        exact .assignment hn he (hpart.reads hb hs hk)
    | @expression e ts he =>
        have hpart : e.Part b .lowest used := ⟨he, hc, e.atFloor_lowest⟩
        exact .expression (mt ha he.not_assigns) (hpart.reads hb hs hk)

/-- Where the tokens end, the reader stops. -/
theorem stops_nil (floor : Level) : Stops b floor [] :=
  stops_of_frontKind fun op => by cases op <;> decide

/-- A statement is all of the tokens exactly when they spell it and it is canonical and within
    the limit. -/
theorem readsStmt_nil_iff (hb : ∀ op, (b op).level < .unary) {k : Nat} {st : Stmt}
    {ts : List Token} :
    ReadsStmt b k ts st [] ↔ st.Spells ts ∧ st.expr.Canonical b ∧ st.expr.need ≤ k := by
  rw [readsStmt_iff hb]
  constructor
  · intro h
    obtain ⟨used, rfl, hst, hc, hk, -⟩ := h
    rw [List.append_nil]
    exact ⟨hst, hc, hk⟩
  · intro h
    obtain ⟨hst, hc, hk⟩ := h
    exact ⟨ts, (List.append_nil ts).symm, hst, hc, hk, stops_nil _, id⟩

/-- A canonical statement with the yield of the tokens can be given their spans, and then is read
    from them. -/
theorem Stmt.exists_reads_of_yield (hb : ∀ op, (b op).level < .unary) {k : Nat} {st : Stmt}
    {ts : List Token} (hy : st.yield = ts.map Token.shape) (hc : st.expr.Canonical b)
    (hk : st.expr.need ≤ k) : ∃ st' : Stmt, st'.bare = st.bare ∧ ReadsStmt b k ts st' [] := by
  obtain ⟨st', hst, hbare⟩ := Stmt.exists_spells_of_yield hy
  have hexpr := Stmt.bare_expr_eq hbare
  exact ⟨st', hbare, (readsStmt_nil_iff hb).2
    ⟨hst, (Expr.canonical_iff_of_bare hexpr).2 hc, Expr.need_eq_of_bare hexpr ▸ hk⟩⟩

/-- Where a value can be read behind `name =`, the name alone can be read as an expression. -/
theorem reads_name {k : Nat} {name eq : Token} {ts rest : List Token} {v : Expr}
    (hn : name.kind = .identifier) (he : eq.kind = .assignment)
    (h : Reads b k .lowest (.whole .start) ts v rest) :
    Reads b k .lowest (.whole .start) (name :: eq :: ts) (.identifier name.text name.span)
      (eq :: ts) := by
  cases h with
  | go hs h =>
      refine .go (.literal (Expr.literal?_eq_some_iff.2 (.inr ⟨hn, rfl⟩))) (.stop ?_)
      refine stops_of_frontKind fun op => ?_
      rw [frontKind_cons, he]
      cases op <;> decide

/-- A statement does not start with an end mark. -/
theorem ReadsStmt.frontKind_ne_eof {k : Nat} {st : Stmt} {ts rest : List Token}
    (h : ReadsStmt b k ts st rest) : frontKind ts ≠ .eof := by
  cases h with
  | assignment hn he h => rw [frontKind_cons, hn]; decide
  | expression hn h =>
      obtain ⟨used, rfl, hp, -⟩ := h.exists_used
      obtain ⟨t, us, rfl, -⟩ := hp.spells.start_span
      exact (hp.spells.kind_ne t (by simp)).1

/-- As `Fails.not_reads`, for statements. -/
theorem FailsStmt.not_reads {k : Nat} {f : Fault} {ts rest : List Token}
    (h : FailsStmt b k ts f rest) :
    ∃ used, ts = used ++ rest ∧ ∀ (rest' : List Token) (k' : Nat) (st : Stmt) (out : List Token),
      frontKind rest' = frontKind rest → (f = .tooDeep → k' ≤ k) →
        ¬ ReadsStmt b k' (used ++ rest') st out := by
  cases h with
  | @assignment name eq ts rest f hn he h =>
      obtain ⟨used, rfl, hr⟩ := h.not_reads
      refine ⟨name :: eq :: used, rfl, fun rest' k' st out hf hk h' => ?_⟩
      cases h' with
      | assignment _ _ h' => exact hr rest' k' _ _ hf hk h'
      | expression hn' h' => exact hn' ⟨hn, he⟩
  | expression hn h =>
      obtain ⟨used, rfl, hr⟩ := h.not_reads
      refine ⟨used, rfl, fun rest' k' st out hf hk h' => ?_⟩
      generalize hts : used ++ rest' = ts' at h'
      cases h' with
      | assignment hn' he' h' => exact hr rest' k' _ _ hf hk (hts ▸ reads_name hn' he' h')
      | expression hn' h' => exact hr rest' k' _ _ hf hk (hts ▸ h')

theorem ReadsStmt.not_fails {k : Nat} {st : Stmt} {f : Fault} {ts rest out : List Token}
    (h : ReadsStmt b k ts st rest) : ¬ FailsStmt b k ts f out := by
  intro hf
  obtain ⟨used, rfl, hn⟩ := hf.not_reads
  exact hn out k st rest rfl (fun _ => Nat.le_refl k) h

theorem ReadsStmt.mono {k k' : Nat} {st : Stmt} {ts rest : List Token}
    (h : ReadsStmt b k ts st rest) (hk : k ≤ k') : ReadsStmt b k' ts st rest := by
  cases h with
  | assignment hn he h => exact .assignment hn he (h.mono hk)
  | expression hn h => exact .expression hn (h.mono hk)

/-! ## Programs -/

theorem ReadsBody.mono {mode : Mode} {k k' : Nat} {sts : List Stmt} {ts rest : List Token}
    (h : ReadsBody b mode k ts sts rest) (hk : k ≤ k') : ReadsBody b mode k' ts sts rest := by
  induction h with
  | single h he => exact .single (h.mono hk) he
  | done he => exact .done he
  | more hne h hs ih => exact .more hne (h.mono hk) (ih hk)

/-- What is known about the kind of the next token decides what a statement can be. -/
theorem ReadsStmt.change_rest_of_frontKind {k : Nat} {st : Stmt} {ts rest : List Token}
    (h : ReadsStmt b k ts st rest) :
    ∃ used, ts = used ++ rest ∧ ∀ rest', frontKind rest' = frontKind rest →
      ReadsStmt b k (used ++ rest') st rest' := by
  obtain ⟨used, rfl, -, hr⟩ := h.change_rest
  exact ⟨used, rfl, fun rest' hk => hr rest' (goesOnAs_of_frontKind hk) fun ha => hk ▸ ha⟩

theorem ReadsBody.unique {mode : Mode} {k k' : Nat} {sts sts' : List Stmt}
    {ts rest rest' : List Token} (h : ReadsBody b mode k ts sts rest)
    (h' : ReadsBody b mode k' ts sts' rest') : sts = sts' ∧ rest = rest' := by
  induction h generalizing sts' with
  | single h he =>
      cases h' with
      | single h' he' =>
          obtain ⟨rfl, rfl⟩ := h.unique h'
          exact ⟨rfl, rfl⟩
  | done he =>
      cases h' with
      | done => exact ⟨rfl, rfl⟩
      | more hne h' hs' => exact absurd he hne
  | more hne h hs ih =>
      cases h' with
      | done he => exact absurd he hne
      | more hne' h' hs' =>
          obtain ⟨rfl, rfl⟩ := h.unique h'
          obtain ⟨rfl, rfl⟩ := ih hs'
          exact ⟨rfl, rfl⟩

/-- As `Fails.not_reads`, for programs. -/
theorem FailsBody.not_reads {mode : Mode} {k : Nat} {f : Fault} {ts rest : List Token}
    (h : FailsBody b mode k ts f rest) :
    ∃ used, ts = used ++ rest ∧
      ∀ (rest' : List Token) (k' : Nat) (sts : List Stmt) (out : List Token),
        frontKind rest' = frontKind rest → (f = .tooDeep → k' ≤ k) →
          ¬ ReadsBody b mode k' (used ++ rest') sts out := by
  induction h with
  | single h =>
      obtain ⟨used, rfl, hn⟩ := h.not_reads
      refine ⟨used, rfl, fun rest' k' sts out hr hk h' => ?_⟩
      cases h' with
      | single h' he => exact hn rest' k' _ _ hr hk h'
  | leftover h hne =>
      obtain ⟨used, rfl, hu⟩ := h.change_rest_of_frontKind
      refine ⟨used, rfl, fun rest' k' sts out hr _ h' => ?_⟩
      cases h' with
      | single h' he =>
          obtain ⟨-, rfl⟩ := (hu rest' hr).unique h'
          exact hne (hr ▸ he)
  | first hne h =>
      obtain ⟨used, rfl, hn⟩ := h.not_reads
      refine ⟨used, rfl, fun rest' k' sts out hr hk h' => ?_⟩
      cases h' with
      | done he => exact hne (frontKind_append_congr hr ▸ he)
      | more _ h' _ => exact hn rest' k' _ _ hr hk h'
  | later hne h hs ih =>
      obtain ⟨used', rfl, hn⟩ := ih
      obtain ⟨used, rfl, hu⟩ := h.change_rest_of_frontKind
      refine ⟨used ++ used', by simp, fun rest' k' sts out hr hk h' => ?_⟩
      rw [List.append_assoc] at h'
      have hu' := hu (used' ++ rest') (frontKind_append_congr hr)
      cases h' with
      | done he => exact hne (frontKind_append_congr (frontKind_append_congr hr) ▸ he)
      | more _ h' hs' =>
          obtain ⟨rfl, rfl⟩ := hu'.unique h'
          exact hn rest' k' _ _ hr hk hs'

/-- What is accepted is not refused. -/
theorem ReadsBody.not_fails {mode : Mode} {k : Nat} {sts : List Stmt} {f : Fault}
    {ts rest out : List Token} (h : ReadsBody b mode k ts sts rest) :
    ¬ FailsBody b mode k ts f out := by
  intro hf
  obtain ⟨used, rfl, hn⟩ := hf.not_reads
  exact hn out k sts rest rfl (fun _ => Nat.le_refl k) h

/-! ## The parser -/

namespace Parser

variable {s : State}

theorem frontKind_tail_ahead (s : State) : frontKind s.ahead.tail = s.stream.peek 1 := by
  obtain ⟨⟨pending, final, hf⟩, depth, limit, rules, log⟩ := s
  rcases pending with _ | ⟨t, _ | ⟨u, ts⟩⟩ <;> rfl

theorem assignment_obeys (hr : s.rules = .ofBindings b) (h : Assigns s.ahead) :
    assignment.Obeys s (ReadsStmt b s.levels s.ahead) (FailsStmt b s.levels s.ahead) := by
  obtain ⟨hname, heq⟩ := h
  have hname' : s.stream.current.kind = .identifier := s.frontKind_ahead ▸ hname
  have heq' : s.next.stream.current.kind = .assignment := s.next.frontKind_ahead ▸ heq
  rw [State.ahead_eq_cons (s := s) (by simp [hname']),
    State.ahead_eq_cons (s := s.next) (by simp [heq'])]
  refine Obeys.after (expect_run_of_kind hname') ⟨rfl, rfl, rfl⟩ rfl ?_
  refine Obeys.after (expect_run_of_kind heq') ⟨rfl, rfl, rfl⟩ rfl ?_
  refine (expr_follows .lowest s.next.next hr).bind (fun v s' _ _ hv => ?_)
    (fun _ _ hv => .assignment hname' heq' hv)
  exact obeys_pure (.assignment hname' heq' hv)

theorem stmt_obeys (s : State) (hr : s.rules = .ofBindings b) :
    stmt.Obeys s (ReadsStmt b s.levels s.ahead) (FailsStmt b s.levels s.ahead) := by
  refine Obeys.after (current_run s) (.refl s) rfl ?_
  refine Obeys.after (note_run _ s) ⟨rfl, rfl, rfl⟩ rfl ?_
  generalize hs₁ : { s with log := _ } = s₁
  obtain ⟨hr₁, hk₁, ha₁, hc₁⟩ : s₁.rules = s.rules ∧ s₁.levels = s.levels ∧
      s₁.ahead = s.ahead ∧ s₁.stream = s.stream := by
    subst hs₁
    exact ⟨rfl, rfl, rfl, rfl⟩
  rw [← hk₁, ← ha₁, ← hc₁]
  refine Obeys.after (peek_run 1 s₁) (.refl s₁) rfl ?_
  have hassigns : s₁.stream.current.kind = .identifier ∧ s₁.stream.peek 1 = .assignment ↔
      Assigns s₁.ahead := by
    rw [Assigns, State.frontKind_ahead, frontKind_tail_ahead]
  by_cases h : Assigns s₁.ahead
  · rw [if_pos (hassigns.2 h)]
    exact assignment_obeys (hr₁.trans hr) h
  · rw [if_neg (mt hassigns.1 h)]
    refine (expr_follows .lowest s₁ (hr₁.trans hr)).bind (fun e s' _ _ he => ?_)
      (fun _ _ he => .expression h he)
    exact obeys_pure (.expression h he)

theorem atEnd_run_eq (s : State) : atEnd s = .ok (decide (frontKind s.ahead = .eof)) s := by
  rw [State.frontKind_ahead]
  exact atEnd_run s

theorem onlyStmt_obeys (s : State) (hr : s.rules = .ofBindings b) :
    onlyStmt.Obeys s (fun st rest => ReadsBody b .single s.levels s.ahead [st] rest)
      (FailsBody b .single s.levels s.ahead) := by
  refine (stmt_obeys s hr).bind (fun st s' _ _ h => ?_) (fun _ _ h => .single h)
  refine Obeys.after (atEnd_run_eq s') (.refl s') rfl ?_
  by_cases he : frontKind s'.ahead = .eof
  · rw [decide_eq_true he]
    exact obeys_pure (.single h he)
  · rw [decide_eq_false he]
    exact obeys_of_error (.missing Kind.eof.describe) (fail_run _ s') (.leftover h he)

/-- Statements are read by the rules, as long as there is room for one at each token. -/
theorem stmtsWithin_obeys (room : Nat) (s : State) (hr : s.rules = .ofBindings b)
    (hroom : s.ahead.length ≤ room) :
    (stmtsWithin room).Obeys s (ReadsBody b .repeated s.levels s.ahead)
      (FailsBody b .repeated s.levels s.ahead) := by
  induction room generalizing s with
  | zero =>
      have he : frontKind s.ahead = .eof := by
        rw [List.length_eq_zero_iff.1 (Nat.le_zero.1 hroom), frontKind_nil]
      exact obeys_pure (.done he)
  | succ room ih =>
      refine Obeys.after (atEnd_run_eq s) (.refl s) rfl ?_
      by_cases he : frontKind s.ahead = .eof
      · rw [decide_eq_true he]
        exact obeys_pure (.done he)
      · rw [decide_eq_false he]
        refine (stmt_obeys s hr).bind (fun st s' hs hd h => ?_) (fun _ _ h => .first he h)
        obtain ⟨used, hused, hne, -⟩ := h.change_rest
        -- A statement uses up a token at least, so the rest has room enough.
        have hlen : s'.ahead.length ≤ room := by
          have := List.length_pos_iff.2 hne
          rw [hused, List.length_append] at hroom
          omega
        have hsts := ih s' (hs.rules.trans hr) hlen
        rw [hs.levels hd] at hsts
        refine hsts.bind (fun sts s'' _ _ hrest => ?_) (fun _ _ hf => .later he h hf)
        exact obeys_pure (.more he h hrest)

/-- The statements of an input are read by the rules. -/
theorem body_obeys (mode : Mode) (s : State) (hr : s.rules = .ofBindings b) :
    (body mode).Obeys s (ReadsBody b mode s.levels s.ahead)
      (FailsBody b mode s.levels s.ahead) := by
  cases mode with
  | single => exact (onlyStmt_obeys s hr).bind (fun st s' _ _ h => obeys_pure h) fun _ _ h => h
  | repeated =>
      refine Obeys.after (get_run s) (.refl s) rfl ?_
      exact stmtsWithin_obeys _ s hr (Nat.le_refl _)

end Parser

/-! ## Whole inputs -/

section
variable {ts : List Token} {fin : Token} {o : Options} {p : Program} {err : ParseError}

/-- Run on tokens with an end mark behind them, the parser ends as a derivation does, in front
    of the tokens that are left. -/
theorem program_run_cases (hfin : fin.kind = .eof) (ts : List Token) (o : Options) :
    (∃ sts s, ReadsBody (BinaryOp.binding o.powers) o.mode o.maxDepth ts sts s.ahead ∧
      (Parser.program o.mode).run (.ofTokens (ts ++ [fin]) o) =
        .ok ⟨sts, ⟨0, (s.ahead.headD fin).span.start⟩⟩ s) ∨
    (∃ f s, FailsBody (BinaryOp.binding o.powers) o.mode o.maxDepth ts f s.ahead ∧
      (Parser.program o.mode).run (.ofTokens (ts ++ [fin]) o) =
        .error (f.errorAt o.maxDepth (s.ahead.headD fin)) s) := by
  have hstream : (State.ofTokens (ts ++ [fin]) o).stream = ⟨ts, fin, hfin⟩ :=
    Stream.ofList_append_final hfin
  have hb := Parser.body_obeys o.mode (State.ofTokens (ts ++ [fin]) o)
    (Rules.standard_eq_ofBindings o.powers)
  have hlevels : (State.ofTokens (ts ++ [fin]) o).levels = o.maxDepth := rfl
  have hahead : (State.ofTokens (ts ++ [fin]) o).ahead = ts := congrArg Stream.pending hstream
  rw [hlevels, hahead] at hb
  have hcurrent : ∀ s', (State.ofTokens (ts ++ [fin]) o).Same s' →
      s'.stream.current = s'.ahead.headD fin := by
    intro s' hs
    have hf : s'.stream.final = fin := hs.final.trans (congrArg Stream.final hstream)
    rw [← hf]
    rfl
  unfold Parser.Obeys at hb
  cases hp : Parser.body o.mode (State.ofTokens (ts ++ [fin]) o) with
  | ok sts s' =>
      rw [hp] at hb
      obtain ⟨hs, -, hr⟩ := hb
      refine .inl ⟨sts, s', hr, ?_⟩
      rw [← hcurrent s' hs]
      exact Parser.bind_run hp
  | error e s' =>
      rw [hp] at hb
      obtain ⟨hs, -, f, hf, rfl⟩ := hb
      refine .inr ⟨f, s', hf, ?_⟩
      have hlimit : s'.limit = o.maxDepth := hs.limit
      rw [← hcurrent s' hs, ← hlimit]
      exact Parser.bind_run_error hp

/-- Reading tokens with an end mark behind them comes to what a derivation says. -/
theorem parseTokens_cases (hfin : fin.kind = .eof) (ts : List Token) (o : Options) :
    (∃ sts rest, ReadsBody (BinaryOp.binding o.powers) o.mode o.maxDepth ts sts rest ∧
      parseTokens (ts ++ [fin]) o = .ok ⟨sts, ⟨0, (rest.headD fin).span.start⟩⟩) ∨
    (∃ f rest, FailsBody (BinaryOp.binding o.powers) o.mode o.maxDepth ts f rest ∧
      parseTokens (ts ++ [fin]) o = .error (f.errorAt o.maxDepth (rest.headD fin))) := by
  unfold parseTokens readTokens
  obtain ⟨sts, s, h, hrun⟩ | ⟨f, s, h, hrun⟩ := program_run_cases hfin ts o
  · exact .inl ⟨sts, s.ahead, h, by rw [hrun]⟩
  · exact .inr ⟨f, s.ahead, h, by rw [hrun]⟩

/-- What is accepted is what the rules read. -/
theorem parseTokens_eq_ok_iff (hfin : fin.kind = .eof) :
    parseTokens (ts ++ [fin]) o = .ok p ↔
      ∃ rest, ReadsBody (BinaryOp.binding o.powers) o.mode o.maxDepth ts p.body rest ∧
        p.span = ⟨0, (rest.headD fin).span.start⟩ := by
  obtain ⟨sts, rest, h, hok⟩ | ⟨f, rest, h, herr⟩ := parseTokens_cases hfin ts o
  · rw [hok]
    constructor
    · intro h₀
      cases h₀
      exact ⟨rest, h, rfl⟩
    · intro h₀
      obtain ⟨rest', h', hspan⟩ := h₀
      obtain ⟨rfl, rfl⟩ := h.unique h'
      rw [← hspan]
  · rw [herr]
    constructor
    · intro h₀
      cases h₀
    · intro h₀
      obtain ⟨rest', h', -⟩ := h₀
      exact absurd h h'.not_fails

/-- An error is that of a fault which the rules meet. -/
theorem failsBody_of_parseTokens (hfin : fin.kind = .eof)
    (h : parseTokens (ts ++ [fin]) o = .error err) :
    ∃ f rest, FailsBody (BinaryOp.binding o.powers) o.mode o.maxDepth ts f rest ∧
      err = f.errorAt o.maxDepth (rest.headD fin) := by
  obtain ⟨sts, rest, hr, hok⟩ | ⟨f, rest, hf, herr⟩ := parseTokens_cases hfin ts o
  · rw [hok] at h
    cases h
  · exact ⟨f, rest, hf, Except.error.inj (h.symm.trans herr)⟩

end

end ArithLang
