/-
  How reading an expression goes, as rules.

  `Reads b k floor task ts e rest`: with `k` levels of nesting to spare, from the tokens `ts`
  the task comes to the expression `e` with `rest` still ahead. `Fails` is the same for a task
  that does not come to an end, with the fault it meets and the tokens ahead of it there.
  Every operator binds as the table `b` says.

  Two tasks make up an expression. A step reads a first operand, or an operator and its right
  operand behind what is there already. The whole takes steps until no operator reaches the
  floor, and each of its steps costs a level.

  What is read is unique (`Reads.unique`), more levels change nothing (`Reads.mono`), and of
  the tokens ahead only the kind of the first one counts (`Reads.change_rest`). Where a task
  fails, nothing can be read whatever comes later (`Fails.not_reads`).
-/
import ArithLang.Proofs.Grammar
import ArithLang.Rules

namespace ArithLang

/-- The rules of the language with operators that bind as `b` says. -/
def Rules.ofBindings (b : BinaryOp → Binding) : Rules :=
  { Rules.standard .left with binding? := fun kind => (BinaryOp.ofKind? kind).map b }

theorem Rules.standard_eq_ofBindings (powers : Associativity) :
    Rules.standard powers = .ofBindings (BinaryOp.binding powers) := rfl

/-- No operator ahead that reaches the floor. -/
def Stops (b : BinaryOp → Binding) (floor : Level) (ts : List Token) : Prop :=
  ∀ op : BinaryOp, frontKind ts = op.kind → (b op).level < floor

/-- How far an expression has been read: nothing yet, or a part that is complete. -/
inductive Phase where
  | start
  | behind (left : Expr)

/-- What is to be read next: a single operand with the operator in front of it if there is
    one, or everything up to the end of the expression. -/
inductive Task where
  | step (phase : Phase)
  | whole (phase : Phase)

/-- Why reading stops short. -/
inductive Fault where
  /-- No level of nesting is left. -/
  | tooDeep
  /-- Something has to stand here and does not. -/
  | missing (expected : String)

/-- From the tokens in front, the task comes to an expression and leaves the other tokens. -/
inductive Reads (b : BinaryOp → Binding) :
    Nat → Level → Task → List Token → Expr → List Token → Prop where
  | literal {k : Nat} {floor : Level} {t : Token} {ts : List Token} {e : Expr}
      (he : t.literal? = some e) : Reads b k floor (.step .start) (t :: ts) e ts
  | sign {k : Nat} {floor : Level} {op : UnaryOp} {t : Token} {ts rest : List Token} {x : Expr}
      (ht : t.kind = op.kind) (hx : Reads b k .unary (.whole .start) ts x rest) :
      Reads b k floor (.step .start) (t :: ts) (.unary op x (.cover t.span x.span)) rest
  | group {k : Nat} {floor : Level} {o c : Token} {ts rest : List Token} {x : Expr}
      (ho : o.kind = .openParen) (hx : Reads b k .lowest (.whole .start) ts x (c :: rest))
      (hc : c.kind = .closeParen) :
      Reads b k floor (.step .start) (o :: ts) (.group x (.cover o.span c.span)) rest
  | join {k : Nat} {floor : Level} {op : BinaryOp} {t : Token} {ts rest : List Token}
      {left r : Expr} (ht : t.kind = op.kind) (hf : floor ≤ (b op).level)
      (hr : Reads b k (b op).operandFloor (.whole .start) ts r rest) :
      Reads b k floor (.step (.behind left)) (t :: ts)
        (.binary op left r (.cover left.span r.span)) rest
  | stop {k : Nat} {floor : Level} {ts : List Token} {left : Expr} (h : Stops b floor ts) :
      Reads b k floor (.whole (.behind left)) ts left ts
  | go {k : Nat} {floor : Level} {phase : Phase} {ts mid rest : List Token} {left e : Expr}
      (hs : Reads b k floor (.step phase) ts left mid)
      (h : Reads b k floor (.whole (.behind left)) mid e rest) :
      Reads b (k + 1) floor (.whole phase) ts e rest

/-- From the tokens in front, the task meets a fault in front of the other tokens. -/
inductive Fails (b : BinaryOp → Binding) :
    Nat → Level → Task → List Token → Fault → List Token → Prop where
  | noRoom {floor : Level} {ts : List Token} : Fails b 0 floor (.whole .start) ts .tooDeep ts
  | noFold {floor : Level} {left : Expr} {ts : List Token} (h : ¬ Stops b floor ts) :
      Fails b 0 floor (.whole (.behind left)) ts .tooDeep ts
  | noStart {k : Nat} {floor : Level} {ts : List Token}
      (h : (Rules.ofBindings b).start? (frontKind ts) = none) :
      Fails b k floor (.step .start) ts (.missing "expression") ts
  | sign {k : Nat} {floor : Level} {op : UnaryOp} {t : Token} {ts rest : List Token} {f : Fault}
      (ht : t.kind = op.kind) (h : Fails b k .unary (.whole .start) ts f rest) :
      Fails b k floor (.step .start) (t :: ts) f rest
  | group {k : Nat} {floor : Level} {o : Token} {ts rest : List Token} {f : Fault}
      (ho : o.kind = .openParen) (h : Fails b k .lowest (.whole .start) ts f rest) :
      Fails b k floor (.step .start) (o :: ts) f rest
  | unclosed {k : Nat} {floor : Level} {o : Token} {ts rest : List Token} {x : Expr}
      (ho : o.kind = .openParen) (hx : Reads b k .lowest (.whole .start) ts x rest)
      (hc : frontKind rest ≠ .closeParen) :
      Fails b k floor (.step .start) (o :: ts) (.missing Kind.closeParen.describe) rest
  | operand {k : Nat} {floor : Level} {op : BinaryOp} {t : Token} {ts rest : List Token}
      {left : Expr} {f : Fault} (ht : t.kind = op.kind) (hf : floor ≤ (b op).level)
      (h : Fails b k (b op).operandFloor (.whole .start) ts f rest) :
      Fails b k floor (.step (.behind left)) (t :: ts) f rest
  | first {k : Nat} {floor : Level} {phase : Phase} {ts rest : List Token} {f : Fault}
      (hs : Fails b k floor (.step phase) ts f rest) :
      Fails b (k + 1) floor (.whole phase) ts f rest
  | later {k : Nat} {floor : Level} {phase : Phase} {ts mid rest : List Token} {left : Expr}
      {f : Fault} (hs : Reads b k floor (.step phase) ts left mid)
      (h : Fails b k floor (.whole (.behind left)) mid f rest) :
      Fails b (k + 1) floor (.whole phase) ts f rest

variable {b : BinaryOp → Binding}

/-! ## Stopping -/

/-- `rest'` goes on at most as `rest` does: an operator in front of it stands there too. -/
def GoesOnAs (rest' rest : List Token) : Prop :=
  ∀ op : BinaryOp, frontKind rest' = op.kind → frontKind rest = op.kind

theorem Stops.of_goesOnAs {floor : Level} {rest rest' : List Token} (h : Stops b floor rest)
    (hr : GoesOnAs rest' rest) : Stops b floor rest' :=
  fun op hop => h op (hr op hop)

theorem goesOnAs_of_frontKind {rest rest' : List Token} (h : frontKind rest' = frontKind rest) :
    GoesOnAs rest' rest :=
  fun _ hop => h ▸ hop

theorem GoesOnAs.append {pre rest rest' : List Token} (h : GoesOnAs rest' rest) :
    GoesOnAs (pre ++ rest') (pre ++ rest) := by
  cases pre with
  | nil => exact h
  | cons t pre => exact fun _ hop => hop

/-- A step behind an expression starts with an operator that reaches the floor. -/
theorem Reads.not_stops {k : Nat} {floor : Level} {left e : Expr} {ts rest : List Token}
    (h : Reads b k floor (.step (.behind left)) ts e rest) : ¬ Stops b floor ts := by
  cases h with
  | join ht hf hr => exact fun hs => absurd (hs _ ht) (Level.not_lt.2 hf)

theorem Fails.not_stops {k : Nat} {floor : Level} {left : Expr} {f : Fault} {ts rest : List Token}
    (h : Fails b k floor (.step (.behind left)) ts f rest) : ¬ Stops b floor ts := by
  cases h with
  | operand ht hf h => exact fun hs => absurd (hs _ ht) (Level.not_lt.2 hf)

/-! ## How the first token decides -/

theorem UnaryOp.eq_of_kind_eq {op op' : UnaryOp} (h : op.kind = op'.kind) : op = op' := by
  cases op <;> cases op' <;> simp_all [UnaryOp.kind]

theorem BinaryOp.eq_of_kind_eq {op op' : BinaryOp} (h : op.kind = op'.kind) : op = op' := by
  cases op <;> cases op' <;> simp_all [BinaryOp.kind]

theorem literal?_eq_none_of_sign {op : UnaryOp} {t : Token} (h : t.kind = op.kind) :
    t.literal? = none := by
  cases op <;> simp [Token.literal?, h, UnaryOp.kind]

theorem literal?_eq_none_of_openParen {t : Token} (h : t.kind = .openParen) :
    t.literal? = none := by
  simp [Token.literal?, h]

theorem UnaryOp.kind_ne_openParen (op : UnaryOp) : op.kind ≠ .openParen := by
  cases op <;> decide

/-- The first step starts with a token that starts an expression. -/
theorem Reads.start? {k : Nat} {floor : Level} {e : Expr} {ts rest : List Token}
    (h : Reads b k floor (.step .start) ts e rest) :
    (Rules.ofBindings b).start? (frontKind ts) ≠ none := by
  cases h with
  | literal he =>
      rcases Expr.literal?_eq_some_iff.1 he with ⟨hk, -⟩ | ⟨hk, -⟩ <;>
        simp [hk, Rules.ofBindings, Rules.standard]
  | @sign _ _ op t _ _ _ ht hx =>
      cases op <;> simp [ht, UnaryOp.kind, Rules.ofBindings, Rules.standard]
  | group ho hx hc => simp [ho, Rules.ofBindings, Rules.standard]

theorem Reads.of_sign {k : Nat} {floor : Level} {op : UnaryOp} {t : Token} {e : Expr}
    {ts rest : List Token} (ht : t.kind = op.kind)
    (h : Reads b k floor (.step .start) (t :: ts) e rest) :
    ∃ x, Reads b k .unary (.whole .start) ts x rest ∧ e = .unary op x (.cover t.span x.span) := by
  cases h with
  | literal he => rw [literal?_eq_none_of_sign ht] at he; cases he
  | sign ht' hx =>
      obtain rfl := UnaryOp.eq_of_kind_eq (ht.symm.trans ht')
      exact ⟨_, hx, rfl⟩
  | group ho hx hc => exact absurd (ht.symm.trans ho) (UnaryOp.kind_ne_openParen _)

theorem Reads.of_openParen {k : Nat} {floor : Level} {o : Token} {e : Expr}
    {ts rest : List Token} (ho : o.kind = .openParen)
    (h : Reads b k floor (.step .start) (o :: ts) e rest) :
    ∃ x c, Reads b k .lowest (.whole .start) ts x (c :: rest) ∧ c.kind = .closeParen ∧
      e = .group x (.cover o.span c.span) := by
  cases h with
  | literal he => rw [literal?_eq_none_of_openParen ho] at he; cases he
  | sign ht hx => exact absurd (ht.symm.trans ho) (UnaryOp.kind_ne_openParen _)
  | group ho' hx hc => exact ⟨_, _, hx, hc, rfl⟩

theorem Reads.of_operator {k : Nat} {floor : Level} {op : BinaryOp} {t : Token} {left e : Expr}
    {ts rest : List Token} (ht : t.kind = op.kind)
    (h : Reads b k floor (.step (.behind left)) (t :: ts) e rest) :
    ∃ r, Reads b k (b op).operandFloor (.whole .start) ts r rest ∧
      e = .binary op left r (.cover left.span r.span) := by
  cases h with
  | join ht' hf hr =>
      obtain rfl := BinaryOp.eq_of_kind_eq (ht.symm.trans ht')
      exact ⟨_, hr, rfl⟩

theorem Fails.of_sign {k : Nat} {floor : Level} {op : UnaryOp} {t : Token} {f : Fault}
    {ts rest : List Token} (ht : t.kind = op.kind)
    (h : Fails b k floor (.step .start) (t :: ts) f rest) :
    Fails b k .unary (.whole .start) ts f rest := by
  cases h with
  | noStart h =>
      rw [frontKind_cons, ht] at h
      cases op <;> cases h
  | sign ht' h =>
      obtain rfl := UnaryOp.eq_of_kind_eq (ht.symm.trans ht')
      exact h
  | group ho h => exact absurd (ht.symm.trans ho) (UnaryOp.kind_ne_openParen _)
  | unclosed ho hx hc => exact absurd (ht.symm.trans ho) (UnaryOp.kind_ne_openParen _)

theorem Fails.of_openParen {k : Nat} {floor : Level} {o : Token} {f : Fault}
    {ts rest : List Token} (ho : o.kind = .openParen)
    (h : Fails b k floor (.step .start) (o :: ts) f rest) :
    Fails b k .lowest (.whole .start) ts f rest ∨
      (∃ x, Reads b k .lowest (.whole .start) ts x rest) ∧
        f = .missing Kind.closeParen.describe := by
  cases h with
  | noStart h =>
      rw [frontKind_cons, ho] at h
      cases h
  | sign ht h => exact absurd (ht.symm.trans ho) (UnaryOp.kind_ne_openParen _)
  | group ho' h => exact .inl h
  | unclosed ho' hx hc => exact .inr ⟨⟨_, hx⟩, rfl⟩

theorem Fails.of_operator {k : Nat} {floor : Level} {op : BinaryOp} {t : Token} {left : Expr}
    {f : Fault} {ts rest : List Token} (ht : t.kind = op.kind)
    (h : Fails b k floor (.step (.behind left)) (t :: ts) f rest) :
    Fails b k (b op).operandFloor (.whole .start) ts f rest := by
  cases h with
  | operand ht' hf h =>
      obtain rfl := BinaryOp.eq_of_kind_eq (ht.symm.trans ht')
      exact h

/-- Where nothing starts an expression, that is the fault. -/
theorem Fails.of_start?_eq_none {k : Nat} {floor : Level} {f : Fault} {ts rest : List Token}
    (hn : (Rules.ofBindings b).start? (frontKind ts) = none)
    (h : Fails b k floor (.step .start) ts f rest) : f = .missing "expression" ∧ rest = ts := by
  cases h with
  | noStart h => exact ⟨rfl, rfl⟩
  | @sign _ _ op t _ _ _ ht h =>
      rw [frontKind_cons, ht] at hn
      cases op <;> cases hn
  | group ho h =>
      rw [frontKind_cons, ho] at hn
      cases hn
  | unclosed ho hx hc =>
      rw [frontKind_cons, ho] at hn
      cases hn

/-! ## Levels and the tokens ahead -/

/-- More levels change nothing about what is read. -/
theorem Reads.mono {k k' : Nat} {floor : Level} {task : Task} {e : Expr} {ts rest : List Token}
    (h : Reads b k floor task ts e rest) (hk : k ≤ k') : Reads b k' floor task ts e rest := by
  induction h generalizing k' with
  | literal he => exact .literal he
  | sign ht hx ih => exact .sign ht (ih hk)
  | group ho hx hc ih => exact .group ho (ih hk) hc
  | join ht hf hr ih => exact .join ht hf (ih hk)
  | stop h => exact .stop h
  | go hs h ihs ih =>
      cases k' with
      | zero => omega
      | succ k' => exact .go (ihs (by omega)) (ih (by omega))

/-- What is read is a front part of the tokens. It is read just so in front of any other
    tokens that do not go on further. -/
theorem Reads.change_rest {k : Nat} {floor : Level} {task : Task} {e : Expr}
    {ts rest : List Token} (h : Reads b k floor task ts e rest) :
    ∃ used, ts = used ++ rest ∧
      ∀ rest', GoesOnAs rest' rest → Reads b k floor task (used ++ rest') e rest' := by
  induction h with
  | @literal k floor t ts e he => exact ⟨[t], rfl, fun _ _ => .literal he⟩
  | @sign k floor op t ts rest x ht hx ih =>
      obtain ⟨used, rfl, hr⟩ := ih
      exact ⟨t :: used, rfl, fun rest' h => .sign ht (hr rest' h)⟩
  | @group k floor o c ts rest x ho hx hc ih =>
      obtain ⟨used, rfl, hr⟩ := ih
      refine ⟨o :: (used ++ [c]), by simp, fun rest' _ => ?_⟩
      have hx' := hr (c :: rest') fun _ hop => hop
      rw [List.cons_append, List.append_assoc]
      exact .group ho hx' hc
  | @join k floor op t ts rest left r ht hf hr ih =>
      obtain ⟨used, rfl, hr'⟩ := ih
      exact ⟨t :: used, rfl, fun rest' h => .join ht hf (hr' rest' h)⟩
  | stop h => exact ⟨[], rfl, fun rest' hr => .stop (h.of_goesOnAs hr)⟩
  | go hs h ihs ih =>
      obtain ⟨used, rfl, hr⟩ := ihs
      obtain ⟨used', rfl, hr'⟩ := ih
      refine ⟨used ++ used', by simp, fun rest' h => ?_⟩
      rw [List.append_assoc]
      exact .go (hr _ h.append) (hr' rest' h)

/-! ## Uniqueness -/

/-- At most one expression is read, whatever the number of levels. -/
theorem Reads.unique {k k' : Nat} {floor : Level} {task : Task} {e e' : Expr}
    {ts rest rest' : List Token} (h : Reads b k floor task ts e rest)
    (h' : Reads b k' floor task ts e' rest') : e = e' ∧ rest = rest' := by
  induction h generalizing k' e' rest' with
  | literal he =>
      cases h' with
      | literal he' => exact ⟨Option.some.inj (he.symm.trans he'), rfl⟩
      | sign ht hx => rw [literal?_eq_none_of_sign ht] at he; cases he
      | group ho hx hc => rw [literal?_eq_none_of_openParen ho] at he; cases he
  | sign ht hx ih =>
      obtain ⟨x', hx', rfl⟩ := h'.of_sign ht
      obtain ⟨rfl, rfl⟩ := ih hx'
      exact ⟨rfl, rfl⟩
  | group ho hx hc ih =>
      obtain ⟨x', c', hx', hc', rfl⟩ := h'.of_openParen ho
      obtain ⟨rfl, hrest⟩ := ih hx'
      obtain ⟨rfl, rfl⟩ := List.cons.inj hrest
      exact ⟨rfl, rfl⟩
  | join ht hf hr ih =>
      obtain ⟨r', hr', rfl⟩ := h'.of_operator ht
      obtain ⟨rfl, rfl⟩ := ih hr'
      exact ⟨rfl, rfl⟩
  | stop h =>
      cases h' with
      | stop h' => exact ⟨rfl, rfl⟩
      | go hs' h' => exact absurd h hs'.not_stops
  | @go k floor phase ts mid rest left e hs h ihs ih =>
      cases h' with
      | stop h' => exact absurd h' hs.not_stops
      | go hs' h' =>
          obtain ⟨rfl, rfl⟩ := ihs hs'
          exact ih h'

/-! ## Faults -/

/-- A task that fails leaves a back part of the tokens. No expression is read from tokens
    with the same front part, whatever stands behind the kind that comes next; if only levels
    were missing, this goes for as few levels or fewer. -/
theorem Fails.not_reads {k : Nat} {floor : Level} {task : Task} {f : Fault} {ts rest : List Token}
    (h : Fails b k floor task ts f rest) :
    ∃ used, ts = used ++ rest ∧ ∀ (rest' : List Token) (k' : Nat) (e : Expr) (out : List Token),
      frontKind rest' = frontKind rest → (f = .tooDeep → k' ≤ k) →
        ¬ Reads b k' floor task (used ++ rest') e out := by
  induction h with
  | noRoom =>
      refine ⟨[], rfl, fun rest' k' e out _ hk h => ?_⟩
      cases h with
      | go hs h => exact absurd (hk rfl) (Nat.not_succ_le_zero _)
  | noFold h =>
      refine ⟨[], rfl, fun rest' k' e out hr hk h' => ?_⟩
      cases h' with
      | stop hs => exact h (hs.of_goesOnAs (goesOnAs_of_frontKind hr.symm))
      | go hs h' => exact absurd (hk rfl) (Nat.not_succ_le_zero _)
  | noStart h =>
      refine ⟨[], rfl, fun rest' k' e out hr _ h' => ?_⟩
      have := h'.start?
      rw [List.nil_append, hr] at this
      exact this h
  | @sign k floor op t ts rest f ht h ih =>
      obtain ⟨used, rfl, hn⟩ := ih
      refine ⟨t :: used, rfl, fun rest' k' e out hr hk h' => ?_⟩
      obtain ⟨x, hx, -⟩ := h'.of_sign ht
      exact hn rest' k' _ _ hr hk hx
  | @group k floor o ts rest f ho h ih =>
      obtain ⟨used, rfl, hn⟩ := ih
      refine ⟨o :: used, rfl, fun rest' k' e out hr hk h' => ?_⟩
      obtain ⟨x, c, hx, -⟩ := h'.of_openParen ho
      exact hn rest' k' _ _ hr hk hx
  | @unclosed k floor o ts rest x ho hx hc =>
      obtain ⟨used, rfl, hr⟩ := hx.change_rest
      refine ⟨o :: used, rfl, fun rest' k' e out hk _ h' => ?_⟩
      obtain ⟨x', c, hx', hc', -⟩ := h'.of_openParen ho
      obtain ⟨-, rfl⟩ := (hr rest' (goesOnAs_of_frontKind hk)).unique hx'
      exact hc (hk ▸ hc')
  | @operand k floor op t ts rest left f ht hf h ih =>
      obtain ⟨used, rfl, hn⟩ := ih
      refine ⟨t :: used, rfl, fun rest' k' e out hr hk h' => ?_⟩
      obtain ⟨r, hr', -⟩ := h'.of_operator ht
      exact hn rest' k' _ _ hr hk hr'
  | @first k floor phase ts rest f hs ih =>
      obtain ⟨used, rfl, hn⟩ := ih
      refine ⟨used, rfl, fun rest' k' e out hr hk h' => ?_⟩
      cases h' with
      | stop h' => exact hs.not_stops (h'.of_goesOnAs (goesOnAs_of_frontKind hr.symm).append)
      | go hs' h' => exact hn rest' _ _ _ hr (fun hf => Nat.le_of_succ_le_succ (hk hf)) hs'
  | @later k floor phase ts mid rest left f hs h ih =>
      obtain ⟨used', rfl, hn⟩ := ih
      obtain ⟨used, rfl, hr⟩ := hs.change_rest
      refine ⟨used ++ used', by simp, fun rest' k' e out hk hd h' => ?_⟩
      rw [List.append_assoc] at h'
      have hs' := hr (used' ++ rest') (goesOnAs_of_frontKind hk).append
      cases h' with
      | stop h' => exact hs'.not_stops h'
      | go hs'' h' =>
          obtain ⟨rfl, rfl⟩ := hs'.unique hs''
          exact hn rest' _ _ _ hk (fun hf => Nat.le_of_succ_le_succ (hd hf)) h'

/-- What can be read does not fail. -/
theorem Reads.not_fails {k : Nat} {floor : Level} {task : Task} {e : Expr} {f : Fault}
    {ts rest out : List Token} (h : Reads b k floor task ts e rest) :
    ¬ Fails b k floor task ts f out := by
  intro hf
  obtain ⟨used, rfl, hn⟩ := hf.not_reads
  exact hn out k e rest rfl (fun _ => Nat.le_refl k) h

end ArithLang
