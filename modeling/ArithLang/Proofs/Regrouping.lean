/-
  Every tree can be regrouped into a canonical one.

  Tokens do not say how they are grouped, and each table of bindings allows one way to do it.
  An operator with a single operand goes behind an expression by going down its right edge as
  far as the operators there leave it to their right operands (`Part.exists_snoc`); a whole
  expression goes there operand by operand (`Part.exists_join`), and a sign goes to the first
  operand (`Part.exists_sign`). So tokens that spell any tree spell a canonical one
  (`Spells.exists_part`), and no other (`Part.unique`).

  With a level of nesting for each token there is always room to read it
  (`Spells.need_le_length`). Which tokens are a statement does then not depend on the bindings
  (`exists_readsStmt_iff`).
-/
import ArithLang.Proofs.Program

namespace ArithLang

variable {b : BinaryOp → Binding}

namespace Expr

/-! ## Regrouping -/

/-- What is canonical and at a floor is so at the lowest one. -/
theorem Part.lowest {floor : Level} {e : Expr} {ts : List Token} (h : e.Part b floor ts) :
    e.Part b .lowest ts :=
  ⟨h.spells, h.canonical, e.atFloor_lowest⟩

/-- The operands of an operator on top are parts, the right one at its floor. -/
theorem Part.of_binary {floor : Level} {op : BinaryOp} {l r : Expr} {s : Span} {ts : List Token}
    (h : (Expr.binary op l r s).Part b floor ts) :
    ∃ ls t rs, ts = ls ++ t :: rs ∧ t.kind = op.kind ∧ l.Part b .lowest ls ∧
      l.EndsBefore b (b op).level ∧ r.Part b (b op).operandFloor rs := by
  obtain ⟨ls, t, rs, rfl, hl, ht, hr, -⟩ := h.spells.of_binary
  obtain ⟨hcl, hel, hcr, hfr⟩ := h.canonical
  exact ⟨ls, t, rs, rfl, ht, ⟨hl, hcl, l.atFloor_lowest⟩, hel, hr, hcr, hfr⟩

/-- An operator with an operand that stays at every floor can be put behind an expression, and
    the floor is kept. -/
theorem Part.exists_snoc {op : BinaryOp} {t : Token} {x : Expr} {xs : List Token}
    (ht : t.kind = op.kind) (hx : ∀ floor, x.Part b floor xs) {floor : Level} {l : Expr}
    {ls : List Token} (hl : l.Part b floor ls) (hf : floor ≤ (b op).level) :
    ∃ e : Expr, e.Part b floor (ls ++ t :: xs) := by
  induction l generalizing floor ls with
  | binary op' l r s _ ihr =>
      by_cases he : (b op).level < (b op').operandFloor
      · exact ⟨_, hl.binary he ht (hx _) hf⟩
      · -- The right operand of `op'` goes on with `op`.
        obtain ⟨ls, t', rs, rfl, ht', hl', hel, hr⟩ := hl.of_binary
        obtain ⟨r', hr'⟩ := ihr hr (Level.not_lt.1 he)
        have h := hl'.binary hel ht' hr' hl.atFloor
        exact ⟨_, by simpa using h⟩
  | _ => exact ⟨_, hl.binary trivial ht (hx _) hf⟩

/-- An operator with any expression can be put behind another one. -/
theorem Part.exists_join {op : BinaryOp} {t : Token} {l r : Expr} {ls rs : List Token}
    (hl : l.Part b .lowest ls) (ht : t.kind = op.kind) (hr : r.Part b .lowest rs) :
    ∃ e : Expr, e.Part b .lowest (ls ++ t :: rs) := by
  induction r generalizing op t l ls rs with
  | binary op' l' r' s ihl ihr =>
      obtain ⟨ls', t', rs', rfl, ht', hl', -, hr'⟩ := hr.of_binary
      obtain ⟨m, hm⟩ := ihl hl ht hl'
      obtain ⟨e, he⟩ := ihr hm ht' hr'.lowest
      exact ⟨e, by simpa using he⟩
  | _ => exact hl.exists_snoc ht (fun _ => ⟨hr.spells, hr.canonical, trivial⟩) (Level.lowest_le _)

/-- A sign can be put in front of an expression, whose first operand it takes. -/
theorem Part.exists_sign {op : UnaryOp} {t : Token} {x : Expr} {ts : List Token}
    (ht : t.kind = op.kind) (hx : x.Part b .lowest ts) :
    ∃ e : Expr, e.Part b .lowest (t :: ts) := by
  induction x generalizing ts with
  | binary op' l r s ihl _ =>
      obtain ⟨ls, t', rs, rfl, ht', hl, -, hr⟩ := hx.of_binary
      obtain ⟨m, hm⟩ := ihl hl
      exact hm.exists_join ht' hr.lowest
  | _ => exact ⟨_, .unary ht hx.spells, ⟨hx.canonical, trivial⟩, trivial⟩

/-- Tokens that spell a tree spell a canonical one. -/
theorem Spells.exists_part (b : BinaryOp → Binding) {e : Expr} {ts : List Token}
    (h : e.Spells ts) : ∃ e' : Expr, e'.Part b .lowest ts := by
  induction h with
  | literal he =>
      obtain ⟨hc, hf, -⟩ := literal?_facts (b := b) he
      exact ⟨_, .literal he, hc, hf _⟩
  | unary ht _ ih =>
      obtain ⟨x, hx⟩ := ih
      exact hx.exists_sign ht
  | binary _ ht _ ihl ihr =>
      obtain ⟨l, hl⟩ := ihl
      obtain ⟨r, hr⟩ := ihr
      exact hl.exists_join ht hr
  | group ho _ hc ih =>
      obtain ⟨x, hx⟩ := ih
      exact ⟨_, .group ho hx.spells hc, hx.canonical, trivial⟩

/-- Tokens spell no more than one canonical tree. -/
theorem Part.unique (hb : ∀ op, (b op).level < .unary) {floor : Level} {e e' : Expr}
    {ts : List Token} (h : e.Part b floor ts) (h' : e'.Part b floor ts) : e = e' := by
  have hreads := h.reads hb (stops_nil floor) (Nat.le_refl e.need)
  have hreads' := h'.reads hb (stops_nil floor) (Nat.le_refl e'.need)
  exact (hreads.unique hreads').1

/-! ## Room enough -/

theorem Spells.spine_lt_length {e : Expr} {ts : List Token} (h : e.Spells ts) :
    e.spine < ts.length := by
  induction h with
  | literal he =>
      obtain ⟨-, -, -, -, hs⟩ := literal?_facts (b := BinaryOp.binding .left) he
      simp [hs]
  | unary | group => simp [spine]
  | binary _ _ _ ihl _ =>
      simp only [spine, List.length_append, List.length_cons]
      omega

theorem Spells.need_le_length {e : Expr} {ts : List Token} (h : e.Spells ts) :
    e.need ≤ ts.length := by
  induction h with
  | literal he =>
      obtain ⟨-, -, -, hn, -⟩ := literal?_facts (b := BinaryOp.binding .left) he
      simp [hn]
  | unary _ _ ih =>
      simp only [need, List.length_cons]
      omega
  | binary hl _ _ ihl ihr =>
      have := hl.spine_lt_length
      simp only [need, List.length_append, List.length_cons]
      omega
  | group _ _ _ ih =>
      simp only [need, List.length_cons, List.length_append]
      omega

end Expr

/-! ## Statements -/

theorem Stmt.Spells.need_le_length {st : Stmt} {ts : List Token} (h : st.Spells ts) :
    st.expr.need ≤ ts.length := by
  obtain ⟨front, used, rfl, he⟩ := h.expr
  rw [List.length_append]
  exact Nat.le_add_left_of_le he.need_le_length

theorem Stmt.Spells.exists_canonical (b : BinaryOp → Binding) {st : Stmt} {ts : List Token}
    (h : st.Spells ts) : ∃ st' : Stmt, st'.Spells ts ∧ st'.expr.Canonical b := by
  cases h with
  | assignment hn he hv =>
      obtain ⟨v, hv⟩ := hv.exists_part b
      exact ⟨_, .assignment hn he hv.spells, hv.canonical⟩
  | expression he =>
      obtain ⟨e, he⟩ := he.exists_part b
      exact ⟨_, .expression he.spells, he.canonical⟩

/-- With a level for each token, a statement is read from the tokens of any statement. -/
theorem exists_readsStmt_iff (hb : ∀ op, (b op).level < .unary) {k : Nat} {ts : List Token}
    (hk : ts.length ≤ k) :
    (∃ st, ReadsStmt b k ts st []) ↔ ∃ st : Stmt, st.Spells ts := by
  simp only [readsStmt_nil_iff hb]
  constructor
  · intro h
    obtain ⟨st, hst, -⟩ := h
    exact ⟨st, hst⟩
  · intro h
    obtain ⟨st, hst⟩ := h
    obtain ⟨st', hst', hc⟩ := hst.exists_canonical b
    exact ⟨st', hst', hc, Nat.le_trans hst'.need_le_length hk⟩

end ArithLang
