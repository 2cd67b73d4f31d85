/-
  What a single statement is accepted as.

  The grammar is stated without the parser. An operator has a tier: sums the first, products
  the second, powers the third. Which operator may stand without parentheses as an operand of
  which is said by the tiers alone (`Expr.KeepsPrecedence`). A statement derives the tokens
  that it yields, if it keeps to the tiers and its nesting stays within the limit.

  `parseTokens_single_iff_derives`: tokens are accepted as a single statement exactly when one
  derives them, and what is accepted is that statement, the only one there is.
-/
import ArithLang.Proofs.Program

namespace ArithLang

/-! ## Tiers -/

namespace BinaryOp

/-- How tightly the operator binds: sums first, then products, then powers. -/
def tier : BinaryOp → Nat
  | add | subtract => 1
  | multiply | divide => 2
  | power => 3

/-- Chains of the operator group to the right. -/
def GroupsRight (powers : Associativity) (op : BinaryOp) : Prop := op = power ∧ powers = .right

/-- `inner` may stand without parentheses as the right operand of `op`. -/
def TakesRight (powers : Associativity) (op inner : BinaryOp) : Prop :=
  op.tier < inner.tier ∨ op.GroupsRight powers ∧ inner.tier = op.tier

/-- `inner` may stand without parentheses as the left operand of `op`. -/
def TakesLeft (powers : Associativity) (op inner : BinaryOp) : Prop :=
  op.tier ≤ inner.tier ∧ ¬ (op.GroupsRight powers ∧ inner.tier = op.tier)

instance (powers : Associativity) (op : BinaryOp) : Decidable (op.GroupsRight powers) :=
  inferInstanceAs (Decidable (op = power ∧ powers = .right))

instance (powers : Associativity) (op inner : BinaryOp) : Decidable (op.TakesRight powers inner) :=
  inferInstanceAs (Decidable (_ ∨ _))

instance (powers : Associativity) (op inner : BinaryOp) : Decidable (op.TakesLeft powers inner) :=
  inferInstanceAs (Decidable (_ ∧ _))

theorem takesRight_iff {powers : Associativity} {op inner : BinaryOp} :
    op.TakesRight powers inner ↔
      (op.binding powers).operandFloor ≤ (inner.binding powers).level := by
  cases powers <;> cases op <;> cases inner <;> decide

theorem takesLeft_iff {powers : Associativity} {op inner : BinaryOp} :
    op.TakesLeft powers inner ↔
      (op.binding powers).level < (inner.binding powers).operandFloor := by
  cases powers <;> cases op <;> cases inner <;> decide

end BinaryOp

namespace Expr

/-- The operator on top, if the expression is not between parentheses. -/
def topOp? : Expr → Option BinaryOp
  | binary op _ _ _ => some op
  | _ => none

/-- Every operand without parentheses may stand where it stands: behind a sign there is no
    operator on top, and the operands of an operator have one that it takes. -/
def KeepsPrecedence (powers : Associativity) : Expr → Prop
  | number _ _ => True
  | identifier _ _ => True
  | unary _ x _ => x.KeepsPrecedence powers ∧ x.topOp? = none
  | binary op l r _ =>
      l.KeepsPrecedence powers ∧ (∀ inner, l.topOp? = some inner → op.TakesLeft powers inner) ∧
        r.KeepsPrecedence powers ∧ ∀ inner, r.topOp? = some inner → op.TakesRight powers inner
  | group x _ => x.KeepsPrecedence powers

variable {powers : Associativity}

theorem endsBefore_iff {op : BinaryOp} (e : Expr) :
    e.EndsBefore (BinaryOp.binding powers) (op.binding powers).level ↔
      ∀ inner, e.topOp? = some inner → op.TakesLeft powers inner := by
  cases e <;> simp [EndsBefore, topOp?, BinaryOp.takesLeft_iff]

theorem atFloor_operandFloor_iff {op : BinaryOp} (e : Expr) :
    e.AtFloor (BinaryOp.binding powers) (op.binding powers).operandFloor ↔
      ∀ inner, e.topOp? = some inner → op.TakesRight powers inner := by
  cases e <;> simp [AtFloor, topOp?, BinaryOp.takesRight_iff]

theorem atFloor_unary_iff (e : Expr) :
    e.AtFloor (BinaryOp.binding powers) .unary ↔ e.topOp? = none := by
  cases e with
  | binary op l r s =>
      have hlt : ¬ .unary ≤ (op.binding powers).level := fun h =>
        Level.not_lt.2 h (BinaryOp.binding_level_lt_unary powers op)
      simpa [AtFloor, topOp?] using hlt
  | _ => simp [AtFloor, topOp?]

/-- The floors of the parser and the tiers allow the same trees. -/
theorem canonical_binding_iff (e : Expr) :
    e.Canonical (BinaryOp.binding powers) ↔ e.KeepsPrecedence powers := by
  induction e with
  | number | identifier => exact Iff.rfl
  | unary op x s ih => exact and_congr ih x.atFloor_unary_iff
  | binary op l r s ihl ihr =>
      exact and_congr ihl (and_congr l.endsBefore_iff (and_congr ihr r.atFloor_operandFloor_iff))
  | group x s ih => exact ih

end Expr

/-! ## Derivations -/

/-- The statement derives the tokens, with at most `limit` levels of nesting. Its spans do not
    matter. -/
structure Stmt.Derives (powers : Associativity) (limit : Nat) (ts : List Token) (st : Stmt) :
    Prop where
  yield : st.yield = ts.map Token.shape
  precedence : st.expr.KeepsPrecedence powers
  need : st.expr.need ≤ limit

section
variable {powers : Associativity} {limit : Nat} {ts : List Token} {st : Stmt}

/-- A single statement is read up to an end mark exactly when it is spelled there, canonical,
    and within the limit. -/
theorem readsBody_single_iff (hts : ∀ t ∈ ts, t.kind ≠ .eof) {sts : List Stmt}
    {rest : List Token} :
    ReadsBody (BinaryOp.binding powers) .single limit ts sts rest ↔
      ∃ st, sts = [st] ∧ rest = [] ∧ st.Spells ts ∧
        st.expr.Canonical (BinaryOp.binding powers) ∧ st.expr.need ≤ limit := by
  constructor
  · intro h
    cases h with
    | @single _ _ _ st h he =>
        obtain ⟨used, hused, -⟩ := h.change_rest
        obtain rfl : rest = [] := by
          rcases rest with _ | ⟨t, rest⟩
          · rfl
          · exact absurd he (hts t (by simp [hused]))
        exact ⟨st, rfl, rfl,
          (readsStmt_nil_iff (BinaryOp.binding_level_lt_unary powers)).1 h⟩
  · intro h'
    obtain ⟨st, rfl, rfl, h⟩ := h'
    exact .single ((readsStmt_nil_iff (BinaryOp.binding_level_lt_unary powers)).2 h) rfl

/-- What derives the tokens can be given their spans, and then is what is read. -/
theorem Stmt.Derives.readsBody (h : st.Derives powers limit ts) :
    ∃ st' : Stmt, st'.bare = st.bare ∧
      ReadsBody (BinaryOp.binding powers) .single limit ts [st'] [] := by
  obtain ⟨st', hb, hst⟩ := Stmt.exists_reads_of_yield (BinaryOp.binding_level_lt_unary powers)
    h.yield ((Expr.canonical_binding_iff _).2 h.precedence) h.need
  exact ⟨st', hb, .single hst rfl⟩

/-- What is read derives the tokens, and nothing else does, whatever the limit. -/
theorem derives_of_readsBody (hts : ∀ t ∈ ts, t.kind ≠ .eof) {sts : List Stmt}
    {rest : List Token} (h : ReadsBody (BinaryOp.binding powers) .single limit ts sts rest) :
    ∃ st, sts = [st] ∧ st.Derives powers limit ts ∧
      ∀ limit' st', Stmt.Derives powers limit' ts st' → st'.bare = st.bare := by
  obtain ⟨st, rfl, -, hst, hc, hk⟩ := (readsBody_single_iff hts).1 h
  refine ⟨st, rfl, ⟨hst.yield, (Expr.canonical_binding_iff _).1 hc, hk⟩, fun limit' st' hd => ?_⟩
  obtain ⟨st'', hb, h'⟩ := hd.readsBody
  obtain ⟨hsts, -⟩ := h.unique h'
  rw [← hb, (List.cons.inj hsts).1]

/-- Tokens are accepted as a single statement exactly when a statement derives them, and what
    is accepted is this statement: there is no other one. -/
theorem parseTokens_single_iff_derives {fin : Token} (hfin : fin.kind = .eof)
    (hts : ∀ t ∈ ts, t.kind ≠ .eof) :
    ((∃ p, parseTokens (ts ++ [fin]) ⟨.single, limit, powers⟩ = .ok p) ↔
      ∃ st : Stmt, st.Derives powers limit ts) ∧
    ∀ p, parseTokens (ts ++ [fin]) ⟨.single, limit, powers⟩ = .ok p →
      ∃ st, p.body = [st] ∧ st.Derives powers limit ts ∧
        ∀ limit' st', Stmt.Derives powers limit' ts st' → st'.bare = st.bare := by
  have hsound : ∀ p, parseTokens (ts ++ [fin]) ⟨.single, limit, powers⟩ = .ok p →
      ∃ st, p.body = [st] ∧ st.Derives powers limit ts ∧
        ∀ limit' st', Stmt.Derives powers limit' ts st' → st'.bare = st.bare := by
    intro p hp
    obtain ⟨rest, h, -⟩ := (parseTokens_eq_ok_iff hfin).1 hp
    exact derives_of_readsBody hts h
  refine ⟨⟨?_, ?_⟩, hsound⟩
  · intro h'
    obtain ⟨p, hp⟩ := h'
    obtain ⟨st, -, hd, -⟩ := hsound p hp
    exact ⟨st, hd⟩
  · intro h'
    obtain ⟨st, hd⟩ := h'
    obtain ⟨st', -, h⟩ := hd.readsBody
    exact ⟨⟨[st'], ⟨0, fin.span.start⟩⟩, (parseTokens_eq_ok_iff hfin).2 ⟨[], h, rfl⟩⟩

/-- `1 - 2` is accepted with three levels of nesting. -/
theorem parseTokens_difference :
    ∃ p, parseTokens ([⟨.number, "1", ⟨0, 1⟩⟩, ⟨.dash, "-", ⟨1, 2⟩⟩, ⟨.number, "2", ⟨2, 3⟩⟩] ++
      [.eof 3]) ⟨.single, 3, .left⟩ = .ok p := by
  refine (parseTokens_single_iff_derives rfl (by decide)).1.2 ⟨.expression (.binary .subtract
    (.number "1" (.point 0)) (.number "2" (.point 0)) (.point 0)) (.point 0), rfl, ?_, ?_⟩
  · simp [Stmt.expr, Expr.KeepsPrecedence, Expr.topOp?]
  · decide

end

end ArithLang
