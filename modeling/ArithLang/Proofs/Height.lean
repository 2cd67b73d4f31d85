/-
  How tall an expression can get under a limit on nesting.

  The limit counts the levels that are open at once while an expression is read
  (`Expr.need`). A left operand is complete before its operator is met, so the levels of its own
  parts are given back by then, although the operator puts them one further down the tree. Where
  no left operand has such parts, the limit bounds the height (`LeftFlat.height_le_need`); a
  chain of signs in front of an operator gets past every limit that lets an operator through
  (`exists_parse_taller`). `height_le_maxDepth` puts the two together.
-/
import ArithLang.Proofs.Printing
import ArithLang.Proofs.Slice

namespace ArithLang

namespace Expr

/-- The number of nodes on the longest way down. -/
def height : Expr → Nat
  | number _ _ => 1
  | identifier _ _ => 1
  | unary _ x _ => 1 + x.height
  | binary _ l r _ => 1 + max l.height r.height
  | group x _ => 1 + x.height

@[simp] theorem height_mapSpan (f : Span → Span) (e : Expr) :
    (e.mapSpan f).height = e.height := by
  induction e <;> simp_all [mapSpan, height]

/-- No left operand is taller than the chain of operators that leads down it: what stands in
    front of an operator does not nest. -/
def LeftFlat : Expr → Prop
  | number _ _ => True
  | identifier _ _ => True
  | unary _ x _ => x.LeftFlat
  | binary _ l r _ => l.height ≤ l.spine + 1 ∧ r.LeftFlat
  | group x _ => x.LeftFlat

/-- Where nothing nests in front of an operator, every step down the tree is an open level. -/
theorem LeftFlat.height_le_need {e : Expr} (h : e.LeftFlat) : e.height ≤ e.need := by
  induction e with
  | number | identifier => exact Nat.le_refl 1
  | unary op x s ih => exact Nat.add_le_add_left (ih h) 1
  | binary op l r s ihl ihr =>
      obtain ⟨hl, hr⟩ := h
      have hr' := ihr hr
      simp only [height, need]
      omega
  | group x s ih => exact Nat.add_le_add_left (ih h) 1

/-- Two levels are too few for an operator. -/
theorem leftFlat_of_need_le_two {e : Expr} (h : e.need ≤ 2) : e.LeftFlat := by
  induction e with
  | number | identifier => trivial
  | unary op x s ih => exact ih (by simp only [need] at h; omega)
  | binary op l r s ihl ihr =>
      have hr := r.spine_lt_need
      simp only [need] at h
      omega
  | group x s ih => exact ih (by simp only [need] at h; omega)

/-! ## Signs in front of an operator -/

/-- The number one behind `n` signs. -/
def signs : Nat → Expr
  | 0 => number "1" (.point 0)
  | n + 1 => unary .minus (signs n) (.point 0)

/-- One behind `n` signs, and one added to it. -/
def signsPlusOne (n : Nat) : Expr :=
  binary .add (signs n) (number "1" (.point 0)) (.point 0)

theorem signs_facts (b : BinaryOp → Binding) (n : Nat) :
    (signs n).Lexical ∧ (signs n).Canonical b ∧ (∀ floor, (signs n).AtFloor b floor) ∧
      (∀ level, (signs n).EndsBefore b level) ∧ (signs n).spine = 0 ∧ (signs n).need = n + 1 ∧
      (signs n).height = n + 1 := by
  induction n with
  | zero =>
      have hdigit : ∀ c ∈ ['1'], c.isDigit := fun c hc => List.mem_singleton.1 hc ▸ rfl
      have hone : (signs 0).Lexical := Lexeme.Valid.number (List.cons_ne_nil '1' []) hdigit
      exact ⟨hone, trivial, fun _ => trivial, fun _ => trivial, rfl, rfl, rfl⟩
  | succ n ih =>
      obtain ⟨hlex, hc, hf, -, -, hn, hh⟩ := ih
      refine ⟨hlex, ⟨hc, hf _⟩, fun _ => trivial, fun _ => trivial, rfl, ?_, ?_⟩
      · rw [signs, need, hn, Nat.add_comm]
      · rw [signs, height, hh, Nat.add_comm]

/-- The operator costs no more levels than the signs do, and makes the tree one taller. -/
theorem signsPlusOne_facts (b : BinaryOp → Binding) (n : Nat) :
    (signsPlusOne n).Lexical ∧ (signsPlusOne n).Canonical b ∧
      (signsPlusOne n).need = max (n + 1) 3 ∧ (signsPlusOne n).height = n + 2 := by
  obtain ⟨hlex, hc, -, he, hs, hn, hh⟩ := signs_facts b n
  have hone := (signs_facts b 0).1
  refine ⟨⟨hlex, hone⟩, ⟨hc, he _, trivial, trivial⟩, ?_, ?_⟩
  · simp only [signsPlusOne, need, hn, hs]
  · simp only [signsPlusOne, height, hh]
    omega

end Expr

/-! ## The limit and the height -/

/-- What is accepted needs no more levels than are allowed. -/
theorem need_le_of_parse {source : String} {o : Options} {p : Program}
    (h : parse source o = .ok p) {st : Stmt} (hst : st ∈ p.body) : st.expr.need ≤ o.maxDepth := by
  obtain ⟨ls, -, -, hbody, -⟩ := parse_eq_ok_iff.1 h
  obtain ⟨-, -, -, -, -, -, hk⟩ :=
    hbody.spells_of_mem (BinaryOp.binding_level_lt_unary o.powers) hst
  exact hk

/-- A canonical expression within the limit is that of some accepted text, but for its spans. -/
theorem Expr.Lexical.exists_parse_height {e : Expr} {o : Options} (h : e.Lexical)
    (hc : e.Canonical (BinaryOp.binding o.powers)) (hk : e.need ≤ o.maxDepth) :
    ∃ source p st, parse source o = .ok p ∧ st ∈ p.body ∧ st.expr.height = e.height := by
  have hst : (Stmt.expression e (.point 0)).Lexical := h
  obtain ⟨st, hbare, hp⟩ := hst.exists_parse_render (o := o) hc hk
  refine ⟨_, _, st, hp, List.mem_singleton.2 rfl, ?_⟩
  have hexpr := congrArg Expr.height (Stmt.bare_expr_eq hbare)
  rwa [Expr.bare, Expr.bare, Expr.height_mapSpan, Expr.height_mapSpan] at hexpr

/-- From three levels on, some text is accepted whose expression is taller than the limit. -/
theorem exists_parse_taller {o : Options} (h : 3 ≤ o.maxDepth) :
    ∃ source p st, parse source o = .ok p ∧ st ∈ p.body ∧
      st.expr.height = o.maxDepth + 1 := by
  obtain ⟨hlex, hc, hn, hh⟩ :=
    Expr.signsPlusOne_facts (BinaryOp.binding o.powers) (o.maxDepth - 1)
  obtain ⟨source, p, st, hp, hst, hheight⟩ := hlex.exists_parse_height hc (by omega)
  exact ⟨source, p, st, hp, hst, by omega⟩

/-- The limit bounds the height of an expression in which nothing nests in front of an
    operator. It bounds the height of every expression only if it lets no operator through. -/
theorem height_le_maxDepth (o : Options) :
    (∀ source p, parse source o = .ok p →
      ∀ st ∈ p.body, st.expr.LeftFlat → st.expr.height ≤ o.maxDepth) ∧
    ((∀ source p, parse source o = .ok p → ∀ st ∈ p.body, st.expr.height ≤ o.maxDepth) ↔
      o.maxDepth ≤ 2) := by
  have hflat : ∀ source p, parse source o = .ok p →
      ∀ st ∈ p.body, st.expr.LeftFlat → st.expr.height ≤ o.maxDepth :=
    fun source p h st hst hl => Nat.le_trans hl.height_le_need (need_le_of_parse h hst)
  refine ⟨hflat, ?_, ?_⟩
  · refine fun h => Nat.le_of_not_lt fun hlimit => ?_
    obtain ⟨source, p, st, hp, hst, hh⟩ := exists_parse_taller (o := o) hlimit
    have := h source p hp st hst
    omega
  · intro hlimit source p h st hst
    refine hflat source p h st hst (Expr.leftFlat_of_need_le_two ?_)
    exact Nat.le_trans (need_le_of_parse h hst) hlimit

/-- In `1+2*3` nothing nests in front of an operator. -/
theorem height_le_maxDepth_of_product :
    ∃ p st, parse "1+2*3" { maxDepth := 5 } = .ok p ∧ st ∈ p.body ∧ st.expr.LeftFlat ∧
      st.expr.height ≤ 5 := by
  let e : Expr := .binary .add (.number "1" ⟨0, 1⟩)
    (.binary .multiply (.number "2" ⟨2, 3⟩) (.number "3" ⟨4, 5⟩) ⟨2, 5⟩) ⟨0, 5⟩
  have hp : parse "1+2*3" { maxDepth := 5 } = .ok ⟨[.expression e ⟨0, 5⟩], ⟨0, 5⟩⟩ := by
    decide +kernel
  have hst : Stmt.expression e ⟨0, 5⟩ ∈ [Stmt.expression e ⟨0, 5⟩] := List.mem_singleton.2 rfl
  have hflat : e.LeftFlat := ⟨Nat.le_refl 1, Nat.le_refl 1, trivial⟩
  exact ⟨_, _, hp, hst, hflat, (height_le_maxDepth { maxDepth := 5 }).1 _ _ hp _ hst hflat⟩

/-- The expression of `--1+1` is four nodes high and accepted with a limit of three. -/
theorem height_gt_maxDepth_of_signs :
    ¬ ∀ (source : String) (o : Options) (p : Program), parse source o = .ok p →
      ∀ st ∈ p.body, st.expr.height ≤ o.maxDepth := by
  intro h
  have hp : parse "--1+1" { maxDepth := 3 } = .ok ⟨[.expression (.binary .add
      (.unary .minus (.unary .minus (.number "1" ⟨2, 3⟩) ⟨1, 3⟩) ⟨0, 3⟩)
      (.number "1" ⟨4, 5⟩) ⟨0, 5⟩) ⟨0, 5⟩], ⟨0, 5⟩⟩ := by
    decide +kernel
  exact absurd (h _ _ _ hp _ (List.mem_singleton.2 rfl)) (by decide)

end ArithLang
