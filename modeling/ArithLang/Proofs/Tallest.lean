/-
  The tallest expression that a limit on nesting lets through.

  A limit of `m` levels leaves room for `m - 2` operators in a chain. What stands in front of
  the first of them has the levels to itself, as it is complete by then; if it is an expression
  between parentheses, a limit of `m - 1` levels goes for that one, and so on down the tree. The
  heights add up to `tallest m`, one more than the sum of the numbers below `m`.

  `height_le_tallest`: no expression that needs at most `m` levels is higher. The induction
  carries a bound for each length of the chain of operators on top (`Expr.height_le_chain`).
  `tower` is the family of expressions that get there, and `height_le_tallest_sharp` puts both
  in terms of accepted texts.
-/
import ArithLang.Proofs.Height
import Mathlib.Data.Nat.Choose.Basic

namespace ArithLang

/-- The height of the tallest expression that a limit of `m` levels lets through. -/
def tallest (m : Nat) : Nat := 1 + m * (m - 1) / 2

theorem tallest_succ (m : Nat) : tallest (m + 1) = tallest m + m := by
  unfold tallest
  rw [Nat.triangle_succ, Nat.add_assoc]

namespace Expr

variable {e : Expr} {m : Nat}

/-! ## The bound -/

/-- The chain of operators on top leaves two levels to what it starts with and to its last
    operand. -/
theorem spine_le_of_need_le (h : e.need ≤ m + 2) : e.spine ≤ m := by
  cases e with
  | binary op l r s =>
      have hr := r.spine_lt_need
      simp only [need, spine] at h ⊢
      omega
  | _ => exact Nat.zero_le m

theorem height_eq_one_of_need_le_one (h : e.need ≤ 1) : e.height = 1 := by
  cases e with
  | number | identifier => rfl
  | unary op x s | group x s =>
      have hx := x.spine_lt_need
      simp only [need] at h
      omega
  | binary op l r s =>
      simp only [need] at h
      omega

/-- A bound that allows for the chain on top gives one that does not: with a level more, the
    chain can be as long as the levels below it are many. -/
theorem height_le_tallest_of_chain
    (h : ∀ m, e.need ≤ m + 1 → e.height ≤ e.spine + 1 + tallest m) (hm : e.need ≤ m) :
    e.height ≤ tallest m := by
  match m with
  | 0 => exact absurd hm (Nat.not_le.2 (Nat.zero_lt_of_lt e.spine_lt_need))
  | 1 => exact Nat.le_of_eq (height_eq_one_of_need_le_one hm)
  | m + 2 =>
      have hheight := h (m + 1) hm
      have hspine := spine_le_of_need_le hm
      rw [tallest_succ (m + 1)]
      omega

/-- What stands in front of a chain of operators needs a level less than the whole if it nests at
    all, and each operator of the chain adds a node on top of it. -/
theorem height_le_chain (h : e.need ≤ m + 1) : e.height ≤ e.spine + 1 + tallest m := by
  induction e generalizing m with
  | number | identifier =>
      simp only [height, spine]
      omega
  | unary op x s ih | group x s ih =>
      simp only [need] at h
      have hx := height_le_tallest_of_chain (fun _ => ih) (show x.need ≤ m by omega)
      simp only [height, spine]
      omega
  | binary op l r s ihl ihr =>
      simp only [need] at h
      have hl := ihl (show l.need ≤ m + 1 by omega)
      have hr := height_le_tallest_of_chain (fun _ => ihr) (show r.need ≤ m by omega)
      simp only [height, spine]
      omega

theorem height_le_tallest (h : e.need ≤ m) : e.height ≤ tallest m :=
  height_le_tallest_of_chain (fun _ => height_le_chain) h

/-! ## The expressions that reach it -/

/-- The expression with `n` ones added to it. -/
def addOnes : Nat → Expr → Expr
  | 0, e => e
  | n + 1, e => binary .add (addOnes n e) (number "1" (.point 0)) (.point 0)

/-- The number one, put between parentheses `n` times, with one added to it once behind the
    second pair, twice behind the third one, and so on. -/
def tower : Nat → Expr
  | 0 => number "1" (.point 0)
  | n + 1 => addOnes n (group (tower n) (.point 0))

/-- Sums of ones are read with one level for the front, one for the last operand, and one for each
    operator, and are as many nodes higher as there are operators. -/
theorem addOnes_facts {powers : Associativity} (n : Nat) {x : Expr} {s : Span}
    (hlex : x.Lexical) (hc : x.Canonical (BinaryOp.binding powers)) :
    (addOnes n (group x s)).Lexical ∧
      (addOnes n (group x s)).Canonical (BinaryOp.binding powers) ∧
      (addOnes n (group x s)).EndsBefore (BinaryOp.binding powers) .additive ∧
      (addOnes n (group x s)).spine = n ∧
      (addOnes n (group x s)).need ≤ max (1 + x.need) (n + 2) ∧
      (addOnes n (group x s)).height = n + (1 + x.height) := by
  induction n with
  | zero => exact ⟨hlex, hc, trivial, rfl, Nat.le_max_left _ _, (Nat.zero_add _).symm⟩
  | succ n ih =>
      obtain ⟨hl, hcan, hends, hspine, hneed, hheight⟩ := ih
      have hone : (signs 0).Lexical := (signs_facts (BinaryOp.binding powers) 0).1
      have hsum : Level.additive < .multiplicative := by decide
      refine ⟨⟨hl, hone⟩, ⟨hcan, hends, trivial, trivial⟩, hsum, ?_, ?_, ?_⟩
      · simp only [addOnes, spine, hspine]
      · simp only [addOnes, need, hspine]
        omega
      · simp only [addOnes, height, hheight]
        omega

theorem tower_facts (powers : Associativity) (n : Nat) :
    (tower n).Lexical ∧ (tower n).Canonical (BinaryOp.binding powers) ∧
      (tower n).need ≤ n + 1 ∧ (tower n).height = tallest (n + 1) := by
  induction n with
  | zero =>
      obtain ⟨hlex, hc, -⟩ := signs_facts (BinaryOp.binding powers) 0
      exact ⟨hlex, hc, Nat.le_refl 1, rfl⟩
  | succ n ih =>
      obtain ⟨hlex, hc, hneed, hheight⟩ := ih
      obtain ⟨hlex', hc', -, -, hneed', hheight'⟩ := addOnes_facts (s := .point 0) n hlex hc
      refine ⟨hlex', hc', ?_, ?_⟩
      · simp only [tower]
        omega
      · rw [tower, hheight', hheight, tallest_succ (n + 1)]
        omega

end Expr

/-! ## Accepted texts -/

/-- A text is accepted whose expression is as high as the limit allows. -/
theorem exists_parse_tallest {o : Options} (h : 1 ≤ o.maxDepth) :
    ∃ source p st, parse source o = .ok p ∧ st ∈ p.body ∧
      st.expr.height = tallest o.maxDepth := by
  obtain ⟨n, hn⟩ := Nat.exists_eq_succ_of_ne_zero (Nat.ne_of_gt h)
  obtain ⟨hlex, hc, hneed, hheight⟩ := Expr.tower_facts o.powers n
  rw [hn, ← hheight]
  exact hlex.exists_parse_height hc (hn ▸ hneed)

/-- No expression in an accepted text is higher than `tallest` of the limit, and for each limit
    that accepts anything some text is accepted whose expression has just this height. -/
theorem height_le_tallest_sharp (o : Options) (h : 1 ≤ o.maxDepth) :
    (∀ source p, parse source o = .ok p → ∀ st ∈ p.body, ∀ path e,
      st.expr.follow? path = some e → e.height ≤ tallest o.maxDepth) ∧
    ∃ source p st, parse source o = .ok p ∧ st ∈ p.body ∧
      st.expr.height = tallest o.maxDepth := by
  refine ⟨fun source p hp st hst path e he => ?_, exists_parse_tallest h⟩
  have hneed : e.need ≤ o.maxDepth :=
    Nat.le_trans (Expr.need_follow_le he) (need_le_of_parse hp hst)
  exact Expr.height_le_tallest hneed

/-- Four levels allow seven nodes, which `(((1))+1)+1+1` has. -/
theorem height_le_tallest_of_tower :
    ∃ p st, parse "(((1))+1)+1+1" { maxDepth := 4 } = .ok p ∧ st ∈ p.body ∧
      st.expr.follow? [] = some st.expr ∧ st.expr.height ≤ tallest 4 ∧ st.expr.height = 7 := by
  let one (n : Nat) : Expr := .number "1" ⟨n, n + 1⟩
  let e : Expr := .binary .add (.binary .add (.group (.binary .add (.group (.group (one 3) ⟨2, 5⟩)
    ⟨1, 6⟩) (one 7) ⟨1, 8⟩) ⟨0, 9⟩) (one 10) ⟨0, 11⟩) (one 12) ⟨0, 13⟩
  have hp : parse "(((1))+1)+1+1" { maxDepth := 4 } =
      .ok ⟨[.expression e ⟨0, 13⟩], ⟨0, 13⟩⟩ := by
    decide +kernel
  have hst : Stmt.expression e ⟨0, 13⟩ ∈ [Stmt.expression e ⟨0, 13⟩] := List.mem_singleton.2 rfl
  have hheight := (height_le_tallest_sharp { maxDepth := 4 } (by decide)).1 _ _ hp _ hst [] e rfl
  exact ⟨_, _, hp, hst, rfl, hheight, rfl⟩

end ArithLang
