/-
  Trees follow whatever bindings are registered.

  The operators may be registered anew, at any level and with any grouping, each of them any
  number of times (`registrations`); the last time counts (`bindingsAfter`). What is read then is
  canonical for this table, as the rules of reading do not ask what the bindings are. Said of the
  operands by themselves (`Expr.GroupsBy`): none binds less tightly than its operator, and on the
  side that its operator does not group to, none binds just as tightly.

  One case is left out. There is no level above `unary`, so the floor for the right operand of an
  operator at that level is the level itself, and it groups to the right although it is
  registered to group to the left (`groupsRight_at_unary`).
-/
import ArithLang.Proofs.Acceptance
import ArithLang.Proofs.Session
import ArithLang.Proofs.Slice
import Mathlib.Logic.Function.Basic

namespace ArithLang

/-! ## Registered bindings -/

/-- To register bindings of operators, one after the other. -/
def registrations (regs : List (BinaryOp × Binding)) : List Operation :=
  regs.map fun reg => .setJoin reg.1.kind reg.2 .binary

/-- How operators bind when bindings have been registered over those of `b`. -/
def bindingsAfter (b : BinaryOp → Binding) (regs : List (BinaryOp × Binding)) :
    BinaryOp → Binding :=
  regs.foldl (fun b reg => Function.update b reg.1 reg.2) b

/-- To register the binding of an operator changes this one and no other. -/
theorem Rules.setJoin_ofBindings (b : BinaryOp → Binding) (op : BinaryOp) (binding : Binding) :
    (Rules.ofBindings b).setJoin op.kind binding .binary =
      .ofBindings (Function.update b op binding) := by
  have hjoin : ∀ k, (if k = op.kind then some JoinRule.binary else (Rules.ofBindings b).join? k) =
      (BinaryOp.ofKind? k).map fun _ => .binary := by
    intro k
    split
    · next hk => rw [hk, BinaryOp.ofKind?_kind]; rfl
    · rfl
  have hbinding : ∀ k, (if k = op.kind then some binding else (BinaryOp.ofKind? k).map b) =
      (BinaryOp.ofKind? k).map (Function.update b op binding) := by
    intro k
    split
    · next hk => simp [hk]
    · next hk =>
        cases hop : BinaryOp.ofKind? k with
        | none => rfl
        | some op' =>
            have hne : op' ≠ op := fun h => hk (h ▸ BinaryOp.ofKind?_eq_some_iff.1 hop)
            simp [hne]
  exact congrArg₂ (Rules.mk _) (funext hjoin) (funext hbinding)

theorem rules_session_registrations (regs : List (BinaryOp × Binding)) {b : BinaryOp → Binding}
    {s : State} (h : s.rules = .ofBindings b) :
    (session s (registrations regs)).rules = .ofBindings (bindingsAfter b regs) := by
  induction regs generalizing b s with
  | nil => exact h
  | cons reg regs ih =>
      refine ih (s := (Operation.setJoin reg.1.kind reg.2 .binary).after s) ?_
      show s.rules.setJoin reg.1.kind reg.2 .binary = _
      rw [h, Rules.setJoin_ofBindings]

/-! ## Operands -/

theorem Level.eq_unary_of_le {a : Level} (h : .unary ≤ a) : a = .unary := by
  cases a <;> simp_all [le_def, rank]

theorem Binding.associativity_of_lt_operandFloor {b : Binding} (h : b.level < b.operandFloor) :
    b.associativity = .left := by
  obtain ⟨level, associativity⟩ := b
  cases associativity
  · rfl
  · exact absurd h (Nat.lt_irrefl _)

theorem Binding.lt_of_operandFloor_le {b : Binding} {a : Level} (hl : b.associativity = .left)
    (hu : b.level ≠ .unary) (h : b.operandFloor ≤ a) : b.level < a := by
  obtain ⟨level, associativity⟩ := b
  obtain rfl : associativity = .left := hl
  exact (Level.next_le_iff hu).1 h

namespace Expr

variable {b : BinaryOp → Binding} {e x : Expr}

/-- The operators on top of the operands of a node bind as the table `b` lets them. -/
def GroupsBy (b : BinaryOp → Binding) : Expr → Prop
  | unary _ x _ => ∀ inner, x.topOp? = some inner → (b inner).level = .unary
  | binary op l r _ =>
      (∀ inner, l.topOp? = some inner → (b op).level ≤ (b inner).level ∧
        ((b inner).level = (b op).level → (b inner).associativity = .left)) ∧
      ∀ inner, r.topOp? = some inner → (b op).level ≤ (b inner).level ∧
        ((b op).associativity = .left → (b op).level ≠ .unary → (b op).level < (b inner).level)
  | number _ _ | identifier _ _ | group _ _ => True

theorem AtFloor.le_of_topOp? {floor : Level} {inner : BinaryOp} (h : e.AtFloor b floor)
    (htop : e.topOp? = some inner) : floor ≤ (b inner).level := by
  cases e with
  | binary op l r s =>
      obtain rfl := Option.some.inj htop
      exact h
  | _ => cases htop

theorem EndsBefore.lt_of_topOp? {level : Level} {inner : BinaryOp} (h : e.EndsBefore b level)
    (htop : e.topOp? = some inner) : level < (b inner).operandFloor := by
  cases e with
  | binary op l r s =>
      obtain rfl := Option.some.inj htop
      exact h
  | _ => cases htop

theorem Canonical.groupsBy (h : e.Canonical b) : e.GroupsBy b := by
  cases e with
  | number | identifier | group => trivial
  | unary op x s => exact fun inner htop => Level.eq_unary_of_le (h.2.le_of_topOp? htop)
  | binary op l r s =>
      obtain ⟨-, hends, -, hfloor⟩ := h
      refine ⟨fun inner htop => ?_, fun inner htop => ?_⟩
      · have hlt := hends.lt_of_topOp? htop
        refine ⟨Binding.le_level_of_lt_operandFloor hlt, fun heq => ?_⟩
        exact Binding.associativity_of_lt_operandFloor (heq ▸ hlt)
      · have hle := hfloor.le_of_topOp? htop
        refine ⟨Level.le_trans (b op).level_le_operandFloor hle, fun hl hu => ?_⟩
        exact Binding.lt_of_operandFloor_le hl hu hle

end Expr

/-- What is read with the rules of some bindings is canonical for them, from every state. -/
theorem canonical_of_expr_run {b : BinaryOp → Binding} {floor : Level} {s s' : State} {e : Expr}
    (hs : s.rules = .ofBindings b) (h : Parser.expr floor s = .ok e s') : e.Canonical b := by
  obtain ⟨-, hreads⟩ := Parser.reads_of_expr_run hs h
  obtain ⟨used, -, hpart, -⟩ := hreads.exists_used
  exact hpart.canonical

/-- With any bindings registered, from any place among any tokens and at any floor, an expression
    is read whose operands all bind as the registered table lets them. -/
theorem groupsBy_registered (tokens : List Token) (o : Options)
    (regs : List (BinaryOp × Binding)) {s s' : State} {floor : Level} {e x : Expr}
    {path : List String}
    (hs : s.rules = (session (.ofTokens tokens o) (registrations regs)).rules)
    (h : Parser.expr floor s = .ok e s') (hx : e.follow? path = some x) :
    x.GroupsBy (bindingsAfter (BinaryOp.binding o.powers) regs) := by
  have hrules := rules_session_registrations (s := .ofTokens tokens o) regs
    (Rules.standard_eq_ofBindings o.powers)
  exact ((canonical_of_expr_run (hs.trans hrules) h).follow hx).groupsBy

/-- With sums and differences on one level, sums grouped to the right and differences to the left,
    `1+2-3` is a sum with the difference on its right. -/
theorem groupsBy_registered_of_mixed :
    ∃ e s', Parser.expr .lowest (session
        (.ofTokens [⟨.number, "1", ⟨0, 1⟩⟩, ⟨.plus, "+", ⟨1, 2⟩⟩, ⟨.number, "2", ⟨2, 3⟩⟩,
          ⟨.dash, "-", ⟨3, 4⟩⟩, ⟨.number, "3", ⟨4, 5⟩⟩] {})
        (registrations [(.add, ⟨.exponent, .right⟩), (.subtract, ⟨.exponent, .left⟩)])) = .ok e s' ∧
      e.follow? [] = some e ∧ e.sexp = "(+ 1 (- 2 3))" ∧
      e.GroupsBy (bindingsAfter (BinaryOp.binding .left)
        [(.add, ⟨.exponent, .right⟩), (.subtract, ⟨.exponent, .left⟩)]) := by
  let e : Expr := .binary .add (.number "1" ⟨0, 1⟩)
    (.binary .subtract (.number "2" ⟨2, 3⟩) (.number "3" ⟨4, 5⟩) ⟨2, 5⟩) ⟨0, 5⟩
  obtain ⟨s', hrun⟩ := Parser.exists_ok_of_run' (p := Parser.expr .lowest) (a := e) (s := session
    (.ofTokens [⟨.number, "1", ⟨0, 1⟩⟩, ⟨.plus, "+", ⟨1, 2⟩⟩, ⟨.number, "2", ⟨2, 3⟩⟩,
      ⟨.dash, "-", ⟨3, 4⟩⟩, ⟨.number, "3", ⟨4, 5⟩⟩] {})
    (registrations [(.add, ⟨.exponent, .right⟩), (.subtract, ⟨.exponent, .left⟩)]))
    (by decide +kernel)
  have hgroups := groupsBy_registered _ {} _ rfl hrun (show e.follow? [] = some e from rfl)
  exact ⟨e, s', hrun, rfl, by decide +kernel, hgroups⟩

/-- Registered at the level of signs to group to the left, sums group to the right all the same:
    `1+2+3` has the second sum on the right of the first one. -/
theorem groupsRight_at_unary :
    ¬ ∀ (tokens : List Token) (o : Options) (regs : List (BinaryOp × Binding)) (floor : Level)
      (e : Expr) (s' : State),
      Parser.expr floor (session (.ofTokens tokens o) (registrations regs)) = .ok e s' →
      ∀ (path : List String) (op inner : BinaryOp) (l r : Expr) (sp : Span),
        e.follow? path = some (.binary op l r sp) → r.topOp? = some inner →
        (bindingsAfter (BinaryOp.binding o.powers) regs op).associativity = .left →
        (bindingsAfter (BinaryOp.binding o.powers) regs op).level <
          (bindingsAfter (BinaryOp.binding o.powers) regs inner).level := by
  intro h
  obtain ⟨s', hrun⟩ := Parser.exists_ok_of_run' (p := Parser.expr .lowest)
    (a := .binary .add (.number "1" ⟨0, 1⟩)
      (.binary .add (.number "2" ⟨2, 3⟩) (.number "3" ⟨4, 5⟩) ⟨2, 5⟩) ⟨0, 5⟩)
    (s := session (.ofTokens [⟨.number, "1", ⟨0, 1⟩⟩, ⟨.plus, "+", ⟨1, 2⟩⟩,
      ⟨.number, "2", ⟨2, 3⟩⟩, ⟨.plus, "+", ⟨3, 4⟩⟩, ⟨.number, "3", ⟨4, 5⟩⟩] {})
      (registrations [(.add, ⟨.unary, .left⟩)]))
    (by decide +kernel)
  exact absurd (h _ {} _ _ _ _ hrun [] _ _ _ _ _ rfl rfl rfl) (by decide)

end ArithLang
