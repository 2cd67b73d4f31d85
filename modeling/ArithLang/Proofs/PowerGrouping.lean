/-
  What the grouping of powers changes.

  `Expr.regroup` turns each chain `((a ** b) ** c) ** d` of a tree around to
  `a ** (b ** (c ** d))` (`regroup_powersLeft`). It goes down the chain and collects the later
  operands, regrouped, in a tail (`Expr.regroupOnto`).

  A tree and the regrouped one have the same tokens (`Spells.regroup`). What keeps to the tiers
  with powers grouped to the left does so with powers grouped to the right when it is regrouped
  (`KeepsPrecedence.regroup`), and as it stands only if no chain has more than two operands
  (`keepsPrecedence_right_iff`). Together with what does not depend on the grouping of powers at
  all, which texts are accepted and where the others go wrong, this says what the choice comes to
  (`parse_right_eq_map_regroup`).
-/
import ArithLang.Proofs.AnyGrouping
import ArithLang.Proofs.Slice
import Mathlib.Data.List.Induction

namespace ArithLang

/-! ## Regrouping -/

namespace Expr

/-- The expression as the first operand of a power, if there is something to follow it. -/
def powerBefore (e : Expr) : Option Expr → Expr
  | none => e
  | some tail => binary .power e tail (.cover e.span tail.span)

/-- The expression with its chains of powers grouped to the right. What follows it in the chain
    that it is a part of has been regrouped already. -/
def regroupOnto : Expr → Option Expr → Expr
  | number text s, tail? => (number text s).powerBefore tail?
  | identifier text s, tail? => (identifier text s).powerBefore tail?
  | unary op x s, tail? => (unary op (x.regroupOnto none) s).powerBefore tail?
  | binary op l r s, tail? =>
      if op = .power then l.regroupOnto (some ((r.regroupOnto none).powerBefore tail?))
      else (binary op (l.regroupOnto none) (r.regroupOnto none) s).powerBefore tail?
  | group x s, tail? => (group (x.regroupOnto none) s).powerBefore tail?

/-- The expression with its chains of powers grouped to the right. -/
def regroup (e : Expr) : Expr := e.regroupOnto none

/-- No power is the left operand of another one without parentheses. -/
def PowersApart : Expr → Prop
  | number _ _ => True
  | identifier _ _ => True
  | unary _ x _ => x.PowersApart
  | binary op l r _ =>
      l.PowersApart ∧ r.PowersApart ∧ ¬ (op = .power ∧ l.topOp? = some .power)
  | group x _ => x.PowersApart

end Expr

/-- The statement with the chains of powers in its expression grouped to the right. -/
def Stmt.regroup : Stmt → Stmt
  | assignment target ts value s => assignment target ts value.regroup s
  | expression e s => expression e.regroup s

/-- The program with the chains of powers in its statements grouped to the right. -/
def Program.regroup (p : Program) : Program := { p with body := p.body.map Stmt.regroup }

@[simp] theorem Stmt.expr_regroup (st : Stmt) : st.regroup.expr = st.expr.regroup := by
  cases st <;> rfl

namespace BinaryOp

variable {powers : Associativity} {inner : BinaryOp}

theorem takesLeft_power_iff : power.TakesLeft powers inner ↔ inner = power ∧ powers = .left := by
  cases powers <;> cases inner <;> decide

theorem takesRight_power_iff : power.TakesRight powers inner ↔ inner = power ∧ powers = .right := by
  cases powers <;> cases inner <;> decide

end BinaryOp

namespace Expr

/-! ## The tokens of a regrouped tree -/

/-- Tokens of one spelling have one span. -/
theorem Spells.span_eq {e e' : Expr} {ts : List Token} (h : e.Spells ts) (h' : e'.Spells ts) :
    e.span = e'.span := by
  obtain ⟨first, rest, rfl, hstart⟩ := h.start_span
  obtain ⟨first', rest', hfirst, hstart'⟩ := h'.start_span
  obtain ⟨front, last, hts, hstop⟩ := h.stop_span
  obtain ⟨front', last', hts', hstop'⟩ := h'.stop_span
  obtain ⟨rfl, -⟩ := List.cons.inj hfirst
  obtain ⟨-, hlast⟩ := List.append_inj' (hts.symm.trans hts') rfl
  obtain ⟨rfl, -⟩ := List.cons.inj hlast
  show (⟨e.span.start, e.span.stop⟩ : Span) = ⟨e'.span.start, e'.span.stop⟩
  rw [hstart, hstop, hstart', hstop']

/-- The tokens behind the first operand of a power, none if there is no power. -/
def SpellsTail (us : List Token) : Option Expr → Prop
  | none => us = []
  | some tail => ∃ t vs, us = t :: vs ∧ t.kind = BinaryOp.power.kind ∧ tail.Spells vs

theorem spellsTail_none : SpellsTail [] none := rfl

theorem Spells.powerBefore {e : Expr} {ts us : List Token} {tail? : Option Expr}
    (h : e.Spells ts) (ht : SpellsTail us tail?) : (e.powerBefore tail?).Spells (ts ++ us) := by
  cases tail? with
  | none =>
      obtain rfl := ht
      rwa [List.append_nil]
  | some tail =>
      obtain ⟨t, vs, rfl, hk, hvs⟩ := ht
      exact .binary h hk hvs

theorem Spells.regroupOnto {e : Expr} {ts us : List Token} {tail? : Option Expr}
    (h : e.Spells ts) (ht : SpellsTail us tail?) : (e.regroupOnto tail?).Spells (ts ++ us) := by
  induction h generalizing tail? us with
  | literal he =>
      have hspells := Spells.literal he
      rcases literal?_eq_some_iff.1 he with ⟨-, rfl⟩ | ⟨-, rfl⟩ <;> exact hspells.powerBefore ht
  | @unary op t x ts hk hx ih =>
      have hx' : (x.regroupOnto none).Spells ts := by simpa using ih spellsTail_none
      rw [hx.span_eq hx']
      exact (Spells.unary hk hx').powerBefore ht
  | @binary op t l r ls rs hl hk hr ihl ihr =>
      have hr' : (r.regroupOnto none).Spells rs := by simpa using ihr spellsTail_none
      unfold Expr.regroupOnto
      split
      · next hop =>
          have htail : SpellsTail (t :: (rs ++ us))
              (some ((r.regroupOnto none).powerBefore tail?)) :=
            ⟨t, rs ++ us, rfl, hop ▸ hk, hr'.powerBefore ht⟩
          rw [List.append_assoc]
          exact ihl htail
      · have hl' : (l.regroupOnto none).Spells ls := by simpa using ihl spellsTail_none
        rw [hl.span_eq hl', hr.span_eq hr']
        exact (Spells.binary hl' hk hr').powerBefore ht
  | @group o c x ts ho hx hc ih =>
      have hx' : (x.regroupOnto none).Spells ts := by simpa using ih spellsTail_none
      exact (Spells.group ho hx' hc).powerBefore ht

/-- A regrouped tree has the same tokens. -/
theorem Spells.regroup {e : Expr} {ts : List Token} (h : e.Spells ts) : e.regroup.Spells ts := by
  have h' := h.regroupOnto spellsTail_none
  rwa [List.append_nil] at h'

/-! ## Chains -/

/-- The chain of powers of some operands, grouped to the left. -/
def powersLeft (first : Expr) (later : List Expr) : Expr :=
  later.foldl (fun l r => binary .power l r (.cover l.span r.span)) first

/-- The chain of powers of some operands, grouped to the right. -/
def powersRight : Expr → List Expr → Expr
  | first, [] => first
  | first, second :: later => first.powerBefore (some (powersRight second later))

theorem powersRight_append_powerBefore (first : Expr) (later : List Expr) (x : Expr)
    (tail? : Option Expr) :
    powersRight first (later ++ [x.powerBefore tail?]) =
      powersRight first (later ++ x :: tail?.toList) := by
  induction later generalizing first with
  | nil => cases tail? <;> rfl
  | cons y later ih => exact congrArg (fun tail => first.powerBefore (some tail)) (ih y)

/-- In front of a tail, a chain is regrouped up to its first operand. -/
theorem regroupOnto_powersLeft {first : Expr} (h : first.topOp? ≠ some .power)
    (later : List Expr) (tail? : Option Expr) :
    (powersLeft first later).regroupOnto tail? =
      powersRight first.regroup (later.map regroup ++ tail?.toList) := by
  induction later using List.reverseRecOn generalizing tail? with
  | nil =>
      have hfirst : first.regroupOnto tail? = first.regroup.powerBefore tail? := by
        cases first with
        | binary op l r s =>
            have hop : op ≠ .power := fun hop => h (congrArg some hop)
            simp [regroup, Expr.regroupOnto, hop, powerBefore]
        | _ => rfl
      refine hfirst.trans ?_
      cases tail? <;> rfl
  | append_singleton later x ih =>
      have hlast : (powersLeft first (later ++ [x])).regroupOnto tail? =
          (powersLeft first later).regroupOnto (some (x.regroup.powerBefore tail?)) := by
        simp [powersLeft, Expr.regroupOnto, regroup]
      rw [hlast, ih, Option.toList_some, powersRight_append_powerBefore]
      simp

/-- A whole chain is turned around, and its operands are regrouped. -/
theorem regroup_powersLeft {first : Expr} (h : first.topOp? ≠ some .power) (later : List Expr) :
    (powersLeft first later).regroup = powersRight first.regroup (later.map regroup) := by
  have hchain := regroupOnto_powersLeft h later none
  rwa [Option.toList_none, List.append_nil] at hchain

/-! ## Precedence in a regrouped tree -/

/-- If an operator is on top, it is a power. -/
def PowerOrNone (e : Expr) : Prop := ∀ op, e.topOp? = some op → op = .power

theorem powerOrNone_of_none {e : Expr} (h : e.topOp? = none) : e.PowerOrNone := by
  intro op hop
  rw [h] at hop
  cases hop

theorem PowerOrNone.topOp?_eq_none_iff {e : Expr} (h : e.PowerOrNone) :
    e.topOp? = none ↔ e.topOp? ≠ some .power := by
  constructor
  · intro hnone hsome
    rw [hnone] at hsome
    cases hsome
  · intro hne
    refine Option.eq_none_iff_forall_ne_some.2 fun op hop => hne ?_
    rw [hop, h op hop]

/-- What may follow in a chain of powers grouped to the right. -/
def Follows (tail? : Option Expr) : Prop :=
  ∀ tail, tail? = some tail → tail.KeepsPrecedence .right ∧ tail.PowerOrNone

theorem follows_none : Follows none := fun _ h => nomatch h

theorem follows_some {tail : Expr} (h : tail.KeepsPrecedence .right) (hp : tail.PowerOrNone) :
    Follows (some tail) := by
  intro e he
  obtain rfl := Option.some.inj he
  exact ⟨h, hp⟩

@[simp] theorem topOp?_regroupOnto_some (e tail : Expr) :
    (e.regroupOnto (some tail)).topOp? = some .power := by
  induction e generalizing tail with
  | binary op l r s ihl _ =>
      unfold Expr.regroupOnto
      split
      · exact ihl _
      · rfl
  | _ => rfl

/-- Regrouping keeps the operator on top. -/
@[simp] theorem topOp?_regroup (e : Expr) : e.regroup.topOp? = e.topOp? := by
  cases e with
  | binary op l r s =>
      unfold regroup Expr.regroupOnto
      split
      · next hop =>
          rw [topOp?_regroupOnto_some, hop]
          rfl
      · rfl
  | _ => rfl

theorem keepsPrecedence_power_left_iff {l r : Expr} {s : Span} :
    (binary .power l r s).KeepsPrecedence .left ↔
      l.KeepsPrecedence .left ∧ l.PowerOrNone ∧ r.KeepsPrecedence .left ∧ r.topOp? = none := by
  have hright : (∀ inner, r.topOp? = some inner → BinaryOp.power.TakesRight .left inner) ↔
      r.topOp? = none := by
    simp [BinaryOp.takesRight_power_iff, Option.eq_none_iff_forall_ne_some]
  simp only [KeepsPrecedence, PowerOrNone, BinaryOp.takesLeft_power_iff, and_true, hright]

theorem keepsPrecedence_power_right_iff {l r : Expr} {s : Span} :
    (binary .power l r s).KeepsPrecedence .right ↔
      l.KeepsPrecedence .right ∧ l.topOp? = none ∧ r.KeepsPrecedence .right ∧ r.PowerOrNone := by
  have hleft : (∀ inner, l.topOp? = some inner → BinaryOp.power.TakesLeft .right inner) ↔
      l.topOp? = none := by
    simp [BinaryOp.takesLeft_power_iff, Option.eq_none_iff_forall_ne_some]
  simp only [KeepsPrecedence, PowerOrNone, BinaryOp.takesRight_power_iff, and_true, hleft]

/-- The operands of sums and products are the same whichever way powers group. -/
theorem keepsPrecedence_iff_of_ne {op : BinaryOp} (hop : op ≠ .power) (powers : Associativity)
    {l r : Expr} {s : Span} :
    (binary op l r s).KeepsPrecedence powers ↔
      l.KeepsPrecedence powers ∧ (∀ inner, l.topOp? = some inner → op.tier ≤ inner.tier) ∧
        r.KeepsPrecedence powers ∧ ∀ inner, r.topOp? = some inner → op.tier < inner.tier := by
  simp only [KeepsPrecedence, BinaryOp.TakesLeft, BinaryOp.TakesRight, BinaryOp.GroupsRight, hop,
    false_and, not_false_eq_true, and_true, or_false]

theorem KeepsPrecedence.powerBefore {e : Expr} {tail? : Option Expr}
    (h : e.KeepsPrecedence .right) (htop : e.topOp? = none) (ht : Follows tail?) :
    (e.powerBefore tail?).KeepsPrecedence .right ∧ (e.powerBefore tail?).PowerOrNone := by
  cases tail? with
  | none => exact ⟨h, powerOrNone_of_none htop⟩
  | some tail =>
      obtain ⟨hk, hp⟩ := ht tail rfl
      refine ⟨keepsPrecedence_power_right_iff.2 ⟨h, htop, hk, hp⟩, fun op hop => ?_⟩
      exact (Option.some.inj hop).symm

theorem KeepsPrecedence.regroupOnto {e : Expr} {tail? : Option Expr} (h : e.KeepsPrecedence .left)
    (ht : Follows tail?) (hp : tail? = none ∨ e.PowerOrNone) :
    (e.regroupOnto tail?).KeepsPrecedence .right := by
  induction e generalizing tail? with
  | number text s =>
      have hnode : (number text s).KeepsPrecedence .right := trivial
      exact (hnode.powerBefore rfl ht).1
  | identifier text s =>
      have hnode : (identifier text s).KeepsPrecedence .right := trivial
      exact (hnode.powerBefore rfl ht).1
  | unary op x s ih =>
      have hnode : (unary op x.regroup s).KeepsPrecedence .right :=
        ⟨ih h.1 follows_none (.inl rfl), x.topOp?_regroup.trans h.2⟩
      exact (hnode.powerBefore rfl ht).1
  | binary op l r s ihl ihr =>
      unfold Expr.regroupOnto
      split
      · next hop =>
          subst hop
          obtain ⟨hl, hlp, hr, hrtop⟩ := keepsPrecedence_power_left_iff.1 h
          have hr' : r.regroup.KeepsPrecedence .right := ihr hr follows_none (.inl rfl)
          have hrest := hr'.powerBefore (r.topOp?_regroup.trans hrtop) ht
          exact ihl hl (follows_some hrest.1 hrest.2) (.inr hlp)
      · next hop =>
          obtain rfl : tail? = none := hp.resolve_right fun hp => hop (hp op rfl)
          obtain ⟨hl, hltop, hr, hrtop⟩ := (keepsPrecedence_iff_of_ne hop .left).1 h
          have hl' : l.regroup.KeepsPrecedence .right := ihl hl follows_none (.inl rfl)
          have hr' : r.regroup.KeepsPrecedence .right := ihr hr follows_none (.inl rfl)
          refine (keepsPrecedence_iff_of_ne hop .right).2 ⟨hl', ?_, hr', ?_⟩
          · exact fun inner hi => hltop inner (l.topOp?_regroup.symm.trans hi)
          · exact fun inner hi => hrtop inner (r.topOp?_regroup.symm.trans hi)
  | group x s ih =>
      have hnode : (group x.regroup s).KeepsPrecedence .right := ih h follows_none (.inl rfl)
      exact (hnode.powerBefore rfl ht).1

theorem KeepsPrecedence.regroup {e : Expr} (h : e.KeepsPrecedence .left) :
    e.regroup.KeepsPrecedence .right :=
  h.regroupOnto follows_none (.inl rfl)

/-- Only a power that is the left operand of another is in the way of grouping to the right. -/
theorem keepsPrecedence_right_iff {e : Expr} (h : e.KeepsPrecedence .left) :
    e.KeepsPrecedence .right ↔ e.PowersApart := by
  induction e with
  | number | identifier => exact Iff.rfl
  | unary op x s ih =>
      have hx := ih h.1
      simp only [KeepsPrecedence, PowersApart, hx, h.2, and_true]
  | binary op l r s ihl ihr =>
      by_cases hop : op = .power
      · subst hop
        obtain ⟨hl, hlp, hr, hrtop⟩ := keepsPrecedence_power_left_iff.1 h
        have hrp : r.PowerOrNone := powerOrNone_of_none hrtop
        rw [keepsPrecedence_power_right_iff, ihl hl, ihr hr, hlp.topOp?_eq_none_iff]
        simp only [PowersApart, hrp, true_and, and_true]
        exact and_congr_right fun _ => and_comm
      · obtain ⟨hl, hltop, hr, hrtop⟩ := (keepsPrecedence_iff_of_ne hop .left).1 h
        rw [keepsPrecedence_iff_of_ne hop, ihl hl, ihr hr]
        constructor
        · intro h'
          obtain ⟨hl', -, hr', -⟩ := h'
          exact ⟨hl', hr', fun hpower => hop hpower.1⟩
        · intro h'
          obtain ⟨hl', hr', -⟩ := h'
          exact ⟨hl', hltop, hr', hrtop⟩
  | group x s ih => exact ih h

/-- A tree that keeps to the tiers with powers grouped to the left is its own regrouping exactly
    when no power in it is the left operand of another. -/
theorem Spells.regroup_eq_iff {e : Expr} {ts : List Token} (h : e.Spells ts)
    (hk : e.KeepsPrecedence .left) : e.regroup = e ↔ e.PowersApart := by
  rw [← keepsPrecedence_right_iff hk]
  constructor
  · intro heq
    exact heq ▸ hk.regroup
  · intro hright
    have hpart : e.Part (BinaryOp.binding .right) .lowest ts :=
      ⟨h, (canonical_binding_iff e).2 hright, e.atFloor_lowest⟩
    have hpart' : e.regroup.Part (BinaryOp.binding .right) .lowest ts :=
      ⟨h.regroup, (canonical_binding_iff _).2 hk.regroup, e.regroup.atFloor_lowest⟩
    exact hpart'.unique (BinaryOp.binding_level_lt_unary .right) hpart

end Expr

/-! ## Regrouped statements -/

theorem Stmt.Spells.regroup {st : Stmt} {ts : List Token} (h : st.Spells ts) :
    st.regroup.Spells ts := by
  cases h with
  | assignment hn he hv =>
      rw [hv.span_eq hv.regroup]
      exact .assignment hn he hv.regroup
  | expression he =>
      rw [he.span_eq he.regroup]
      exact .expression he.regroup

theorem Stmt.regroup_eq_iff {st : Stmt} : st.regroup = st ↔ st.expr.regroup = st.expr := by
  cases st <;> simp [Stmt.regroup, Stmt.expr]

variable {mode : Mode} {k : Nat} {ts : List Token}

/-- What is read with powers grouped to the left is read regrouped with powers grouped to the
    right. -/
theorem ReadsStmt.regroup {st : Stmt} (h : ReadsStmt (BinaryOp.binding .left) k ts st [])
    (hk : ts.length ≤ k) : ReadsStmt (BinaryOp.binding .right) k ts st.regroup [] := by
  obtain ⟨hst, hc, -⟩ := (readsStmt_nil_iff (BinaryOp.binding_level_lt_unary .left)).1 h
  refine (readsStmt_nil_iff (BinaryOp.binding_level_lt_unary .right)).2 ⟨hst.regroup, ?_, ?_⟩
  · rw [Stmt.expr_regroup, Expr.canonical_binding_iff]
    exact ((Expr.canonical_binding_iff _).1 hc).regroup
  · exact Nat.le_trans hst.regroup.need_le_length hk

theorem ReadsCut.regroup {parts : List (List Token)} {sts : List Stmt}
    (h : ReadsCut (BinaryOp.binding .left) k parts sts) (hk : parts.flatten.length ≤ k) :
    ReadsCut (BinaryOp.binding .right) k parts (sts.map Stmt.regroup) := by
  induction h with
  | nil => exact .nil
  | cons h hs ih =>
      rw [List.flatten_cons, List.length_append] at hk
      have hcut := ih (by omega)
      -- Where statements meet has nothing to do with powers.
      obtain ⟨hst, hsign⟩ :=
        (readsStmt_append_iff (BinaryOp.binding_level_lt_unary .left) hs.startsAnew).1 h
      have hst' := (readsStmt_append_iff (BinaryOp.binding_level_lt_unary .right)
        hcut.startsAnew).2 ⟨hst.regroup (by omega), hsign⟩
      exact .cons hst' hcut

theorem ReadsBody.regroup {sts : List Stmt}
    (h : ReadsBody (BinaryOp.binding .left) mode k ts sts []) (hk : ts.length ≤ k) :
    ReadsBody (BinaryOp.binding .right) mode k ts (sts.map Stmt.regroup) [] := by
  cases mode with
  | single =>
      cases h with
      | single h he => exact .single (h.regroup hk) he
  | repeated =>
      obtain ⟨parts, rfl, hcut⟩ := h.exists_readsCut
      exact (hcut.regroup hk).readsBody

/-! ## Whole inputs -/

section
variable {limit : Nat} {fin : Token}

theorem parseTokens_right_eq_map_regroup (hfin : fin.kind = .eof) (hts : ∀ t ∈ ts, t.kind ≠ .eof)
    (hlimit : ts.length < limit) :
    parseTokens (ts ++ [fin]) ⟨mode, limit, .right⟩ =
      (parseTokens (ts ++ [fin]) ⟨mode, limit, .left⟩).map Program.regroup := by
  obtain ⟨sts, rest, h, hleft⟩ | ⟨f, rest, h, hleft⟩ :=
    parseTokens_cases hfin ts ⟨mode, limit, .left⟩
  · obtain rfl := h.rest_eq_nil hts
    rw [hleft]
    exact (parseTokens_eq_ok_iff hfin).2 ⟨[], h.regroup (Nat.le_of_lt hlimit), rfl⟩
  · obtain ⟨sts, rest', h', hright⟩ | ⟨f', rest', h', hright⟩ :=
      parseTokens_cases hfin ts ⟨mode, limit, .right⟩
    · -- What is accepted at all is accepted with powers grouped to the left.
      obtain rfl := h'.rest_eq_nil hts
      have hgroups := h'.groups (BinaryOp.binding_level_lt_unary .right)
      obtain ⟨sts', hsts'⟩ := hgroups.exists_readsBody
        (BinaryOp.binding_level_lt_unary .left) (Nat.le_of_lt hlimit)
      exact absurd h hsts'.not_fails
    · obtain ⟨expected, rfl⟩ := h.exists_missing hlimit
      obtain ⟨expected', rfl⟩ := h'.exists_missing hlimit
      obtain ⟨rfl, rfl⟩ := h.eq_of_missing hts h'
      rw [hleft, hright]
      rfl

end

/-- A program that was read with powers grouped to the left is its own regrouping exactly when no
    power in it is the left operand of another. -/
theorem regroup_eq_iff_of_parse {source : String} {limit : Nat} {p : Program}
    (h : parse source ⟨mode, limit, .left⟩ = .ok p) :
    p.regroup = p ↔ ∀ st ∈ p.body, st.expr.PowersApart := by
  obtain ⟨ls, -, -, hbody, -⟩ := parse_eq_ok_iff.1 h
  have hst : ∀ st ∈ p.body, (st.regroup = st ↔ st.expr.PowersApart) := by
    intro st hmem
    obtain ⟨-, used, -, -, hspells, hc, -⟩ :=
      hbody.spells_of_mem (BinaryOp.binding_level_lt_unary .left) hmem
    obtain ⟨front, used, rfl, he⟩ := hspells.expr
    rw [Stmt.regroup_eq_iff]
    exact he.regroup_eq_iff ((Expr.canonical_binding_iff _).1 hc)
  have hmap : p.regroup = p ↔ ∀ st ∈ p.body, st.regroup = st := by
    obtain ⟨body, span⟩ := p
    simp only [Program.regroup, Program.mk.injEq, and_true]
    rw [← List.map_inj_left]
    simp
  rw [hmap]
  exact forall₂_congr hst

/-- With more levels of nesting than words, a text that is refused with powers grouped to the left
    is refused with the same error with powers grouped to the right. Otherwise it is read as the
    regrouped program, which is the same program exactly when no power in it is the left operand
    of another. -/
theorem parse_right_eq_map_regroup {source : String} {limit : Nat}
    (hlimit : ∀ tokens, tokenize source = .ok tokens → tokens.length ≤ limit) :
    parse source ⟨mode, limit, .right⟩ =
        (parse source ⟨mode, limit, .left⟩).map Program.regroup ∧
      ∀ p, parse source ⟨mode, limit, .left⟩ = .ok p →
        (parse source ⟨mode, limit, .right⟩ = .ok p ↔ ∀ st ∈ p.body, st.expr.PowersApart) := by
  have hmap : parse source ⟨mode, limit, .right⟩ =
      (parse source ⟨mode, limit, .left⟩).map Program.regroup := by
    cases htokens : tokenize source with
    | error e =>
        rw [parse_of_tokenize_error htokens, parse_of_tokenize_error htokens]
        rfl
    | ok tokens =>
        have hlength := hlimit tokens htokens
        rw [parse_of_tokenize htokens, parse_of_tokenize htokens]
        obtain ⟨ls, htiles, -, rfl⟩ := tokenize_eq_ok_iff.1 htokens
        rw [List.length_append] at hlength
        exact parseTokens_right_eq_map_regroup rfl (htiles.kind_ne_eof 0) hlength
  refine ⟨hmap, fun p hp => ?_⟩
  rw [hmap, hp, ← regroup_eq_iff_of_parse hp]
  exact ⟨Except.ok.inj, congrArg Except.ok⟩

/-- In `x = 1 ** -2 ** y ** 3` the chain of four operands is turned around, and the spans of its
    powers with it. -/
theorem parse_right_of_chain :
    parse "x = 1 ** -2 ** y ** 3" ⟨.single, 11, .right⟩ =
      .ok ⟨[.assignment "x" ⟨0, 1⟩ (.binary .power (.number "1" ⟨4, 5⟩)
        (.binary .power (.unary .minus (.number "2" ⟨10, 11⟩) ⟨9, 11⟩)
          (.binary .power (.identifier "y" ⟨15, 16⟩) (.number "3" ⟨20, 21⟩) ⟨15, 21⟩) ⟨9, 21⟩)
        ⟨4, 21⟩) ⟨0, 21⟩], ⟨0, 21⟩⟩ := by
  have hleft : parse "x = 1 ** -2 ** y ** 3" ⟨.single, 11, .left⟩ =
      .ok ⟨[.assignment "x" ⟨0, 1⟩ (.binary .power (.binary .power (.binary .power
          (.number "1" ⟨4, 5⟩) (.unary .minus (.number "2" ⟨10, 11⟩) ⟨9, 11⟩) ⟨4, 11⟩)
          (.identifier "y" ⟨15, 16⟩) ⟨4, 16⟩) (.number "3" ⟨20, 21⟩) ⟨4, 21⟩) ⟨0, 21⟩],
        ⟨0, 21⟩⟩ := by
    decide +kernel
  have hlength : (tokenize "x = 1 ** -2 ** y ** 3").map List.length = .ok 11 := by decide +kernel
  have hlimit : ∀ tokens, tokenize "x = 1 ** -2 ** y ** 3" = .ok tokens → tokens.length ≤ 11 := by
    intro tokens htokens
    rw [htokens] at hlength
    exact Nat.le_of_eq (Except.ok.inj hlength)
  exact (parse_right_eq_map_regroup hlimit).1.trans (congrArg (Except.map Program.regroup) hleft)

end ArithLang
