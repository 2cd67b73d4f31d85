/-
  The rules of reading and the grammar of canonical trees are the same.

  `reads_whole_iff`: at a floor, with `k` levels to spare, the expression `e` is read from `ts`
  with `rest` still ahead exactly when `e` is spelled by the tokens in between, is canonical
  and stays at the floor, needs at most `k` levels, and no operator that reaches the floor
  comes next.

  One direction follows a derivation and keeps what holds of the part that is complete
  (`Phase.Holds`). The other follows the tree: its tokens bring the reader behind it
  (`Expr.Spells.passes`).
-/
import ArithLang.Proofs.Derivation

namespace ArithLang

/-- An expression that some tokens spell, canonical and at a floor. -/
structure Expr.Part (b : BinaryOp → Binding) (floor : Level) (e : Expr) (ts : List Token) :
    Prop where
  spells : e.Spells ts
  canonical : e.Canonical b
  atFloor : e.AtFloor b floor

/-- An operator in front of `rest` would take all of the expression as its left operand. -/
def Expr.EndsAt (b : BinaryOp → Binding) (e : Expr) (rest : List Token) : Prop :=
  ∀ op : BinaryOp, frontKind rest = op.kind → e.EndsBefore b (b op).level

/-- The levels that the part of an expression read so far keeps open. -/
def Phase.taken : Phase → Nat
  | .start => 0
  | .behind left => left.spine + 1

/-- What is known while an expression is read at a floor with `k` levels to spare, behind the
    tokens `pre` and in front of `rest`. -/
def Phase.Holds (b : BinaryOp → Binding) (floor : Level) (k : Nat) (pre rest : List Token) :
    Phase → Prop
  | .start => pre = []
  | .behind left => left.Part b floor pre ∧ left.EndsAt b rest ∧ left.need ≤ k + (left.spine + 1)

variable {b : BinaryOp → Binding}

/-! ## Floors -/

theorem stops_of_frontKind {floor : Level} {ts : List Token}
    (h : ∀ op : BinaryOp, frontKind ts ≠ op.kind) : Stops b floor ts :=
  fun op hop => absurd hop (h op)

theorem stops_unary (hb : ∀ op, (b op).level < .unary) (ts : List Token) : Stops b .unary ts :=
  fun op _ => hb op

theorem BinaryOp.kind_ne_closeParen (op : BinaryOp) : .closeParen ≠ op.kind := by
  cases op <;> decide

namespace Expr

theorem atFloor_lowest (e : Expr) : e.AtFloor b .lowest := by
  cases e with
  | binary op => exact Level.lowest_le _
  | _ => trivial

/-- The left operand stays at every floor that its operator reaches. -/
theorem EndsBefore.atFloor {e : Expr} {floor level : Level} (h : e.EndsBefore b level)
    (hf : floor ≤ level) : e.AtFloor b floor := by
  cases e with
  | binary op => exact Level.le_trans hf (Binding.le_level_of_lt_operandFloor h)
  | _ => trivial

/-- An expression at a floor ends where the reader stops at that floor. -/
theorem AtFloor.endsAt {e : Expr} {floor : Level} {rest : List Token} (h : e.AtFloor b floor)
    (hs : Stops b floor rest) : e.EndsAt b rest := by
  intro op hop
  cases e with
  | binary op' =>
      have hl : (b op).level < (b op').level := Level.lt_of_lt_of_le (hs op hop) h
      exact Level.lt_of_lt_of_le hl (b op').level_le_operandFloor
  | _ => trivial

theorem spine_lt_need (e : Expr) : e.spine < e.need := by
  cases e <;> simp only [spine, need] <;> omega

theorem literal?_facts {t : Token} {e : Expr} (h : t.literal? = some e) :
    e.Canonical b ∧ (∀ floor, e.AtFloor b floor) ∧ (∀ level, e.EndsBefore b level) ∧
      e.need = 1 ∧ e.spine = 0 := by
  rcases literal?_eq_some_iff.1 h with ⟨-, rfl⟩ | ⟨-, rfl⟩ <;>
    exact ⟨trivial, fun _ => trivial, fun _ => trivial, rfl, rfl⟩

/-- Two parts with an operator between them are one, if none of them lacks parentheses. -/
theorem Part.binary {floor floor' : Level} {op : BinaryOp} {t : Token} {l r : Expr}
    {ls rs : List Token} (hl : l.Part b floor' ls) (he : l.EndsBefore b (b op).level)
    (ht : t.kind = op.kind) (hr : r.Part b (b op).operandFloor rs) (hf : floor ≤ (b op).level) :
    (Expr.binary op l r (.cover l.span r.span)).Part b floor (ls ++ t :: rs) :=
  ⟨.binary hl.spells ht hr.spells, ⟨hl.canonical, he, hr.canonical, hr.atFloor⟩, hf⟩

end Expr

/-! ## From derivations to trees -/

/-- What a derivation of a task says about the tree. -/
def Task.Sound (b : BinaryOp → Binding) (k : Nat) (floor : Level) (ts : List Token) (e : Expr)
    (rest : List Token) : Task → Prop
  | .step phase => ∀ pre, phase.Holds b floor (k + 1) pre ts →
      ∃ used, ts = used ++ rest ∧ (Phase.behind e).Holds b floor k (pre ++ used) rest ∧
        e.spine = phase.taken
  | .whole phase => ∀ pre, phase.Holds b floor k pre ts →
      ∃ used, ts = used ++ rest ∧ e.Part b floor (pre ++ used) ∧ Stops b floor rest ∧
        e.need ≤ k + phase.taken

theorem Reads.sound {k : Nat} {floor : Level} {task : Task} {e : Expr} {ts rest : List Token}
    (h : Reads b k floor task ts e rest) : task.Sound b k floor ts e rest := by
  induction h with
  | @literal k floor t ts e he =>
      intro pre hpre
      subst hpre
      obtain ⟨hc, hf, he', hn, hs⟩ := Expr.literal?_facts (b := b) he
      refine ⟨[t], rfl, ⟨⟨.literal he, hc, hf floor⟩, fun op _ => he' _, ?_⟩, hs⟩
      omega
  | @sign k floor op t ts rest x ht hx ih =>
      intro pre hpre
      subst hpre
      obtain ⟨used, rfl, hp, hs, hn⟩ := ih [] rfl
      have hpart : (Expr.unary op x (.cover t.span x.span)).Part b floor (t :: used) :=
        ⟨.unary ht hp.spells, ⟨hp.canonical, hp.atFloor⟩, trivial⟩
      have hneed : (Expr.unary op x (.cover t.span x.span)).need ≤ k + (0 + 1) := by
        simp only [Phase.taken] at hn
        simp only [Expr.need]
        omega
      exact ⟨t :: used, rfl, ⟨hpart, fun _ _ => trivial, hneed⟩, rfl⟩
  | @group k floor o c ts rest x ho hx hc ih =>
      intro pre hpre
      subst hpre
      obtain ⟨used, rfl, hp, hs, hn⟩ := ih [] rfl
      have hpart : (Expr.group x (.cover o.span c.span)).Part b floor (o :: (used ++ [c])) :=
        ⟨.group ho hp.spells hc, hp.canonical, trivial⟩
      have hneed : (Expr.group x (.cover o.span c.span)).need ≤ k + (0 + 1) := by
        simp only [Phase.taken] at hn
        simp only [Expr.need]
        omega
      exact ⟨o :: (used ++ [c]), by simp, ⟨hpart, fun _ _ => trivial, hneed⟩, rfl⟩
  | @join k floor op t ts rest left r ht hf hr ih =>
      intro pre hpre
      obtain ⟨hp, he, hn⟩ := hpre
      obtain ⟨used, rfl, hpr, hs, hnr⟩ := ih [] rfl
      have hpart : (Expr.binary op left r (.cover left.span r.span)).Part b floor
          (pre ++ t :: used) :=
        hp.binary (he op ht) ht hpr hf
      -- The operator is the next one up the spine, so it keeps one more level open.
      have hneed : (Expr.binary op left r (.cover left.span r.span)).need ≤
          k + (left.spine + 1 + 1) := by
        simp only [Phase.taken] at hnr
        simp only [Expr.need]
        omega
      exact ⟨t :: used, rfl, ⟨hpart, hs, hneed⟩, rfl⟩
  | stop h =>
      intro pre hpre
      obtain ⟨hp, he, hn⟩ := hpre
      exact ⟨[], rfl, by simpa using hp, h, hn⟩
  | go hs h ihs ih =>
      intro pre hpre
      obtain ⟨used, rfl, hl, htaken⟩ := ihs pre hpre
      obtain ⟨used', rfl, hp, hstop, hn⟩ := ih _ hl
      refine ⟨used ++ used', by simp, by simpa using hp, hstop, ?_⟩
      simp only [Phase.taken] at hn
      omega

/-! ## From trees to derivations -/

/-- Reading the tokens of `e` at a floor brings the reader behind `e`. -/
def Expr.Passes (b : BinaryOp → Binding) (e : Expr) (used : List Token) : Prop :=
  ∀ (k : Nat) (floor : Level) (rest : List Token) (e' : Expr) (out : List Token),
    e.Canonical b → e.AtFloor b floor → e.EndsAt b rest → e.need ≤ k + (e.spine + 1) →
      Reads b k floor (.whole (.behind e)) rest e' out →
        Reads b (k + (e.spine + 1)) floor (.whole .start) (used ++ rest) e' out

/-- Where the reader stops behind `e`, it has read `e`. -/
theorem Expr.Passes.reads {e : Expr} {used rest : List Token} (h : e.Passes b used) {k : Nat}
    {floor : Level} (hc : e.Canonical b) (hf : e.AtFloor b floor) (hs : Stops b floor rest)
    (hn : e.need ≤ k) : Reads b k floor (.whole .start) (used ++ rest) e rest := by
  have hk : k = k - (e.spine + 1) + (e.spine + 1) := by
    have := e.spine_lt_need
    omega
  rw [hk] at hn ⊢
  exact h _ _ _ _ _ hc hf (hf.endsAt hs) hn (.stop hs)

theorem Expr.Spells.passes (hb : ∀ op, (b op).level < .unary) {e : Expr} {used : List Token}
    (h : e.Spells used) : e.Passes b used := by
  induction h with
  | @literal t e he =>
      intro k floor rest e' out _ _ _ _ h
      obtain ⟨-, -, -, -, hs⟩ := Expr.literal?_facts (b := b) he
      rw [hs]
      exact .go (.literal he) h
  | @unary op t x ts ht hx ih =>
      intro k floor rest e' out hc _ _ hn h
      simp only [Expr.need, Expr.spine] at hn
      exact .go (.sign ht (ih.reads hc.1 hc.2 (stops_unary hb rest) (by omega))) h
  | @binary op t l r ls rs hl ht hr ihl ihr =>
      intro k floor rest e' out hc hf he hn h
      obtain ⟨hcl, hel, hcr, hfr⟩ := hc
      simp only [Expr.need, Expr.spine] at hn
      have hr' := ihr.reads (k := k) hcr hfr he (by omega)
      have hk : k + ((Expr.binary op l r (.cover l.span r.span)).spine + 1) =
          k + 1 + (l.spine + 1) := by
        simp only [Expr.spine]
        omega
      have hel' : l.EndsAt b (t :: (rs ++ rest)) := by
        intro op' hop
        rw [← BinaryOp.eq_of_kind_eq (ht.symm.trans hop)]
        exact hel
      rw [hk, List.append_assoc]
      exact ihl _ _ _ _ _ hcl (hel.atFloor hf) hel' (by omega) (.go (.join ht hf hr') h)
  | @group o c x ts ho hx hc ih =>
      intro k floor rest e' out hcan _ _ hn h
      simp only [Expr.need, Expr.spine] at hn
      have hs : Stops b .lowest (c :: rest) := by
        refine stops_of_frontKind fun op => ?_
        rw [frontKind_cons, hc]
        exact op.kind_ne_closeParen
      have hx' := ih.reads hcan x.atFloor_lowest hs (k := k) (by omega)
      rw [List.cons_append, List.append_assoc]
      exact .go (.group ho hx' hc) h

/-- A part at whose floor the reader stops behind it is read. -/
theorem Expr.Part.reads (hb : ∀ op, (b op).level < .unary) {k : Nat} {floor : Level} {e : Expr}
    {used rest : List Token} (h : e.Part b floor used) (hs : Stops b floor rest)
    (hn : e.need ≤ k) : Reads b k floor (.whole .start) (used ++ rest) e rest :=
  (h.spells.passes hb).reads h.canonical h.atFloor hs hn

/-- What is read at a floor is the part of the tokens that a canonical tree spells. -/
theorem reads_whole_iff (hb : ∀ op, (b op).level < .unary) {k : Nat} {floor : Level} {e : Expr}
    {ts rest : List Token} :
    Reads b k floor (.whole .start) ts e rest ↔
      ∃ used, ts = used ++ rest ∧ e.Part b floor used ∧ Stops b floor rest ∧ e.need ≤ k := by
  constructor
  · intro h
    exact h.sound [] rfl
  · intro h'
    obtain ⟨used, rfl, hp, hs, hn⟩ := h'
    exact hp.reads hb hs hn

end ArithLang
