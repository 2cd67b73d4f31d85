/-
  What has to stand behind the tokens that were read.

  `expectation mode read` goes by the tokens alone: behind an operand an open parenthesis asks
  to be closed, and a single statement to be over; everywhere else an expression has to start.
  `FailsBody.eq_expectation` says that a fault asks for just that.

  Two counts carry the proof. What is read whole ends with an operand and leaves as many
  parentheses open as it found (`Reads.complete`). Where a fault asks for `)`, the tokens in
  front of it end with an operand and leave one open (`Fails.expects`).
-/
import ArithLang.Proofs.Program

namespace ArithLang

/-! ## Operands and open parentheses -/

/-- The kinds that an operand ends with. -/
def Kind.EndsOperand (k : Kind) : Prop := k = .number ∨ k = .identifier ∨ k = .closeParen

instance (k : Kind) : Decidable k.EndsOperand := inferInstanceAs (Decidable (_ ∨ _ ∨ _))

/-- Neither the end of an operand nor a parenthesis. -/
def Kind.Neutral (k : Kind) : Prop := ¬ k.EndsOperand ∧ k ≠ .openParen

instance (k : Kind) : Decidable k.Neutral := inferInstanceAs (Decidable (_ ∧ _))

theorem UnaryOp.kind_neutral (op : UnaryOp) : op.kind.Neutral := by cases op <;> decide

theorem BinaryOp.kind_neutral (op : BinaryOp) : op.kind.Neutral := by cases op <;> decide

/-- The last of the tokens ends an operand. -/
def EndWithOperand (ts : List Token) : Prop := ∃ t, ts.getLast? = some t ∧ t.kind.EndsOperand

instance (ts : List Token) : Decidable (EndWithOperand ts) :=
  match h : ts.getLast? with
  | none => isFalse fun ⟨_, ht, _⟩ => by rw [h] at ht; cases ht
  | some t => decidable_of_iff t.kind.EndsOperand
      ⟨fun hk => ⟨t, h, hk⟩, fun ⟨_, ht, hk⟩ => Option.some.inj (h.symm.trans ht) ▸ hk⟩

/-- How many parentheses are open behind the token, when there were `n` in front of it. -/
def openBehind (n : Nat) (t : Token) : Nat :=
  match t.kind with
  | .openParen => n + 1
  | .closeParen => n - 1
  | _ => n

/-- How many parentheses are open behind the tokens, when there were `n` in front of them. -/
def openAfter (n : Nat) (ts : List Token) : Nat := ts.foldl openBehind n

/-- How many parentheses the tokens leave open. -/
def unclosed (ts : List Token) : Nat := openAfter 0 ts

/-- What has to stand behind the tokens. -/
def expectation (mode : Mode) (read : List Token) : String :=
  if EndWithOperand read then
    if 0 < unclosed read then "`)`" else if mode = .single then "end of input" else "expression"
  else "expression"

theorem openBehind_of_neutral {t : Token} (ht : t.kind.Neutral) (n : Nat) :
    openBehind n t = n := by
  obtain ⟨hop, hopen⟩ := ht
  unfold openBehind
  split
  · next hk => exact absurd hk hopen
  · next hk => exact absurd (.inr (.inr hk)) hop
  · rfl

theorem not_endWithOperand_nil : ¬ EndWithOperand [] := by
  intro h
  obtain ⟨t, ht, -⟩ := h
  cases ht

theorem endWithOperand_singleton {t : Token} : EndWithOperand [t] ↔ t.kind.EndsOperand := by
  constructor
  · intro h
    obtain ⟨u, hu, hk⟩ := h
    cases hu
    exact hk
  · exact fun hk => ⟨t, rfl, hk⟩

theorem endWithOperand_append {xs ys : List Token} (h : ys ≠ []) :
    EndWithOperand (xs ++ ys) ↔ EndWithOperand ys := by
  unfold EndWithOperand
  rw [List.getLast?_append, List.getLast?_eq_some_getLast h, Option.some_or]

theorem endWithOperand_cons {t : Token} {ts : List Token} (h : ¬ t.kind.EndsOperand) :
    EndWithOperand (t :: ts) ↔ EndWithOperand ts := by
  cases ts with
  | nil =>
      rw [endWithOperand_singleton]
      exact ⟨fun hk => absurd hk h, fun hn => absurd hn not_endWithOperand_nil⟩
  | cons u ts =>
      rw [← List.singleton_append]
      exact endWithOperand_append (List.cons_ne_nil u ts)

@[simp] theorem openAfter_nil (n : Nat) : openAfter n [] = n := rfl

@[simp] theorem openAfter_cons (n : Nat) (t : Token) (ts : List Token) :
    openAfter n (t :: ts) = openAfter (openBehind n t) ts := rfl

@[simp] theorem openAfter_append (n : Nat) (xs ys : List Token) :
    openAfter n (xs ++ ys) = openAfter (openAfter n xs) ys := List.foldl_append

theorem openAfter_mono {m n : Nat} (h : m ≤ n) (ts : List Token) :
    openAfter m ts ≤ openAfter n ts := by
  induction ts generalizing m n with
  | nil => exact h
  | cons t ts ih =>
      refine ih ?_
      unfold openBehind
      split <;> omega

/-! ## What is read whole -/

variable {b : BinaryOp → Binding} {k : Nat} {floor : Level} {task : Task} {ts rest : List Token}

/-- Tokens that end with an operand and leave as many parentheses open as they found. -/
structure Complete (ts : List Token) : Prop where
  operand : EndWithOperand ts
  balanced : ∀ n, openAfter n ts = n

theorem Complete.ne_nil (h : Complete ts) : ts ≠ [] := by
  intro h'
  subst h'
  exact not_endWithOperand_nil h.operand

theorem Complete.append {ts' : List Token} (h : Complete ts) (h' : Complete ts') :
    Complete (ts ++ ts') :=
  ⟨(endWithOperand_append h'.ne_nil).2 h'.operand,
    fun n => by rw [openAfter_append, h.balanced, h'.balanced]⟩

/-- In front of complete tokens a neutral one changes nothing. -/
theorem Complete.cons {t : Token} (h : Complete ts) (ht : t.kind.Neutral) : Complete (t :: ts) :=
  ⟨(endWithOperand_cons ht.1).2 h.operand,
    fun n => by rw [openAfter_cons, openBehind_of_neutral ht, h.balanced]⟩

theorem complete_literal {t : Token} (h : t.kind = .number ∨ t.kind = .identifier) :
    Complete [t] := by
  refine ⟨endWithOperand_singleton.2 ?_, fun n => ?_⟩
  · rcases h with hk | hk <;> rw [hk] <;> decide
  · rcases h with hk | hk <;> simp [openBehind, hk]

/-- What is read whole is complete. Only behind an operand there may be nothing to read. -/
theorem Reads.complete {e : Expr} (h : Reads b k floor task ts e rest) :
    ∃ used, ts = used ++ rest ∧ (Complete used ∨ task = .whole (.behind e) ∧ used = []) := by
  induction h with
  | @literal k floor t ts e he =>
      refine ⟨[t], rfl, .inl (complete_literal ?_)⟩
      exact (Expr.literal?_eq_some_iff.1 he).imp And.left And.left
  | @sign k floor op t ts rest x ht hx ih =>
      obtain ⟨used, rfl, hc | ⟨hbehind, -⟩⟩ := ih
      · exact ⟨t :: used, rfl, .inl (hc.cons (ht ▸ op.kind_neutral))⟩
      · cases hbehind
  | @group k floor o c ts rest x ho hx hc ih =>
      obtain ⟨used, rfl, hcomplete | ⟨hbehind, -⟩⟩ := ih
      · have hop : EndWithOperand (o :: used ++ [c]) := by
          rw [endWithOperand_append (List.cons_ne_nil c []), endWithOperand_singleton, hc]
          decide
        refine ⟨o :: used ++ [c], by simp, .inl ⟨hop, fun n => ?_⟩⟩
        simp [openBehind, ho, hc, hcomplete.balanced]
      · cases hbehind
  | @join k floor op t ts rest left r ht hf hr ih =>
      obtain ⟨used, rfl, hc | ⟨hbehind, -⟩⟩ := ih
      · exact ⟨t :: used, rfl, .inl (hc.cons (ht ▸ op.kind_neutral))⟩
      · cases hbehind
  | stop h => exact ⟨[], rfl, .inr ⟨rfl, rfl⟩⟩
  | @go k floor phase ts mid rest left e hs h ihs ih =>
      obtain ⟨used, rfl, hc | ⟨hbehind, -⟩⟩ := ihs
      · obtain ⟨used', rfl, hc' | ⟨-, rfl⟩⟩ := ih
        · exact ⟨used ++ used', by simp, .inl (hc.append hc')⟩
        · exact ⟨used, rfl, .inl hc⟩
      · cases hbehind

/-- What is read from the start is complete. -/
theorem Reads.complete_start {e : Expr} (h : Reads b k floor (.whole .start) ts e rest) :
    ∃ used, ts = used ++ rest ∧ Complete used := by
  obtain ⟨used, hused, hc | ⟨hbehind, -⟩⟩ := h.complete
  · exact ⟨used, hused, hc⟩
  · cases hbehind

theorem Reads.complete_step {phase : Phase} {e : Expr}
    (h : Reads b k floor (.step phase) ts e rest) : ∃ used, ts = used ++ rest ∧ Complete used := by
  obtain ⟨used, hused, hc | ⟨hbehind, -⟩⟩ := h.complete
  · exact ⟨used, hused, hc⟩
  · cases hbehind

/-! ## What a fault asks for -/

/-- The text is what is asked for behind the tokens: `)` behind an operand with a parenthesis
    open, or an expression where no operand has ended. -/
def Expects (expected : String) (used : List Token) : Prop :=
  expected = "`)`" ∧ EndWithOperand used ∧ 0 < unclosed used ∨
    expected = "expression" ∧ ¬ EndWithOperand used

theorem Expects.cons {expected : String} {used : List Token} {t : Token}
    (h : Expects expected used) (ht : ¬ t.kind.EndsOperand) : Expects expected (t :: used) := by
  rcases h with ⟨rfl, hop, hun⟩ | ⟨rfl, hop⟩
  · refine .inl ⟨rfl, (endWithOperand_cons ht).2 hop, ?_⟩
    exact Nat.lt_of_lt_of_le hun (openAfter_mono (Nat.zero_le _) used)
  · exact .inr ⟨rfl, mt (endWithOperand_cons ht).1 hop⟩

theorem unclosed_append {pre : List Token} (hpre : Complete pre) (used : List Token) :
    unclosed (pre ++ used) = unclosed used := by
  unfold unclosed
  rw [openAfter_append, hpre.balanced]

theorem Expects.append {expected : String} {pre used : List Token} (h : Expects expected used)
    (hpre : Complete pre) (hne : used ≠ []) : Expects expected (pre ++ used) := by
  unfold Expects
  rw [unclosed_append hpre, endWithOperand_append hne]
  exact h

/-- The part of an expression that a task goes on from. -/
def Task.phase : Task → Phase
  | .step phase => phase
  | .whole phase => phase

/-- Where something is missing, it is asked for as the tokens in front say. Behind a first
    operand nothing is missing before an operator has been read. -/
theorem Fails.expects {f : Fault} {expected : String} (h : Fails b k floor task ts f rest)
    (hf : f = .missing expected) :
    ∃ used, ts = used ++ rest ∧ Expects expected used ∧ (task.phase ≠ .start → used ≠ []) := by
  induction h with
  | noRoom => cases hf
  | noFold h => cases hf
  | noStart h =>
      cases hf
      exact ⟨[], rfl, .inr ⟨rfl, not_endWithOperand_nil⟩, fun hne => absurd rfl hne⟩
  | @sign k floor op t ts rest f ht h ih =>
      obtain ⟨used, rfl, he, -⟩ := ih hf
      exact ⟨t :: used, rfl, he.cons (ht ▸ op.kind_neutral.1), fun _ => List.cons_ne_nil _ _⟩
  | @group k floor o ts rest f ho h ih =>
      obtain ⟨used, rfl, he, -⟩ := ih hf
      refine ⟨o :: used, rfl, he.cons ?_, fun _ => List.cons_ne_nil _ _⟩
      rw [ho]
      decide
  | @unclosed k floor o ts rest x ho hx hc =>
      cases hf
      obtain ⟨used, rfl, hcomplete⟩ := hx.complete_start
      refine ⟨o :: used, rfl, .inl ⟨rfl, ?_, ?_⟩, fun _ => List.cons_ne_nil _ _⟩
      · refine (endWithOperand_cons ?_).2 hcomplete.operand
        rw [ho]
        decide
      · simp [ArithLang.unclosed, openBehind, ho, hcomplete.balanced]
  | @operand k floor op t ts rest left f ht hfl h ih =>
      obtain ⟨used, rfl, he, -⟩ := ih hf
      exact ⟨t :: used, rfl, he.cons (ht ▸ op.kind_neutral.1), fun _ => List.cons_ne_nil _ _⟩
  | first hs ih => exact ih hf
  | @later k floor phase ts mid rest left f hs h ih =>
      obtain ⟨pre, rfl, hpre⟩ := hs.complete_step
      obtain ⟨used, rfl, he, hne⟩ := ih hf
      refine ⟨pre ++ used, by simp, he.append hpre (hne ?_), fun _ => ?_⟩
      · intro h'
        cases h'
      · exact List.append_ne_nil_of_left_ne_nil hpre.ne_nil used

/-! ## Statements and programs -/

theorem ReadsStmt.complete {st : Stmt} (h : ReadsStmt b k ts st rest) :
    ∃ used, ts = used ++ rest ∧ Complete used := by
  cases h with
  | @assignment name eq ts rest v hn he h =>
      obtain ⟨used, rfl, hc⟩ := h.complete_start
      have hname : Complete [name] := complete_literal (.inr hn)
      exact ⟨_, rfl, hname.append (hc.cons (he ▸ by decide))⟩
  | expression hn h => exact h.complete_start

theorem FailsStmt.expects {f : Fault} {expected : String} (h : FailsStmt b k ts f rest)
    (hf : f = .missing expected) : ∃ used, ts = used ++ rest ∧ Expects expected used := by
  cases h with
  | @assignment name eq ts rest f hn he h =>
      obtain ⟨used, rfl, hex, -⟩ := h.expects hf
      have hname : Complete [name] := complete_literal (.inr hn)
      have hex' : Expects expected (eq :: used) := hex.cons (he ▸ by decide)
      exact ⟨_, rfl, hex'.append hname (List.cons_ne_nil _ _)⟩
  | expression hn h =>
      obtain ⟨used, rfl, hex, -⟩ := h.expects hf
      exact ⟨used, rfl, hex⟩

theorem Expects.eq_expectation {expected : String} {used : List Token} (h : Expects expected used)
    (mode : Mode) : expected = expectation mode used := by
  unfold expectation
  rcases h with ⟨rfl, hop, hun⟩ | ⟨rfl, hop⟩
  · rw [if_pos hop, if_pos hun]
  · rw [if_neg hop]

/-- Behind a whole statement everything starts again, if there may be more than one. -/
theorem expectation_append {pre : List Token} (hpre : Complete pre) (used : List Token) :
    expectation .repeated (pre ++ used) = expectation .repeated used := by
  unfold expectation
  rw [unclosed_append hpre]
  cases used with
  | nil => simp [not_endWithOperand_nil, unclosed]
  | cons t used => simp only [endWithOperand_append (List.cons_ne_nil t used)]

/-- Where something is missing in a program, it is what the tokens in front ask for. -/
theorem FailsBody.eq_expectation {mode : Mode} {f : Fault} {expected : String}
    (h : FailsBody b mode k ts f rest) (hf : f = .missing expected) :
    ∃ used, ts = used ++ rest ∧ expected = expectation mode used := by
  induction h with
  | single h =>
      obtain ⟨used, rfl, hex⟩ := h.expects hf
      exact ⟨used, rfl, hex.eq_expectation _⟩
  | leftover h hne =>
      cases hf
      obtain ⟨used, rfl, hc⟩ := h.complete
      refine ⟨used, rfl, ?_⟩
      have hun : ¬ 0 < unclosed used := by
        unfold unclosed
        rw [hc.balanced]
        exact Nat.lt_irrefl 0
      unfold expectation
      rw [if_pos hc.operand, if_neg hun, if_pos rfl]
      rfl
  | first hne h =>
      obtain ⟨used, rfl, hex⟩ := h.expects hf
      exact ⟨used, rfl, hex.eq_expectation _⟩
  | later hne h hs ih =>
      obtain ⟨pre, rfl, hpre⟩ := h.complete
      obtain ⟨used, rfl, hex⟩ := ih hf
      exact ⟨pre ++ used, by simp, by rw [expectation_append hpre, hex]⟩

end ArithLang
