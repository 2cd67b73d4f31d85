/-
  Where an error is reported.

  A parser that stops for want of something has read a front part of the tokens that could be
  gone on with (`FailsBody.completion`): zeros and closing parentheses make it whole. With the
  next token it cannot be gone on with at all (`FailsBody.not_reads`). Together with what the
  message asks for (`FailsBody.eq_expectation`) this says what an error means, for every text
  (`parse_error_at_first_misfit`).
-/
import ArithLang.Proofs.Expectation
import ArithLang.Proofs.Source

namespace ArithLang

/-! ## Completions -/

/-- The number zero. -/
def Token.zero : Token := ⟨.number, "0", .point 0⟩

/-- A closing parenthesis. -/
def Token.closing : Token := ⟨.closeParen, ")", .point 0⟩

/-- A token that completions are made of. -/
inductive Filler : Token → Prop where
  | zero : Filler .zero
  | closing : Filler .closing

theorem Filler.lexical {t : Token} (h : Filler t) : t.Lexical := by
  cases h with
  | zero =>
      have hdigit : ∀ c ∈ ['0'], c.isDigit := fun c hc => List.mem_singleton.1 hc ▸ rfl
      exact Lexeme.Valid.number (List.cons_ne_nil '0' []) hdigit
  | closing => exact .sign rfl

theorem Filler.facts {t : Token} (h : Filler t) :
    t.kind ≠ .eof ∧ t.kind ≠ .identifier ∧ t.kind ≠ .assignment ∧
      ∀ op : BinaryOp, t.kind ≠ op.kind := by
  cases h <;> refine ⟨by decide, by decide, by decide, fun op => ?_⟩ <;> cases op <;> decide

variable {b : BinaryOp → Binding} {k : Nat} {floor : Level} {task : Task}
  {ts rest w : List Token} {f : Fault} {expected : String}

/-- No operator comes next. -/
def NoOperator (ts : List Token) : Prop := ∀ op : BinaryOp, frontKind ts ≠ op.kind

theorem NoOperator.goesOnAs (h : NoOperator ts) (rest : List Token) : GoesOnAs ts rest :=
  fun op hop => absurd hop (h op)

theorem noOperator_nil : NoOperator [] := fun op => by cases op <;> decide

theorem noOperator_closing (tail : List Token) : NoOperator (.closing :: tail) :=
  fun op => op.kind_ne_closeParen

theorem noOperator_fillers {tail : List Token} (hw : ∀ t ∈ w, Filler t) (htail : NoOperator tail) :
    NoOperator (w ++ tail) := by
  cases w with
  | nil => exact htail
  | cons t w => exact (hw t (by simp)).facts.2.2.2

/-- Completions start neither a statement nor its second half. -/
theorem frontKind_fillers (hw : ∀ t ∈ w, Filler t) :
    frontKind w ≠ .identifier ∧ frontKind w ≠ .assignment := by
  cases w with
  | nil => exact ⟨by decide, by decide⟩
  | cons t w =>
      have ht := (hw t (by simp)).facts
      exact ⟨ht.2.1, ht.2.2.1⟩

/-- Where something is missing, the tokens in front can be gone on with: behind a completion
    the task is carried out, in front of anything that is no operator. -/
theorem Fails.completion (h : Fails b k floor task ts f rest) (hf : f = .missing expected) :
    ∃ used w k' e, ts = used ++ rest ∧ (∀ t ∈ w, Filler t) ∧
      ∀ tail, NoOperator tail → Reads b k' floor task (used ++ (w ++ tail)) e tail := by
  induction h with
  | noRoom => cases hf
  | noFold h => cases hf
  | noStart h =>
      refine ⟨[], [.zero], 0, _, rfl, fun t ht => ?_, fun tail _ => .literal rfl⟩
      obtain rfl := List.mem_singleton.1 ht
      exact .zero
  | @sign k floor op t ts rest f ht h ih =>
      obtain ⟨used, w, k', x, rfl, hw, hx⟩ := ih hf
      exact ⟨t :: used, w, k', _, rfl, hw, fun tail htail => .sign ht (hx tail htail)⟩
  | @group k floor o ts rest f ho h ih =>
      obtain ⟨used, w, k', x, rfl, hw, hx⟩ := ih hf
      refine ⟨o :: used, w ++ [.closing], k', .group x (.cover o.span Token.closing.span), rfl,
        fun t ht => ?_, fun tail _ => ?_⟩
      · rcases List.mem_append.1 ht with ht | ht
        · exact hw t ht
        · obtain rfl := List.mem_singleton.1 ht
          exact .closing
      · rw [List.append_assoc]
        exact .group ho (hx _ (noOperator_closing tail)) rfl
  | @unclosed k floor o ts rest x ho hx hc =>
      obtain ⟨used, rfl, hr⟩ := hx.change_rest
      refine ⟨o :: used, [.closing], k, .group x (.cover o.span Token.closing.span), rfl,
        fun t ht => ?_, fun tail _ => ?_⟩
      · obtain rfl := List.mem_singleton.1 ht
        exact .closing
      · exact .group ho (hr _ ((noOperator_closing tail).goesOnAs rest)) rfl
  | @operand k floor op t ts rest left f ht hfl h ih =>
      obtain ⟨used, w, k', r, rfl, hw, hr⟩ := ih hf
      exact ⟨t :: used, w, k', _, rfl, hw, fun tail htail => .join ht hfl (hr tail htail)⟩
  | first hs ih =>
      obtain ⟨used, w, k', e, rfl, hw, he⟩ := ih hf
      refine ⟨used, w, k' + 1, e, rfl, hw, fun tail htail => ?_⟩
      exact .go (he tail htail) (.stop (stops_of_frontKind htail))
  | @later k floor phase ts mid rest left f hs h ih =>
      obtain ⟨used', w, k', e, rfl, hw, he⟩ := ih hf
      obtain ⟨used, rfl, hr⟩ := hs.change_rest
      refine ⟨used ++ used', w, max k k' + 1, e, by simp, hw, fun tail htail => ?_⟩
      have hgoes : GoesOnAs (used' ++ (w ++ tail)) (used' ++ rest) :=
        ((noOperator_fillers hw htail).goesOnAs rest).append
      rw [List.append_assoc]
      exact .go ((hr _ hgoes).mono (Nat.le_max_left k k'))
        ((he tail htail).mono (Nat.le_max_right k k'))

theorem not_assigns_fillers {used : List Token} (h : ¬ Assigns (used ++ rest))
    (hw : ∀ t ∈ w, Filler t) : ¬ Assigns (used ++ w) := by
  obtain ⟨hid, heq⟩ := frontKind_fillers hw
  cases used with
  | nil => exact fun ha => hid ha.1
  | cons t used =>
      exact not_assigns_append h (List.cons_ne_nil t used) fun ha => absurd ha heq

theorem FailsStmt.completion (h : FailsStmt b k ts f rest) (hf : f = .missing expected) :
    ∃ used w k' st, ts = used ++ rest ∧ (∀ t ∈ w, Filler t) ∧ ReadsStmt b k' (used ++ w) st [] := by
  cases h with
  | @assignment name eq ts rest f hn he h =>
      obtain ⟨used, w, k', v, rfl, hw, hv⟩ := h.completion hf
      have hv' := hv [] noOperator_nil
      rw [List.append_nil] at hv'
      exact ⟨name :: eq :: used, w, k', _, rfl, hw, .assignment hn he hv'⟩
  | expression hn h =>
      obtain ⟨used, w, k', e, rfl, hw, he⟩ := h.completion hf
      have he' := he [] noOperator_nil
      rw [List.append_nil] at he'
      exact ⟨used, w, k', _, rfl, hw, .expression (not_assigns_fillers hn hw) he'⟩

/-- Where something is missing in a program, the tokens in front can be gone on with so that
    the whole is accepted. -/
theorem FailsBody.completion {mode : Mode} (h : FailsBody b mode k ts f rest)
    (hf : f = .missing expected) :
    ∃ used w k' sts, ts = used ++ rest ∧ (∀ t ∈ w, Filler t) ∧
      ReadsBody b mode k' (used ++ w) sts [] := by
  induction h with
  | single h =>
      obtain ⟨used, w, k', st, rfl, hw, hst⟩ := h.completion hf
      exact ⟨used, w, k', [st], rfl, hw, .single hst rfl⟩
  | @leftover k ts rest st h hne =>
      obtain ⟨used, rfl, -, hr⟩ := h.change_rest
      have hst := hr [] (noOperator_nil.goesOnAs rest) fun ha => by cases ha
      exact ⟨used, [], k, [st], rfl, by simp, .single hst rfl⟩
  | first hne h =>
      obtain ⟨used, w, k', st, rfl, hw, hst⟩ := h.completion hf
      exact ⟨used, w, k', [st], rfl, hw, .more hst.frontKind_ne_eof hst (.done rfl)⟩
  | @later k ts mid rest st f hne h hs ih =>
      obtain ⟨used', w, k', sts, rfl, hw, hsts⟩ := ih hf
      obtain ⟨used, rfl, -, hr⟩ := h.change_rest
      have hgoes : GoesOnAs (used' ++ w) (used' ++ rest) := by
        have hno := noOperator_fillers hw noOperator_nil
        rw [List.append_nil] at hno
        exact (hno.goesOnAs rest).append
      have heq : frontKind (used' ++ w) = .assignment →
          frontKind (used' ++ rest) = .assignment := by
        intro ha
        cases used' with
        | nil => exact absurd ha (frontKind_fillers hw).2
        | cons t used' => exact ha
      have hst := (hr _ hgoes heq).mono (Nat.le_max_left k k')
      refine ⟨used ++ used', w, max k k', st :: sts, by simp, hw, ?_⟩
      rw [List.append_assoc]
      exact .more hst.frontKind_ne_eof hst (hsts.mono (Nat.le_max_right k k'))

/-! ## Errors -/

/-- With an end mark behind them, and enough nesting allowed, the tokens are a program. -/
def Accepts (mode : Mode) (powers : Associativity) (ts : List Token) : Prop :=
  ∃ limit fin p, fin.kind = .eof ∧ parseTokens (ts ++ [fin]) ⟨mode, limit, powers⟩ = .ok p

theorem accepts_iff {mode : Mode} {powers : Associativity} :
    Accepts mode powers ts ↔
      ∃ k sts rest, ReadsBody (BinaryOp.binding powers) mode k ts sts rest := by
  constructor
  · intro h'
    obtain ⟨limit, fin, p, hfin, hp⟩ := h'
    obtain ⟨rest, h, -⟩ := (parseTokens_eq_ok_iff hfin).1 hp
    exact ⟨limit, p.body, rest, h⟩
  · intro h'
    obtain ⟨k, sts, rest, h⟩ := h'
    exact ⟨k, .eof 0, ⟨sts, _⟩, rfl, (parseTokens_eq_ok_iff rfl).2 ⟨rest, h, rfl⟩⟩

/-- Is the cause that some other word, or none, should have come next? -/
def Cause.IsMissing : Cause → Prop
  | unexpectedToken _ _ | unexpectedEnd _ => True
  | _ => False

/-- A program in which something is missing, split where it is. -/
theorem FailsBody.misfit {mode : Mode} {powers : Associativity}
    (h : FailsBody (BinaryOp.binding powers) mode k ts (.missing expected) rest) :
    ∃ used, ts = used ++ rest ∧ expected = expectation mode used ∧
      (∃ w, (∀ t ∈ w, t.Lexical) ∧ Accepts mode powers (used ++ w)) ∧
      ∀ rest', frontKind rest' = frontKind rest → ¬ Accepts mode powers (used ++ rest') := by
  obtain ⟨used, hused, hexpected⟩ := h.eq_expectation rfl
  obtain ⟨used', w, k', sts, hused', hw, hsts⟩ := h.completion rfl
  obtain ⟨used'', hused'', hn⟩ := h.not_reads
  obtain rfl : used' = used := List.append_cancel_right (hused'.symm.trans hused)
  obtain rfl : used'' = used' := List.append_cancel_right (hused''.symm.trans hused)
  refine ⟨used'', hused, hexpected, ⟨w, fun t ht => (hw t ht).lexical, ?_⟩, fun rest' hr ha => ?_⟩
  · exact accepts_iff.2 ⟨k', sts, [], hsts⟩
  · obtain ⟨k'', sts', out, h'⟩ := accepts_iff.1 ha
    exact hn rest' k'' sts' out hr (fun hf => by cases hf) h'

/-- An error about a missing word stands at the first token that the tokens in front of it
    cannot be gone on with. These can be gone on with otherwise, and the message asks for what
    has to stand behind them. -/
theorem parse_error_at_first_misfit {source : String} {o : Options} {fin : Token}
    {err : ParseError} (htokens : tokenize source = .ok (ts ++ [fin]))
    (h : parse source o = .error err) (hmissing : err.cause.IsMissing) :
    ∃ i, ∃ hi : i < (ts ++ [fin]).length,
      err.position = (ts ++ [fin])[i].span.start ∧
      (∃ w, (∀ t ∈ w, t.Lexical) ∧ Accepts o.mode o.powers (ts.take i ++ w)) ∧
      (i = ts.length ∧ err.cause = .unexpectedEnd (expectation o.mode (ts.take i)) ∧
          ¬ Accepts o.mode o.powers ts ∨
        i < ts.length ∧
          err.cause = .unexpectedToken (expectation o.mode (ts.take i)) (ts ++ [fin])[i].text ∧
          ∀ w, ¬ Accepts o.mode o.powers (ts.take (i + 1) ++ w)) := by
  obtain ⟨ls, htiles, -, hts⟩ := tokenize_eq_ok_iff.1 htokens
  obtain ⟨rfl, hfin⟩ := List.append_inj' hts rfl
  obtain rfl := (List.cons.inj hfin).1
  rw [parse_of_tokenize htokens] at h
  obtain ⟨f, rest, hbody, rfl⟩ := failsBody_of_parseTokens rfl h
  cases f with
  | tooDeep => cases hmissing
  | missing expected =>
      obtain ⟨used, hused, rfl, hgo, hstop⟩ := hbody.misfit
      have hne := htiles.kind_ne_eof 0
      generalize words 0 ls = ts at hused hne
      subst hused
      refine ⟨used.length, by simp, ?_, ?_, ?_⟩
      · cases rest <;> simp [Fault.errorAt]
      · rwa [List.take_left]
      · rw [List.take_left]
        cases rest with
        | nil => exact .inl ⟨by simp, by simp [Fault.errorAt], hstop [] rfl⟩
        | cons t rest =>
            have ht : t.kind ≠ .eof := hne t (by simp)
            refine .inr ⟨by simp, ?_, fun w => ?_⟩
            · simp [Fault.errorAt, ht]
            · have htake : (used ++ t :: rest).take (used.length + 1) = used ++ [t] := by
                rw [List.take_length_add_append]
                rfl
              rw [htake, List.append_assoc]
              exact hstop _ rfl

/-- In `(1 2` the second number stands where `(1` can only be closed. -/
theorem parse_error_in_group :
    ∃ i, ∃ hi : i < 4,
      3 = ([⟨.openParen, "(", ⟨0, 1⟩⟩, ⟨.number, "1", ⟨1, 2⟩⟩, ⟨.number, "2", ⟨3, 4⟩⟩,
        .eof 4] : List Token)[i].span.start ∧
      (∃ w, (∀ t ∈ w, t.Lexical) ∧ Accepts .single .left
        (([⟨.openParen, "(", ⟨0, 1⟩⟩, ⟨.number, "1", ⟨1, 2⟩⟩, ⟨.number, "2", ⟨3, 4⟩⟩] :
          List Token).take i ++ w)) := by
  have htokens : tokenize "(1 2" = .ok ([⟨.openParen, "(", ⟨0, 1⟩⟩, ⟨.number, "1", ⟨1, 2⟩⟩,
      ⟨.number, "2", ⟨3, 4⟩⟩] ++ [.eof 4]) := by
    decide +kernel
  have h : parse "(1 2" {} = .error ⟨.unexpectedToken "`)`" "2", 3⟩ := by decide +kernel
  obtain ⟨i, hi, hpos, hgo, -⟩ := parse_error_at_first_misfit htokens h trivial
  exact ⟨i, hi, hpos, hgo⟩

end ArithLang
