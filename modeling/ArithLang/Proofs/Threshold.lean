/-
  What another limit on nesting changes.

  With more levels a run that came to a value comes to the same one, and so does a run that met
  a fault other than want of levels. Only a run that was cut short goes on, from where it stopped
  (`FailsBody.ahead_of_reads`, `FailsBody.eq_or_ahead`). A run is cut short only while there are
  no more levels than tokens, since every level is spent on a step and a step takes a token
  (`FailsBody.levels_le`). So over all limits the results of reading some tokens have one
  threshold (`exists_isThreshold`, `IsThreshold.unique`).
-/
import Mathlib.Order.Monotone.Defs
import Mathlib.Order.Nat
import ArithLang.Proofs.Program

namespace ArithLang

variable {b : BinaryOp → Binding}

/-! ## Levels against tokens -/

/-- The tokens that carrying out a task takes at least. -/
def Task.takes : Task → Nat
  | .step _ => 1
  | .whole _ => 0

theorem Reads.length_le {k : Nat} {floor : Level} {task : Task} {e : Expr} {ts rest : List Token}
    (h : Reads b k floor task ts e rest) : rest.length + task.takes ≤ ts.length := by
  induction h with
  | literal | stop => exact Nat.le_refl _
  | sign ht hx ih => exact Nat.succ_le_succ ih
  | group ho hx hc ih =>
      simp only [Task.takes, List.length_cons] at ih ⊢
      omega
  | join ht hf hr ih => exact Nat.succ_le_succ ih
  | go hs h ihs ih =>
      simp only [Task.takes] at ihs ih ⊢
      omega

/-- A run that is cut short had no more levels than tokens. -/
theorem Fails.levels_le {k : Nat} {floor : Level} {task : Task} {f : Fault} {ts rest : List Token}
    (h : Fails b k floor task ts f rest) (hf : f = .tooDeep) : k + task.takes ≤ ts.length := by
  induction h with
  | noRoom | noFold => exact Nat.zero_le _
  | noStart | unclosed => cases hf
  | sign ht h ih => exact Nat.succ_le_succ (ih hf)
  | group ho h ih => exact Nat.succ_le_succ (ih hf)
  | operand ht hfl h ih => exact Nat.succ_le_succ (ih hf)
  | first hs ih => exact ih hf
  | later hs h ih =>
      have hlen := hs.length_le
      have hlevels := ih hf
      simp only [Task.takes] at hlen hlevels ⊢
      omega

theorem FailsStmt.levels_le {k : Nat} {f : Fault} {ts rest : List Token}
    (h : FailsStmt b k ts f rest) (hf : f = .tooDeep) : k ≤ ts.length := by
  cases h with
  | assignment hn he h => exact Nat.le_add_right_of_le (Nat.le_add_right_of_le (h.levels_le hf))
  | expression hn h => exact h.levels_le hf

theorem FailsBody.levels_le {mode : Mode} {k : Nat} {f : Fault} {ts rest : List Token}
    (h : FailsBody b mode k ts f rest) (hf : f = .tooDeep) : k ≤ ts.length := by
  induction h with
  | single h => exact h.levels_le hf
  | leftover => cases hf
  | first hne h => exact h.levels_le hf
  | later hne h hs ih =>
      obtain ⟨used, rfl, -⟩ := h.change_rest
      rw [List.length_append]
      exact Nat.le_add_left_of_le (ih hf)

/-! ## More levels -/

theorem Reads.suffix {k : Nat} {floor : Level} {task : Task} {e : Expr} {ts rest : List Token}
    (h : Reads b k floor task ts e rest) : rest <:+ ts := by
  obtain ⟨used, rfl, -⟩ := h.change_rest
  exact List.suffix_append used rest

theorem Fails.suffix {k : Nat} {floor : Level} {task : Task} {f : Fault} {ts rest : List Token}
    (h : Fails b k floor task ts f rest) : rest <:+ ts := by
  obtain ⟨used, rfl, -⟩ := h.not_reads
  exact List.suffix_append used rest

/-- What fails with some levels and succeeds with others was cut short, and the run that
    succeeds gets at least as far. -/
theorem Fails.ahead_of_reads {k k' : Nat} {floor : Level} {task : Task} {f : Fault} {e : Expr}
    {ts rest rest' : List Token} (h : Fails b k floor task ts f rest)
    (h' : Reads b k' floor task ts e rest') : f = .tooDeep ∧ rest' <:+ rest := by
  induction h generalizing k' e rest' with
  | noRoom | noFold => exact ⟨rfl, h'.suffix⟩
  | noStart h => exact absurd h h'.start?
  | sign ht h ih =>
      obtain ⟨x, hx, -⟩ := h'.of_sign ht
      exact ih hx
  | group ho h ih =>
      obtain ⟨x, c, hx, -⟩ := h'.of_openParen ho
      obtain ⟨hf, hrest⟩ := ih hx
      exact ⟨hf, (List.suffix_cons c rest').trans hrest⟩
  | unclosed ho hx hc =>
      obtain ⟨x', c, hx', hc', -⟩ := h'.of_openParen ho
      obtain ⟨-, rfl⟩ := hx.unique hx'
      exact absurd hc' hc
  | operand ht hf h ih =>
      obtain ⟨r, hr, -⟩ := h'.of_operator ht
      exact ih hr
  | first hs ih =>
      cases h' with
      | stop h' => exact absurd h' hs.not_stops
      | go hs' h' =>
          obtain ⟨hf, hmid⟩ := ih hs'
          exact ⟨hf, h'.suffix.trans hmid⟩
  | later hs h ih =>
      cases h' with
      | stop h' => exact absurd h' hs.not_stops
      | go hs' h' =>
          obtain ⟨rfl, rfl⟩ := hs.unique hs'
          exact ih h'

/-- What fails with some levels and with more was cut short at first, and then gets at least as
    far, or it fails in the same way. -/
theorem Fails.eq_or_ahead {k k' : Nat} {floor : Level} {task : Task} {f f' : Fault}
    {ts rest rest' : List Token} (h : Fails b k floor task ts f rest) (hk : k ≤ k')
    (h' : Fails b k' floor task ts f' rest') :
    f' = f ∧ rest' = rest ∨ f = .tooDeep ∧ rest' <:+ rest := by
  induction h generalizing k' f' rest' with
  | noRoom | noFold => exact .inr ⟨rfl, h'.suffix⟩
  | noStart h => exact .inl (h'.of_start?_eq_none h)
  | sign ht h ih => exact ih hk (h'.of_sign ht)
  | group ho h ih =>
      rcases h'.of_openParen ho with h' | ⟨⟨x, hx⟩, -⟩
      · exact ih hk h'
      · exact .inr (h.ahead_of_reads hx)
  | unclosed ho hx hc =>
      rcases h'.of_openParen ho with h' | ⟨⟨x', hx'⟩, rfl⟩
      · exact absurd h' (hx.mono hk).not_fails
      · exact .inl ⟨rfl, (hx.unique hx').2.symm⟩
  | operand ht hf h ih => exact ih hk (h'.of_operator ht)
  | first hs ih =>
      cases h' with
      | noRoom | noFold => exact absurd hk (Nat.not_succ_le_zero _)
      | first hs' => exact ih (Nat.le_of_succ_le_succ hk) hs'
      | later hs' h' =>
          -- With more levels the step gets through, and what is behind it fails further on.
          obtain ⟨hf, hmid⟩ := hs.ahead_of_reads hs'
          exact .inr ⟨hf, h'.suffix.trans hmid⟩
  | later hs h ih =>
      cases h' with
      | noRoom | noFold => exact absurd hk (Nat.not_succ_le_zero _)
      | first hs' => exact absurd hs' (hs.mono (Nat.le_of_succ_le_succ hk)).not_fails
      | later hs' h' =>
          obtain ⟨rfl, rfl⟩ := hs.unique hs'
          exact ih (Nat.le_of_succ_le_succ hk) h'

theorem FailsStmt.ahead_of_reads {k k' : Nat} {f : Fault} {st : Stmt} {ts rest rest' : List Token}
    (h : FailsStmt b k ts f rest) (h' : ReadsStmt b k' ts st rest') :
    f = .tooDeep ∧ rest' <:+ rest := by
  cases h with
  | assignment hn he h =>
      cases h' with
      | assignment _ _ h' => exact h.ahead_of_reads h'
      | expression hn' _ => exact absurd ⟨hn, he⟩ hn'
  | expression hn h =>
      cases h' with
      | assignment hn' he' _ => exact absurd ⟨hn', he'⟩ hn
      | expression _ h' => exact h.ahead_of_reads h'

theorem FailsStmt.eq_or_ahead {k k' : Nat} {f f' : Fault} {ts rest rest' : List Token}
    (h : FailsStmt b k ts f rest) (hk : k ≤ k') (h' : FailsStmt b k' ts f' rest') :
    f' = f ∧ rest' = rest ∨ f = .tooDeep ∧ rest' <:+ rest := by
  cases h with
  | assignment hn he h =>
      cases h' with
      | assignment _ _ h' => exact h.eq_or_ahead hk h'
      | expression hn' _ => exact absurd ⟨hn, he⟩ hn'
  | expression hn h =>
      cases h' with
      | assignment hn' he' _ => exact absurd ⟨hn', he'⟩ hn
      | expression _ h' => exact h.eq_or_ahead hk h'

theorem ReadsBody.suffix {mode : Mode} {k : Nat} {sts : List Stmt} {ts rest : List Token}
    (h : ReadsBody b mode k ts sts rest) : rest <:+ ts := by
  induction h with
  | single h he =>
      obtain ⟨used, rfl, -⟩ := h.change_rest
      exact List.suffix_append used _
  | done he => exact List.suffix_refl _
  | more hne h hs ih =>
      obtain ⟨used, rfl, -⟩ := h.change_rest
      exact ih.trans (List.suffix_append used _)

theorem FailsBody.suffix {mode : Mode} {k : Nat} {f : Fault} {ts rest : List Token}
    (h : FailsBody b mode k ts f rest) : rest <:+ ts := by
  obtain ⟨used, rfl, -⟩ := h.not_reads
  exact List.suffix_append used rest

/-- A program that is refused at some limit and accepted at another was cut short at the first. -/
theorem FailsBody.ahead_of_reads {mode : Mode} {k k' : Nat} {f : Fault} {sts : List Stmt}
    {ts rest rest' : List Token} (h : FailsBody b mode k ts f rest)
    (h' : ReadsBody b mode k' ts sts rest') : f = .tooDeep ∧ rest' <:+ rest := by
  induction h generalizing sts with
  | single h =>
      cases h' with
      | single h' he => exact h.ahead_of_reads h'
  | leftover h hne =>
      cases h' with
      | single h' he =>
          obtain ⟨-, rfl⟩ := h.unique h'
          exact absurd he hne
  | first hne h =>
      cases h' with
      | done he => exact absurd he hne
      | more _ h' hs' =>
          obtain ⟨hf, hmid⟩ := h.ahead_of_reads h'
          exact ⟨hf, hs'.suffix.trans hmid⟩
  | later hne h hs ih =>
      cases h' with
      | done he => exact absurd he hne
      | more _ h' hs' =>
          obtain ⟨-, rfl⟩ := h.unique h'
          exact ih hs'

/-- A program that is refused at some limit and at a larger one is refused for the same fault,
    or it was cut short at the first. -/
theorem FailsBody.eq_or_ahead {mode : Mode} {k k' : Nat} {f f' : Fault}
    {ts rest rest' : List Token} (h : FailsBody b mode k ts f rest) (hk : k ≤ k')
    (h' : FailsBody b mode k' ts f' rest') :
    f' = f ∧ rest' = rest ∨ f = .tooDeep ∧ rest' <:+ rest := by
  induction h with
  | single h =>
      cases h' with
      | single h' => exact h.eq_or_ahead hk h'
      | leftover h' hne' => exact .inr (h.ahead_of_reads h')
  | leftover h hne =>
      cases h' with
      | single h' => exact absurd h' (h.mono hk).not_fails
      | leftover h' hne' => exact .inl ⟨rfl, (h.unique h').2.symm⟩
  | first hne h =>
      cases h' with
      | first _ h' => exact h.eq_or_ahead hk h'
      | later _ h' hs' =>
          obtain ⟨hf, hmid⟩ := h.ahead_of_reads h'
          exact .inr ⟨hf, hs'.suffix.trans hmid⟩
  | later hne h hs ih =>
      cases h' with
      | first _ h' => exact absurd h' (h.mono hk).not_fails
      | later _ h' hs' =>
          obtain ⟨-, rfl⟩ := h.unique h'
          exact ih hk hs'

/-- At one limit there is one fault, and one place where it is met. -/
theorem FailsBody.unique {mode : Mode} {k : Nat} {f f' : Fault} {ts rest rest' : List Token}
    (h : FailsBody b mode k ts f rest) (h' : FailsBody b mode k ts f' rest') :
    f = f' ∧ rest = rest' := by
  rcases h.eq_or_ahead (Nat.le_refl k) h' with ⟨rfl, rfl⟩ | ⟨rfl, hrest'⟩
  · exact ⟨rfl, rfl⟩
  · rcases h'.eq_or_ahead (Nat.le_refl k) h with ⟨rfl, rfl⟩ | ⟨rfl, hrest⟩
    · exact ⟨rfl, rfl⟩
    · exact ⟨rfl, hrest.eq_of_length_le hrest'.length_le⟩

/-! ## Where a run stops -/

/-- How many tokens are behind the cursor when the reading of some tokens ends. -/
def stopIndex (tokens : List Token) (o : Options) : Nat :=
  let start := State.ofTokens tokens o
  match (Parser.program o.mode).run start with
  | .ok _ s | .error _ s => start.ahead.length - s.ahead.length

section
variable {ts : List Token} {fin : Token} {o : Options}

/-- As `parseTokens_cases`, with the place where the run stops. -/
theorem parseTokens_stop_cases (hfin : fin.kind = .eof) (ts : List Token) (o : Options) :
    (∃ sts rest, ReadsBody (BinaryOp.binding o.powers) o.mode o.maxDepth ts sts rest ∧
      parseTokens (ts ++ [fin]) o = .ok ⟨sts, ⟨0, (rest.headD fin).span.start⟩⟩ ∧
      stopIndex (ts ++ [fin]) o = ts.length - rest.length) ∨
    (∃ f rest, FailsBody (BinaryOp.binding o.powers) o.mode o.maxDepth ts f rest ∧
      parseTokens (ts ++ [fin]) o = .error (f.errorAt o.maxDepth (rest.headD fin)) ∧
      stopIndex (ts ++ [fin]) o = ts.length - rest.length) := by
  have hahead : (State.ofTokens (ts ++ [fin]) o).ahead = ts :=
    congrArg Stream.pending (Stream.ofList_append_final hfin)
  unfold parseTokens readTokens stopIndex
  obtain ⟨sts, s, h, hrun⟩ | ⟨f, s, h, hrun⟩ := program_run_cases hfin ts o
  · exact .inl ⟨sts, s.ahead, h, by rw [hrun], by simp only [hrun, hahead]⟩
  · exact .inr ⟨f, s.ahead, h, by rw [hrun], by simp only [hrun, hahead]⟩

/-- What is refused is what the rules meet a fault in. -/
theorem parseTokens_eq_error_iff (hfin : fin.kind = .eof) {err : ParseError} :
    parseTokens (ts ++ [fin]) o = .error err ↔
      ∃ f rest, FailsBody (BinaryOp.binding o.powers) o.mode o.maxDepth ts f rest ∧
        err = f.errorAt o.maxDepth (rest.headD fin) := by
  constructor
  · exact failsBody_of_parseTokens hfin
  · intro h'
    obtain ⟨f, rest, h, rfl⟩ := h'
    obtain ⟨sts, rest', h', -⟩ | ⟨f', rest', h', herr⟩ := parseTokens_cases hfin ts o
    · exact absurd h h'.not_fails
    · obtain ⟨rfl, rfl⟩ := h.unique h'
      exact herr

/-- The cursor stands on the first of the tokens that are left, or else on the end mark. -/
theorem getElem_of_suffix {rest : List Token} (h : rest <:+ ts) (fin : Token) :
    ∃ hi : ts.length - rest.length < (ts ++ [fin]).length,
      (ts ++ [fin])[ts.length - rest.length] = rest.headD fin := by
  obtain ⟨used, rfl⟩ := h
  cases rest <;> simp

/-- An error is reported at the token on which the cursor stops. -/
theorem position_eq_of_parseTokens (hfin : fin.kind = .eof) {err : ParseError}
    (h : parseTokens (ts ++ [fin]) o = .error err) :
    ∃ hi : stopIndex (ts ++ [fin]) o < (ts ++ [fin]).length,
      err.position = (ts ++ [fin])[stopIndex (ts ++ [fin]) o].span.start := by
  obtain ⟨sts, rest, -, hok, -⟩ | ⟨f, rest, hf, herr, hstop⟩ := parseTokens_stop_cases hfin ts o
  · rw [hok] at h
    cases h
  · obtain rfl := Except.error.inj (herr.symm.trans h)
    obtain ⟨hi, hget⟩ := getElem_of_suffix hf.suffix fin
    simp only [hstop]
    refine ⟨hi, ?_⟩
    rw [hget, Fault.position_errorAt]

/-- The result of a reading that the limit cuts short. -/
def TooComplex (r : Except ParseError Program) : Prop :=
  ∃ limit position, r = .error ⟨.tooComplex limit, position⟩

/-- An error for want of levels names the limit, and there are no more levels than tokens. -/
theorem limit_of_tooComplex (hfin : fin.kind = .eof) {limit position : Nat}
    (h : parseTokens (ts ++ [fin]) o = .error ⟨.tooComplex limit, position⟩) :
    limit = o.maxDepth ∧ o.maxDepth ≤ ts.length := by
  obtain ⟨f, rest, hf, herr⟩ := failsBody_of_parseTokens hfin h
  cases f with
  | tooDeep =>
      refine ⟨?_, hf.levels_le rfl⟩
      injection herr with hcause
      injection hcause
  | missing expected =>
      injection herr with hcause
      split at hcause <;> cases hcause

/-- A larger limit changes a reading only if it was cut short, and then the cursor stops no
    sooner. -/
theorem parseTokens_of_le (hfin : fin.kind = .eof) (ts : List Token) (mode : Mode)
    (powers : Associativity) {m m' : Nat} (hle : m ≤ m') :
    parseTokens (ts ++ [fin]) ⟨mode, m', powers⟩ = parseTokens (ts ++ [fin]) ⟨mode, m, powers⟩ ∧
        stopIndex (ts ++ [fin]) ⟨mode, m', powers⟩ = stopIndex (ts ++ [fin]) ⟨mode, m, powers⟩ ∨
      TooComplex (parseTokens (ts ++ [fin]) ⟨mode, m, powers⟩) ∧
        stopIndex (ts ++ [fin]) ⟨mode, m, powers⟩ ≤ stopIndex (ts ++ [fin]) ⟨mode, m', powers⟩ := by
  obtain ⟨sts, rest, h, hr, hi⟩ | ⟨f, rest, h, hr, hi⟩ :=
    parseTokens_stop_cases hfin ts ⟨mode, m, powers⟩ <;>
  obtain ⟨sts', rest', h', hr', hi'⟩ | ⟨f', rest', h', hr', hi'⟩ :=
    parseTokens_stop_cases hfin ts ⟨mode, m', powers⟩ <;>
  rw [hr, hr', hi, hi']
  · obtain ⟨rfl, rfl⟩ := h.unique h'
    exact .inl ⟨rfl, rfl⟩
  · exact absurd h' (h.mono hle).not_fails
  · obtain ⟨rfl, hrest⟩ := h.ahead_of_reads h'
    exact .inr ⟨⟨_, _, rfl⟩, Nat.sub_le_sub_left hrest.length_le _⟩
  · rcases h.eq_or_ahead hle h' with ⟨rfl, rfl⟩ | ⟨rfl, hrest⟩
    · cases f' with
      | tooDeep => exact .inr ⟨⟨_, _, rfl⟩, Nat.le_refl _⟩
      | missing expected => exact .inl ⟨rfl, rfl⟩
    · exact .inr ⟨⟨_, _, rfl⟩, Nat.sub_le_sub_left hrest.length_le _⟩

theorem stopIndex_mono (hfin : fin.kind = .eof) (ts : List Token) (mode : Mode)
    (powers : Associativity) : Monotone fun m => stopIndex (ts ++ [fin]) ⟨mode, m, powers⟩ := by
  intro m m' hle
  rcases parseTokens_of_le hfin ts mode powers hle with ⟨-, h⟩ | ⟨-, h⟩
  · exact h.ge
  · exact h

end

/-! ## The threshold -/

/-- From `m₀` on, the limit makes no difference to what the tokens are read as. Every smaller
    one cuts the reading short, at a token that comes no sooner the larger the limit is, and no
    later than the token at which an error would be found without it. -/
structure IsThreshold (tokens : List Token) (mode : Mode) (powers : Associativity) (m₀ : Nat)
    (r : Except ParseError Program) : Prop where
  same : ∀ m, m₀ ≤ m → parseTokens tokens ⟨mode, m, powers⟩ = r
  not_cut : ∀ limit position, r ≠ .error ⟨.tooComplex limit, position⟩
  cut : ∀ m < m₀, ∃ hi : stopIndex tokens ⟨mode, m, powers⟩ < tokens.length,
    parseTokens tokens ⟨mode, m, powers⟩ =
      .error ⟨.tooComplex m, tokens[stopIndex tokens ⟨mode, m, powers⟩].span.start⟩
  index_mono : ∀ m m', m ≤ m' → m' < m₀ →
    stopIndex tokens ⟨mode, m, powers⟩ ≤ stopIndex tokens ⟨mode, m', powers⟩
  index_le : ∀ err, r = .error err → ∃ i, ∃ hi : i < tokens.length,
    err.position = tokens[i].span.start ∧
      (∀ m, m₀ ≤ m → stopIndex tokens ⟨mode, m, powers⟩ = i) ∧
      ∀ m < m₀, stopIndex tokens ⟨mode, m, powers⟩ ≤ i

/-- A limit that leaves a reading alone is not below another threshold. -/
theorem IsThreshold.le {tokens : List Token} {mode : Mode} {powers : Associativity} {m₀ m₁ : Nat}
    {r r' : Except ParseError Program} (h : IsThreshold tokens mode powers m₀ r)
    (h' : IsThreshold tokens mode powers m₁ r') : m₁ ≤ m₀ := by
  refine Nat.le_of_not_lt fun hlt => ?_
  obtain ⟨hi, hcut⟩ := h'.cut m₀ hlt
  exact h.not_cut _ _ ((h.same m₀ (Nat.le_refl m₀)).symm.trans hcut)

theorem IsThreshold.unique {tokens : List Token} {mode : Mode} {powers : Associativity}
    {m₀ m₁ : Nat} {r r' : Except ParseError Program} (h : IsThreshold tokens mode powers m₀ r)
    (h' : IsThreshold tokens mode powers m₁ r') : m₀ = m₁ ∧ r = r' := by
  obtain rfl := Nat.le_antisymm (h'.le h) (h.le h')
  exact ⟨rfl, (h.same m₀ (Nat.le_refl m₀)).symm.trans (h'.same m₀ (Nat.le_refl m₀))⟩

/-- Over all limits, the readings of some tokens have one threshold. It is at most one more than
    the number of tokens in front of the end mark. -/
theorem exists_isThreshold {fin : Token} (hfin : fin.kind = .eof) (ts : List Token) (mode : Mode)
    (powers : Associativity) :
    ∃ m₀ r, m₀ ≤ ts.length + 1 ∧ IsThreshold (ts ++ [fin]) mode powers m₀ r := by
  classical
  have henough : ¬ TooComplex (parseTokens (ts ++ [fin]) ⟨mode, ts.length + 1, powers⟩) := by
    intro h
    obtain ⟨limit, position, h⟩ := h
    exact absurd (limit_of_tooComplex hfin h).2 (Nat.not_succ_le_self _)
  -- The threshold is the least limit that does not cut the reading short.
  have hex : ∃ m, ¬ TooComplex (parseTokens (ts ++ [fin]) ⟨mode, m, powers⟩) := ⟨_, henough⟩
  have hspec := Nat.find_spec hex
  have hmono := stopIndex_mono hfin ts mode powers
  have hsame := fun m (hm : Nat.find hex ≤ m) =>
    (parseTokens_of_le hfin ts mode powers hm).resolve_right fun h => hspec h.1
  refine ⟨Nat.find hex, _, Nat.find_min' hex henough, fun m hm => (hsame m hm).1, ?_, ?_,
    fun m m' hm _ => hmono hm, ?_⟩
  · exact fun limit position h => hspec ⟨limit, position, h⟩
  · intro m hm
    obtain ⟨limit, position, h⟩ := not_not.1 (Nat.find_min hex hm)
    obtain ⟨hi, hposition⟩ := position_eq_of_parseTokens hfin h
    obtain ⟨rfl, -⟩ := limit_of_tooComplex hfin h
    exact ⟨hi, hposition ▸ h⟩
  · intro err herr
    obtain ⟨hi, hposition⟩ := position_eq_of_parseTokens hfin herr
    exact ⟨_, hi, hposition, fun m hm => (hsame m hm).2, fun m hm => hmono hm.le⟩

/-- The tokens of `1+1` have the threshold three: one level for the operand in front, and two
    for the operator and the operand behind it. -/
theorem exists_isThreshold_sum :
    ∃ r, IsThreshold [⟨.number, "1", ⟨0, 1⟩⟩, ⟨.plus, "+", ⟨1, 2⟩⟩, ⟨.number, "1", ⟨2, 3⟩⟩,
      .eof 3] .single .left 3 r := by
  let ts : List Token := [⟨.number, "1", ⟨0, 1⟩⟩, ⟨.plus, "+", ⟨1, 2⟩⟩, ⟨.number, "1", ⟨2, 3⟩⟩]
  have hcut : parseTokens (ts ++ [.eof 3]) ⟨.single, 2, .left⟩ =
      .error ⟨.tooComplex 2, 2⟩ := by
    decide +kernel
  have hok : parseTokens (ts ++ [.eof 3]) ⟨.single, 3, .left⟩ =
      .ok ⟨[.expression (.binary .add (.number "1" ⟨0, 1⟩) (.number "1" ⟨2, 3⟩) ⟨0, 3⟩) ⟨0, 3⟩],
        ⟨0, 3⟩⟩ := by
    decide +kernel
  have hfin : (Token.eof 3).kind = .eof := rfl
  obtain ⟨m₀, r, -, h⟩ := exists_isThreshold hfin ts .single .left
  have hge : 3 ≤ m₀ := by
    refine Nat.lt_of_not_le fun hle => h.not_cut 2 2 ?_
    exact (h.same 2 hle).symm.trans hcut
  have hle : m₀ ≤ 3 := by
    refine Nat.le_of_not_lt fun hlt => ?_
    obtain ⟨hi, hres⟩ := h.cut 3 hlt
    cases hok.symm.trans hres
  obtain rfl := Nat.le_antisymm hle hge
  exact ⟨r, h⟩

end ArithLang
