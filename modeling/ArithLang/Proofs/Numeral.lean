/-
  What number a numeral stands for.

  A text is read as a number digit by digit, and every step is checked against 64 bits. A number
  only grows when digits are written behind it, so the checks on the way come to a single one at
  the end (`foldlM_appendDigit?_eq_some_iff`): a text is read exactly if it is digits, perhaps
  behind a `+`, and their value fits (`readNumber?_eq_some_iff`). The text of a number in a program
  has at least one digit and no `+`, so only a value that does not fit is without an answer
  (`number_of_parse`).
-/
import ArithLang.Proofs.Faithfulness
import ArithLang.Proofs.Tiling

namespace ArithLang

/-! ## Digits -/

theorem digitValue?_eq_some_iff {c : Char} {d : Nat} :
    digitValue? c = some d ↔ ('0' ≤ c ∧ c ≤ '9') ∧ d = c.toNat - '0'.toNat := by
  unfold digitValue?
  by_cases h : '0' ≤ c ∧ c ≤ '9'
  · rw [if_pos h, Option.some.injEq, eq_comm]
    exact (and_iff_right h).symm
  · rw [if_neg h]
    exact iff_of_false nofun fun h' => h h'.1

theorem appendDigit?_eq_some_iff {n m : UInt64} {c : Char} :
    appendDigit? n c = some m ↔
      ('0' ≤ c ∧ c ≤ '9') ∧ m.toNat = 10 * n.toNat + (c.toNat - '0'.toNat) := by
  unfold appendDigit?
  simp only [Option.bind_eq_bind, Option.bind_eq_some_iff, digitValue?_eq_some_iff]
  constructor
  · rintro ⟨d, ⟨hc, rfl⟩, hm⟩
    split at hm
    · next hlt =>
        obtain rfl := Option.some.inj hm
        refine ⟨hc, ?_⟩
        rw [UInt64.toNat_ofNat_of_lt' hlt, Nat.mul_comm]
    · cases hm
  · rintro ⟨hc, hm⟩
    have hlt := m.toNat_lt_size
    rw [hm, Nat.mul_comm] at hlt
    refine ⟨_, ⟨hc, rfl⟩, (if_pos hlt).trans (congrArg some ?_)⟩
    rw [← UInt64.toNat_inj, UInt64.toNat_ofNat_of_lt' hlt, hm, Nat.mul_comm]

/-- Digits behind a number make it no smaller. -/
theorem le_ofDigitChars (cs : List Char) (n : Nat) : n ≤ Nat.ofDigitChars 10 cs n := by
  rw [Nat.ofDigitChars_eq_ofDigitChars_zero]
  have := Nat.le_mul_of_pos_left n (Nat.pow_pos (n := cs.length) (by decide : 0 < 10))
  omega

/-- Digits are read behind a number exactly if the value of all of it fits into 64 bits. -/
theorem foldlM_appendDigit?_eq_some_iff {cs : List Char} {n m : UInt64} :
    cs.foldlM appendDigit? n = some m ↔
      (∀ c ∈ cs, '0' ≤ c ∧ c ≤ '9') ∧ m.toNat = Nat.ofDigitChars 10 cs n.toNat := by
  induction cs generalizing n with
  | nil =>
      rw [List.foldlM_nil, Nat.ofDigitChars_nil, UInt64.toNat_inj, eq_comm]
      exact Option.some_inj.trans (and_iff_right nofun).symm
  | cons c cs ih =>
      rw [List.foldlM_cons, Nat.ofDigitChars_cons, List.forall_mem_cons]
      simp only [Option.bind_eq_bind, Option.bind_eq_some_iff, appendDigit?_eq_some_iff, ih]
      constructor
      · rintro ⟨k, ⟨hc, hk⟩, hcs, hm⟩
        rw [hk] at hm
        exact ⟨⟨hc, hcs⟩, hm⟩
      · rintro ⟨⟨hc, hcs⟩, hm⟩
        -- The number with its first digit is no larger than the whole, which fits.
        have hle := le_ofDigitChars cs (10 * n.toNat + (c.toNat - '0'.toNat))
        have hlt := m.toNat_lt_size
        have hk := UInt64.toNat_ofNat_of_lt' (Nat.lt_of_le_of_lt (hm ▸ hle) hlt)
        exact ⟨_, ⟨hc, hk⟩, hcs, by rw [hk, hm]⟩

/-! ## Texts -/

theorem readDigits?_eq_some_iff {cs : List Char} {m : UInt64} :
    readDigits? cs = some m ↔
      cs ≠ [] ∧ (∀ c ∈ cs, '0' ≤ c ∧ c ≤ '9') ∧ m.toNat = Nat.ofDigitChars 10 cs 0 := by
  cases cs with
  | nil => exact iff_of_false nofun fun h => h.1 rfl
  | cons c cs =>
      have h := @foldlM_appendDigit?_eq_some_iff (c :: cs) 0 m
      exact h.trans (and_iff_right (List.cons_ne_nil c cs)).symm

/-- A text is read as a number exactly if it is digits, at least one and perhaps behind a `+`, and
    the value of the digits fits into 64 bits. -/
theorem readNumber?_eq_some_iff {cs : List Char} {m : UInt64} :
    readNumber? cs = some m ↔
      ∃ digits, (cs = digits ∨ cs = '+' :: digits) ∧ digits ≠ [] ∧
        (∀ c ∈ digits, '0' ≤ c ∧ c ≤ '9') ∧ m.toNat = Nat.ofDigitChars 10 digits 0 := by
  unfold readNumber?
  split
  · next cs =>
      rw [readDigits?_eq_some_iff]
      constructor
      · exact fun h => ⟨cs, .inr rfl, h⟩
      · rintro ⟨digits, rfl | hcs, h⟩
        · exact absurd (h.2.1 '+' List.mem_cons_self) (by decide)
        · rwa [← List.tail_eq_of_cons_eq hcs] at h
  · next hplus =>
      rw [readDigits?_eq_some_iff]
      constructor
      · exact fun h => ⟨cs, .inl rfl, h⟩
      · rintro ⟨digits, rfl | rfl, h⟩
        · exact h
        · exact absurd rfl (hplus digits)

/-! ## Numbers in a program -/

variable {text : String}

/-- A numeral has its value, or none if that takes more than 64 bits. -/
theorem IsNumeral.value?_number (h : IsNumeral text) (span : Span) :
    (∀ v, (Expr.number text span).value? = some v ↔
      v.toNat = Nat.ofDigitChars 10 text.toList 0) ∧
    ((Expr.number text span).value? = none ↔ UInt64.size ≤ Nat.ofDigitChars 10 text.toList 0) := by
  obtain ⟨hne, hdigits⟩ := h
  have hvalue : ∀ v, (Expr.number text span).value? = some v ↔
      v.toNat = Nat.ofDigitChars 10 text.toList 0 := by
    intro v
    refine readNumber?_eq_some_iff.trans ⟨?_, fun hv => ?_⟩
    · rintro ⟨digits, hcs | hcs, -, -, hv⟩
      · rw [hcs, hv]
      · exact absurd (hdigits '+' (by simp [hcs])) (by decide)
    · exact ⟨text.toList, .inl rfl, mt String.toList_eq_nil_iff.1 hne, hdigits, hv⟩
  refine ⟨hvalue, ?_⟩
  rw [Option.eq_none_iff_forall_ne_some]
  constructor
  · intro hnone
    apply Nat.le_of_not_lt
    intro hlt
    exact hnone _ ((hvalue _).2 (UInt64.toNat_ofNat_of_lt' hlt))
  · intro hle v hv
    have hlt := v.toNat_lt
    rw [(hvalue v).1 hv] at hlt
    exact Nat.not_lt.2 hle hlt

theorem Expr.Spells.token_of_number {span : Span} {ts : List Token}
    (h : (Expr.number text span).Spells ts) : ts = [⟨.number, text, span⟩] := by
  cases h with
  | @literal t _ he =>
      obtain ⟨kind, text', span'⟩ := t
      rcases Expr.literal?_eq_some_iff.1 he with ⟨hk, he⟩ | ⟨-, he⟩
      · cases he
        cases hk
        rfl
      · cases he

/-- Every number in a program is written as the text under its span, in digits only and with at
    least one. It has the value of these digits if that fits into 64 bits, and none exactly if it
    does not. -/
theorem number_of_parse {source : String} {o : Options} {p : Program} {st : Stmt}
    {path : List String} {span : Span} (h : parse source o = .ok p) (hst : st ∈ p.body)
    (he : st.expr.follow? path = some (.number text span)) :
    span.slice? source = some text ∧ IsNumeral text ∧
      (∀ v, (Expr.number text span).value? = some v ↔
        v.toNat = Nat.ofDigitChars 10 text.toList 0) ∧
      ((Expr.number text span).value? = none ↔
        UInt64.size ≤ Nat.ofDigitChars 10 text.toList 0) := by
  obtain ⟨ls, htiles, hsource, hbody, -⟩ := parse_eq_ok_iff.1 h
  have hb := BinaryOp.binding_level_lt_unary o.powers
  have htile := tileFrom_zero_iff.2 ⟨ls, htiles, hsource, rfl⟩
  obtain ⟨before, used, after, hwords, hsp, hc, -⟩ := hbody.spells_of_mem hb hst
  obtain ⟨front, used', rfl, hsp'⟩ := hsp.expr
  obtain ⟨⟨before', used'', after', rfl, hse⟩, -⟩ := hsp'.follow hc he
  obtain rfl := hse.token_of_number
  have hmem : (⟨.number, text, span⟩ : Token) ∈ words 0 ls := by
    rw [hwords]
    simp
  have hnumeral : IsNumeral text := valid_number_iff_isNumeral.1 (htile.lexical _ hmem)
  exact ⟨htile.text _ hmem, hnumeral, hnumeral.value?_number span⟩

/-- Of the two numbers in `x = 018446744073709551615/18446744073709551616` the first is the largest
    that fits into 64 bits, and the second the smallest that does not. -/
theorem number_of_parse_around_limit :
    Span.slice? ⟨4, 25⟩ "x = 018446744073709551615/18446744073709551616" =
        some "018446744073709551615" ∧
      (Expr.number "018446744073709551615" ⟨4, 25⟩).value? = some 18446744073709551615 ∧
      (Expr.number "18446744073709551616" ⟨26, 46⟩).value? = none := by
  have h : parse "x = 018446744073709551615/18446744073709551616" {} =
      .ok ⟨[.assignment "x" ⟨0, 1⟩ (.binary .divide (.number "018446744073709551615" ⟨4, 25⟩)
        (.number "18446744073709551616" ⟨26, 46⟩) ⟨4, 46⟩) ⟨0, 46⟩], ⟨0, 46⟩⟩ := by
    decide +kernel
  have hst (st : Stmt) : st ∈ [st] := List.mem_singleton.2 rfl
  obtain ⟨hslice, -, hfits, -⟩ := @number_of_parse _ _ _ _ _ ["lhs"] _ h (hst _) rfl
  obtain ⟨-, -, -, hover⟩ := @number_of_parse _ _ _ _ _ ["rhs"] _ h (hst _) rfl
  exact ⟨hslice, (hfits _).2 (by decide +kernel), hover.2 (by decide +kernel)⟩

end ArithLang
