/-
  What does not depend on how operators bind.

  Tokens are accepted if they can be grouped into statements somehow (`Groups`): then they can be
  grouped as the bindings ask (`accepts_iff_groups`). So two parsers with different bindings read
  equally far into an input that goes wrong, and ask for the same there
  (`FailsBody.eq_of_missing`): if one stopped earlier, it would refuse tokens that the other one can
  still go on with, and both accept the same.
-/
import ArithLang.Proofs.Repetition
import ArithLang.Proofs.Threshold
import ArithLang.Proofs.ViablePrefix

namespace ArithLang

variable {mode : Mode} {k : Nat} {ts : List Token}

/-! ## What is accepted -/

/-- The tokens can be grouped into statements somehow, and into one if the mode asks for it. -/
def Groups (mode : Mode) (ts : List Token) : Prop :=
  ∃ parts : List (List Token), parts.flatten = ts ∧
    (∀ part ∈ parts, ∃ st : Stmt, st.Spells part) ∧ (mode = .single → parts.length = 1)

section
variable {b : BinaryOp → Binding}

theorem ReadsBody.groups (hb : ∀ op, (b op).level < .unary) {sts : List Stmt}
    (h : ReadsBody b mode k ts sts []) : Groups mode ts := by
  cases mode with
  | single =>
      cases h with
      | @single _ _ _ st h _ =>
          refine ⟨[ts], by simp, fun part hpart => ⟨st, ?_⟩, fun _ => rfl⟩
          rw [List.mem_singleton.1 hpart]
          exact ((readsStmt_nil_iff hb).1 h).1
  | repeated =>
      obtain ⟨parts, rfl, hcut⟩ := h.exists_readsCut
      obtain ⟨hall, -⟩ := (readsCut_iff hb).1 hcut
      exact ⟨parts, rfl, forall_exists_spells hb hall, fun h => nomatch h⟩

/-- With a level for each token, tokens that can be grouped somehow are read. -/
theorem Groups.exists_readsBody (hb : ∀ op, (b op).level < .unary) (h : Groups mode ts)
    (hk : ts.length ≤ k) : ∃ sts, ReadsBody b mode k ts sts [] := by
  obtain ⟨parts, rfl, hparts, hone⟩ := h
  cases mode with
  | single =>
      obtain ⟨part, rfl⟩ := List.length_eq_one_iff.1 (hone rfl)
      rw [List.flatten_cons, List.flatten_nil, List.append_nil] at hk ⊢
      obtain ⟨st, hst⟩ := (exists_readsStmt_iff hb hk).2 (hparts part (by simp))
      exact ⟨[st], .single hst rfl⟩
  | repeated =>
      obtain ⟨parts', sts, hflat, hcut⟩ := exists_readsCut_of_spells hb hparts hk
      exact ⟨sts, hflat ▸ hcut.readsBody⟩

end

/-- How operators bind decides nothing about what is accepted. -/
theorem accepts_iff_groups {powers : Associativity} (hts : ∀ t ∈ ts, t.kind ≠ .eof) :
    Accepts mode powers ts ↔ Groups mode ts := by
  have hb := BinaryOp.binding_level_lt_unary powers
  rw [accepts_iff]
  constructor
  · intro h
    obtain ⟨k, sts, rest, h⟩ := h
    obtain rfl := h.rest_eq_nil hts
    exact h.groups hb
  · intro h
    obtain ⟨sts, h⟩ := h.exists_readsBody hb (Nat.le_refl _)
    exact ⟨_, sts, [], h⟩

/-! ## Where an input goes wrong -/

section
variable {powers powers' : Associativity} {k' : Nat} {expected expected' : String}
  {rest rest' : List Token}

/-- If one run got further than another, the tokens that it read could be gone on with, and so
    could those that the other one read, with the token that it did not take. -/
theorem FailsBody.length_le_of_missing (hts : ∀ t ∈ ts, t.kind ≠ .eof)
    (h : FailsBody (BinaryOp.binding powers) mode k ts (.missing expected) rest)
    (h' : FailsBody (BinaryOp.binding powers') mode k' ts (.missing expected') rest') :
    rest.length ≤ rest'.length := by
  obtain ⟨used, hused, -, -, hstop⟩ := h.misfit
  obtain ⟨used', hused', -, ⟨w, hw, hgo⟩, -⟩ := h'.misfit
  rcases List.append_eq_append_iff.1 (hused.symm.trans hused') with
    ⟨more, rfl, rfl⟩ | ⟨more, rfl, rfl⟩
  · rcases more with _ | ⟨t, more⟩
    · exact Nat.le_refl _
    · have hne : ∀ u ∈ used ++ t :: more ++ w, u.kind ≠ .eof := by
        intro u hu
        rcases List.mem_append.1 hu with hu | hu
        · exact hts u (by rw [hused']; exact List.mem_append_left _ hu)
        · exact (hw u hu).kind_ne_eof
      have haccepts : Accepts mode powers (used ++ t :: more ++ w) :=
        (accepts_iff_groups hne).2 ((accepts_iff_groups hne).1 hgo)
      rw [List.append_assoc] at haccepts
      exact absurd haccepts (hstop _ rfl)
  · rw [List.length_append]
    exact Nat.le_add_left _ _

/-- Something is missing at the same place, and the same thing, whichever way powers group. -/
theorem FailsBody.eq_of_missing (hts : ∀ t ∈ ts, t.kind ≠ .eof)
    (h : FailsBody (BinaryOp.binding powers) mode k ts (.missing expected) rest)
    (h' : FailsBody (BinaryOp.binding powers') mode k' ts (.missing expected') rest') :
    expected = expected' ∧ rest = rest' := by
  have hlen := Nat.le_antisymm (h.length_le_of_missing hts h') (h'.length_le_of_missing hts h)
  obtain ⟨used, hused, rfl⟩ := h.eq_expectation rfl
  obtain ⟨used', hused', rfl⟩ := h'.eq_expectation rfl
  obtain ⟨rfl, rfl⟩ := List.append_inj' (hused.symm.trans hused') hlen
  exact ⟨rfl, rfl⟩

/-- With more levels than tokens, a fault is for want of something. -/
theorem FailsBody.exists_missing {b : BinaryOp → Binding} {f : Fault}
    (h : FailsBody b mode k ts f rest) (hk : ts.length < k) :
    ∃ expected, f = .missing expected := by
  cases f with
  | tooDeep => exact absurd (h.levels_le rfl) (Nat.not_le.2 hk)
  | missing expected => exact ⟨expected, rfl⟩

end

end ArithLang
