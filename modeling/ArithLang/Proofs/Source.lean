/-
  What a source text is read as.

  `parse_eq_ok_iff`: a program comes from a text exactly when lexemes tile the text and the
  program's statements are read from their words, all of them.
-/
import ArithLang.Proofs.Lexeme
import ArithLang.Proofs.Program

namespace ArithLang

variable {b : BinaryOp → Binding} {mode : Mode} {k : Nat} {sts : List Stmt} {ts rest : List Token}

/-- What is read as a program is followed by an end mark. -/
theorem ReadsBody.frontKind_rest (h : ReadsBody b mode k ts sts rest) :
    frontKind rest = .eof := by
  induction h with
  | single h he => exact he
  | done he => exact he
  | more hne h hs ih => exact ih

/-- What is read as a program is a front part of the tokens. -/
theorem ReadsBody.exists_used (h : ReadsBody b mode k ts sts rest) : ∃ used, ts = used ++ rest := by
  induction h with
  | single h he =>
      obtain ⟨used, hused, -⟩ := h.change_rest
      exact ⟨used, hused⟩
  | done he => exact ⟨[], rfl⟩
  | more hne h hs ih =>
      obtain ⟨used, rfl, -⟩ := h.change_rest
      obtain ⟨used', rfl⟩ := ih
      exact ⟨used ++ used', by simp⟩

/-- Without an end mark among the tokens nothing is left over. -/
theorem ReadsBody.rest_eq_nil (h : ReadsBody b mode k ts sts rest)
    (hts : ∀ t ∈ ts, t.kind ≠ .eof) : rest = [] := by
  obtain ⟨used, rfl⟩ := h.exists_used
  cases hr : rest with
  | nil => rfl
  | cons t rest' =>
      have he := h.frontKind_rest
      rw [hr] at he
      exact absurd he (hts t (by simp [hr]))

theorem Tiles.kind_ne_eof {ls : List Lexeme} (h : Tiles ls) (offset : Nat) :
    ∀ t ∈ words offset ls, t.kind ≠ .eof :=
  fun _ ht => (h.lexical ht).kind_ne_eof

section
variable {source : String} {o : Options}

theorem parse_of_tokenize (h : tokenize source = .ok ts) : parse source o = parseTokens ts o := by
  unfold parse read
  rw [h]
  rfl

theorem parse_of_tokenize_error {e : ParseError} (h : tokenize source = .error e) :
    parse source o = .error e := by
  unfold parse read
  rw [h]

/-- A program comes from a text when its statements are read from all the words of the text. -/
theorem parse_eq_ok_iff {p : Program} :
    parse source o = .ok p ↔
      ∃ ls, Tiles ls ∧ source.toList = joined ls ∧
        ReadsBody (BinaryOp.binding o.powers) o.mode o.maxDepth (words 0 ls) p.body [] ∧
          p.span = ⟨0, source.utf8ByteSize⟩ := by
  constructor
  · intro h
    cases ht : tokenize source with
    | error e =>
        rw [parse_of_tokenize_error ht] at h
        cases h
    | ok ts =>
        rw [parse_of_tokenize ht] at h
        obtain ⟨ls, htiles, hsource, rfl⟩ := tokenize_eq_ok_iff.1 ht
        obtain ⟨rest, hbody, hspan⟩ := (parseTokens_eq_ok_iff rfl).1 h
        obtain rfl := hbody.rest_eq_nil (htiles.kind_ne_eof 0)
        exact ⟨ls, htiles, hsource, hbody, hspan⟩
  · intro h'
    obtain ⟨ls, htiles, hsource, hbody, hspan⟩ := h'
    rw [parse_of_tokenize (tokenize_eq_ok_iff.2 ⟨ls, htiles, hsource, rfl⟩)]
    exact (parseTokens_eq_ok_iff rfl).2 ⟨[], hbody, hspan⟩

end

end ArithLang
