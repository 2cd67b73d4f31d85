/-
  Which statements can be read back from their printed form.

  Printing writes down the texts and the operators of a tree and adds no parentheses. What is read
  from the result is canonical, needs no more levels than are allowed, and has the texts of words,
  so only a statement with these properties can be read back (`parse_render_eq_iff`). The properties
  are stated on the tree alone, the one about texts by ranges of characters (`Stmt.WellWritten`).
-/
import ArithLang.Proofs.Acceptance
import ArithLang.Proofs.Printing

namespace ArithLang

/-! ## Texts -/

/-- A text of ASCII digits, at least one. -/
def IsNumeral (text : String) : Prop := text ≠ "" ∧ ∀ c ∈ text.toList, '0' ≤ c ∧ c ≤ '9'

/-- A text of small ASCII letters and underscores, at least one. -/
def IsName (text : String) : Prop := text ≠ "" ∧ ∀ c ∈ text.toList, 'a' ≤ c ∧ c ≤ 'z' ∨ c = '_'

theorem isDigit_iff {c : Char} : c.isDigit ↔ '0' ≤ c ∧ c ≤ '9' := by
  unfold Char.isDigit
  rw [Bool.and_eq_true, decide_eq_true_eq, decide_eq_true_eq]
  rfl

theorem isNameChar_iff {c : Char} : isNameChar c ↔ 'a' ≤ c ∧ c ≤ 'z' ∨ c = '_' := by
  unfold isNameChar Char.isLower
  rw [Bool.or_eq_true, Bool.and_eq_true, decide_eq_true_eq, decide_eq_true_eq, decide_eq_true_eq]
  rfl

theorem valid_number_iff_isNumeral {text : String} :
    (Lexeme.mk (some .number) text.toList).Valid ↔ IsNumeral text := by
  simp only [Lexeme.valid_number_iff, isDigit_iff, IsNumeral, ne_eq, String.toList_eq_nil_iff]

theorem valid_identifier_iff_isName {text : String} :
    (Lexeme.mk (some .identifier) text.toList).Valid ↔ IsName text := by
  simp only [Lexeme.valid_identifier_iff, isNameChar_iff, IsName, ne_eq, String.toList_eq_nil_iff]

/-! ## Well-written trees -/

namespace Expr

/-- Numbers are written in digits, and identifiers in letters and underscores. -/
def WellWritten : Expr → Prop
  | number text _ => IsNumeral text
  | identifier text _ => IsName text
  | unary _ x _ => x.WellWritten
  | binary _ l r _ => l.WellWritten ∧ r.WellWritten
  | group x _ => x.WellWritten

theorem lexical_iff_wellWritten (e : Expr) : e.Lexical ↔ e.WellWritten := by
  induction e with
  | number => exact valid_number_iff_isNumeral
  | identifier => exact valid_identifier_iff_isName
  | unary op x s ih => exact ih
  | binary op l r s ihl ihr => exact and_congr ihl ihr
  | group x s ih => exact ih

theorem wellWritten_mapSpan (f : Span → Span) (e : Expr) :
    (e.mapSpan f).WellWritten ↔ e.WellWritten := by
  induction e with
  | number | identifier => exact Iff.rfl
  | unary op x s ih => exact ih
  | binary op l r s ihl ihr => exact and_congr ihl ihr
  | group x s ih => exact ih

end Expr

namespace Stmt

/-- As `Expr.WellWritten`, with the name that is given a value. -/
def WellWritten : Stmt → Prop
  | assignment target _ value _ => IsName target ∧ value.WellWritten
  | expression e _ => e.WellWritten

theorem lexical_iff_wellWritten (st : Stmt) : st.Lexical ↔ st.WellWritten := by
  cases st with
  | assignment target ts value s =>
      exact and_congr valid_identifier_iff_isName value.lexical_iff_wellWritten
  | expression e s => exact e.lexical_iff_wellWritten

theorem wellWritten_mapSpan (f : Span → Span) (st : Stmt) :
    (st.mapSpan f).WellWritten ↔ st.WellWritten := by
  cases st with
  | assignment target ts value s => exact and_congr Iff.rfl (value.wellWritten_mapSpan f)
  | expression e s => exact e.wellWritten_mapSpan f

/-- Spans have no part in how a statement is written. -/
theorem wellWritten_iff_of_bare {st st' : Stmt} (h : st.bare = st'.bare) :
    st.WellWritten ↔ st'.WellWritten := by
  rw [← wellWritten_mapSpan (fun _ => .point 0) st, ← wellWritten_mapSpan (fun _ => .point 0) st']
  exact iff_of_eq (congrArg WellWritten h)

end Stmt

/-! ## Reading back -/

/-- A statement can be read back from its printed form, but for the spans, exactly when its texts
    are those of numbers and names, no operand lacks parentheses, and it needs no more levels of
    nesting than are allowed. -/
theorem parse_render_eq_iff (st : Stmt) (powers : Associativity) (limit : Nat) :
    (∃ p st', parse st.render ⟨.single, limit, powers⟩ = .ok p ∧ p.body = [st'] ∧
      st'.bare = st.bare) ↔
    st.WellWritten ∧ st.expr.KeepsPrecedence powers ∧ st.expr.need ≤ limit := by
  constructor
  · intro h
    obtain ⟨p, st', hp, hbody, hbare⟩ := h
    obtain ⟨ls, htiles, -, hread, -⟩ := parse_eq_ok_iff.1 hp
    obtain ⟨st'', hst'', -, hspells, hc, hk⟩ :=
      (readsBody_single_iff (htiles.kind_ne_eof 0)).1 hread
    obtain rfl : st' = st'' := (List.cons.inj (hbody.symm.trans hst'')).1
    have hwritten : st'.WellWritten :=
      st'.lexical_iff_wellWritten.1 (hspells.lexical fun t ht => htiles.lexical ht)
    have hexpr : st'.expr.bare = st.expr.bare := Stmt.bare_expr_eq hbare
    refine ⟨(Stmt.wellWritten_iff_of_bare hbare).1 hwritten, ?_, ?_⟩
    · rw [← Expr.canonical_binding_iff]
      exact (Expr.canonical_iff_of_bare hexpr).1 hc
    · rwa [← Expr.need_eq_of_bare hexpr]
  · intro h
    obtain ⟨hwritten, hprecedence, hk⟩ := h
    have hlexical : st.Lexical := st.lexical_iff_wellWritten.2 hwritten
    have hc : st.expr.Canonical (BinaryOp.binding powers) :=
      st.expr.canonical_binding_iff.2 hprecedence
    obtain ⟨st', hbare, hp⟩ :=
      hlexical.exists_parse_render (o := ⟨.single, limit, powers⟩) hc hk
    exact ⟨_, st', hp, rfl, hbare⟩

end ArithLang
