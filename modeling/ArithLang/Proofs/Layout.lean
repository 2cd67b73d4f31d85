/-
  Where the tokens stood has no part in what is read.

  Spans may be changed by any map that keeps `Span.cover`. What is read from the tokens changed
  so is what was read from the tokens before, with its spans changed alike (`ReadsBody.map`),
  and the other way round (`ReadsBody.of_map`). A fault that is met there is the same and is met
  at the same token (`FailsBody.map`). Tokens that differ in nothing but their spans are
  therefore read as statements that differ in nothing but theirs (`ReadsBody.of_bare`).
-/
import ArithLang.Proofs.Program

namespace ArithLang

/-- The token without its span. -/
def Token.bare (t : Token) : Token := t.mapSpan fun _ => .point 0

theorem Token.bare_eq_iff {t t' : Token} :
    t.bare = t'.bare ↔ t.kind = t'.kind ∧ t.text = t'.text := by
  obtain ⟨kind, text, span⟩ := t
  obtain ⟨kind', text', span'⟩ := t'
  simp [bare, mapSpan]

variable {b : BinaryOp → Binding} {k : Nat} {f : Span → Span} {ts rest : List Token}

/-! ## What does not depend on spans -/

@[simp] theorem frontKind_mapSpan (f : Span → Span) (ts : List Token) :
    frontKind (ts.map (Token.mapSpan f)) = frontKind ts := by
  cases ts <;> rfl

theorem stops_mapSpan {floor : Level} :
    Stops b floor (ts.map (Token.mapSpan f)) ↔ Stops b floor ts := by
  unfold Stops
  rw [frontKind_mapSpan]

theorem assigns_mapSpan : Assigns (ts.map (Token.mapSpan f)) ↔ Assigns ts := by
  unfold Assigns
  rw [← List.map_tail, frontKind_mapSpan, frontKind_mapSpan]

/-- The task with `f` applied to every span of what has been read already. -/
def Task.mapSpan (f : Span → Span) : Task → Task
  | .step .start => .step .start
  | .step (.behind left) => .step (.behind (left.mapSpan f))
  | .whole .start => .whole .start
  | .whole (.behind left) => .whole (.behind (left.mapSpan f))

/-! ## Expressions -/

section
variable (hf : ∀ a b : Span, f (.cover a b) = .cover (f a) (f b))

include hf

theorem Reads.map {floor : Level} {task : Task} {e : Expr} (h : Reads b k floor task ts e rest) :
    Reads b k floor (task.mapSpan f) (ts.map (Token.mapSpan f)) (e.mapSpan f)
      (rest.map (Token.mapSpan f)) := by
  induction h with
  | literal he => exact .literal (by rw [Expr.literal?_mapSpan, he]; rfl)
  | @sign _ _ _ t _ _ _ ht _ ih =>
      rw [Expr.mapSpan, hf, ← Expr.span_mapSpan f]
      exact .sign (t := t.mapSpan f) ht ih
  | @group _ _ o c _ _ _ ho _ hc ih =>
      rw [Expr.mapSpan, hf]
      exact .group (o := o.mapSpan f) (c := c.mapSpan f) ho ih hc
  | @join _ _ _ t _ _ _ _ ht hl _ ih =>
      rw [Expr.mapSpan, hf, ← Expr.span_mapSpan f, ← Expr.span_mapSpan f]
      exact .join (t := t.mapSpan f) ht hl ih
  | stop h => exact .stop (stops_mapSpan.2 h)
  | @go _ _ phase _ _ _ _ _ _ _ ihs ih => cases phase <;> exact .go ihs ih

theorem Fails.map {floor : Level} {task : Task} {fault : Fault}
    (h : Fails b k floor task ts fault rest) :
    Fails b k floor (task.mapSpan f) (ts.map (Token.mapSpan f)) fault
      (rest.map (Token.mapSpan f)) := by
  induction h with
  | noRoom => exact .noRoom
  | noFold h => exact .noFold (mt stops_mapSpan.1 h)
  | noStart h => exact .noStart (by rwa [frontKind_mapSpan])
  | @sign _ _ _ t _ _ _ ht _ ih => exact .sign (t := t.mapSpan f) ht ih
  | @group _ _ o _ _ _ ho _ ih => exact .group (o := o.mapSpan f) ho ih
  | @unclosed _ _ o _ _ _ ho hx hc =>
      exact .unclosed (o := o.mapSpan f) ho (hx.map hf) (by rwa [frontKind_mapSpan])
  | @operand _ _ _ t _ _ _ _ ht hl _ ih => exact .operand (t := t.mapSpan f) ht hl ih
  | @first _ _ phase _ _ _ _ ih => cases phase <;> exact .first ih
  | @later _ _ phase _ _ _ _ _ hs _ ih => cases phase <;> exact .later (hs.map hf) ih

/-! ## Statements and programs -/

theorem ReadsStmt.map {st : Stmt} (h : ReadsStmt b k ts st rest) :
    ReadsStmt b k (ts.map (Token.mapSpan f)) (st.mapSpan f) (rest.map (Token.mapSpan f)) := by
  cases h with
  | @assignment name eq _ _ _ hn he h =>
      rw [Stmt.mapSpan, hf, ← Expr.span_mapSpan f]
      exact @ReadsStmt.assignment _ _ (name.mapSpan f) (eq.mapSpan f) _ _ _ hn he (h.map hf)
  | expression hn h =>
      rw [Stmt.mapSpan, ← Expr.span_mapSpan f]
      exact .expression (mt assigns_mapSpan.1 hn) (h.map hf)

theorem FailsStmt.map {fault : Fault} (h : FailsStmt b k ts fault rest) :
    FailsStmt b k (ts.map (Token.mapSpan f)) fault (rest.map (Token.mapSpan f)) := by
  cases h with
  | @assignment name eq _ _ _ hn he h =>
      exact @FailsStmt.assignment _ _ (name.mapSpan f) (eq.mapSpan f) _ _ _ hn he (h.map hf)
  | expression hn h => exact .expression (mt assigns_mapSpan.1 hn) (h.map hf)

theorem ReadsBody.map {mode : Mode} {sts : List Stmt} (h : ReadsBody b mode k ts sts rest) :
    ReadsBody b mode k (ts.map (Token.mapSpan f)) (sts.map (Stmt.mapSpan f))
      (rest.map (Token.mapSpan f)) := by
  induction h with
  | single h he => exact .single (h.map hf) (by rwa [frontKind_mapSpan])
  | done he => exact .done (by rwa [frontKind_mapSpan])
  | more hne h hs ih => exact .more (by rwa [frontKind_mapSpan]) (h.map hf) ih

theorem FailsBody.map {mode : Mode} {fault : Fault} (h : FailsBody b mode k ts fault rest) :
    FailsBody b mode k (ts.map (Token.mapSpan f)) fault (rest.map (Token.mapSpan f)) := by
  induction h with
  | single h => exact .single (h.map hf)
  | leftover h hne => exact .leftover (h.map hf) (by rwa [frontKind_mapSpan])
  | first hne h => exact .first (by rwa [frontKind_mapSpan]) (h.map hf)
  | later hne h hs ih => exact .later (by rwa [frontKind_mapSpan]) (h.map hf) ih

/-! ## Spans taken back -/

variable (hb : ∀ op, (b op).level < .unary)

include hb

theorem ReadsStmt.of_map {st : Stmt} {rest' : List Token}
    (h : ReadsStmt b k (ts.map (Token.mapSpan f)) st rest') :
    ∃ st' rest, ReadsStmt b k ts st' rest ∧ st'.mapSpan f = st ∧
      rest.map (Token.mapSpan f) = rest' := by
  obtain ⟨used', hts, hst, hc, hk, hs, ha⟩ := (readsStmt_iff hb).1 h
  obtain ⟨used, rest, rfl, rfl, rfl⟩ := List.map_eq_append_iff.1 hts
  obtain ⟨st', hst', rfl⟩ := hst.of_map hf
  rw [Stmt.expr_mapSpan] at hc hk
  rw [Expr.canonical_mapSpan] at hc
  rw [Expr.need_mapSpan] at hk
  refine ⟨st', rest, (readsStmt_iff hb).2 ⟨used, rfl, hst', hc, hk, stops_mapSpan.1 hs, ?_⟩,
    rfl, rfl⟩
  exact fun h => assigns_mapSpan.1 (ha (assigns_mapSpan.2 h))

theorem ReadsBody.of_map {mode : Mode} {sts : List Stmt} {rest' : List Token}
    (h : ReadsBody b mode k (ts.map (Token.mapSpan f)) sts rest') :
    ∃ sts' rest, ReadsBody b mode k ts sts' rest ∧ sts'.map (Stmt.mapSpan f) = sts ∧
      rest.map (Token.mapSpan f) = rest' := by
  generalize hus : ts.map (Token.mapSpan f) = us at h
  induction h generalizing ts with
  | single h he =>
      subst hus
      obtain ⟨st, rest, h', rfl, rfl⟩ := h.of_map hf hb
      rw [frontKind_mapSpan] at he
      exact ⟨[st], rest, .single h' he, rfl, rfl⟩
  | done he =>
      subst hus
      rw [frontKind_mapSpan] at he
      exact ⟨[], ts, .done he, rfl, rfl⟩
  | more hne h hs ih =>
      subst hus
      rw [frontKind_mapSpan] at hne
      obtain ⟨st, mid, h', rfl, hmid⟩ := h.of_map hf hb
      obtain ⟨sts, rest, hs', rfl, rfl⟩ := ih hmid
      exact ⟨st :: sts, rest, .more hne h' hs', rfl, rfl⟩

end

/-- Tokens that are the same but for their spans are read as statements that are. -/
theorem ReadsBody.of_bare (hb : ∀ op, (b op).level < .unary) {mode : Mode} {sts : List Stmt}
    {ts' : List Token} (h : ReadsBody b mode k ts sts rest)
    (hts : ts'.map Token.bare = ts.map Token.bare) :
    ∃ sts' rest', ReadsBody b mode k ts' sts' rest' ∧ sts'.map Stmt.bare = sts.map Stmt.bare ∧
      rest'.map Token.bare = rest.map Token.bare := by
  have hbare := h.map (f := fun _ => .point 0) fun _ _ => rfl
  have hbare' : ReadsBody b mode k (ts'.map Token.bare) (sts.map Stmt.bare)
      (rest.map Token.bare) := hts ▸ hbare
  exact hbare'.of_map (f := fun _ => .point 0) (fun _ _ => rfl) hb

end ArithLang
