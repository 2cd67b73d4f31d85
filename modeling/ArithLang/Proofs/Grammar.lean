/-
  Which tokens spell a tree, and which trees the bindings of the operators allow.

  `Spells e ts`: the tokens `ts` are those of `e` in the order of the text, and the spans of
  `e` are theirs. `yield` says the same without spans, as a function; a tree with the right
  yield can be given the spans of the tokens (`exists_spells_of_yield`).

  `Canonical b e`: no operator of `e` lacks parentheses when operators bind as `b` says.
  `need e`: how many levels of nesting it takes to read `e`. Neither depends on spans.
-/
import ArithLang.Level
import ArithLang.Stmt

namespace ArithLang

/-! ## Tokens -/

/-- What a token contributes to a tree: its kind, and the text of a number or an identifier. -/
def Token.shape (t : Token) : Kind × Option String :=
  (t.kind, if t.kind = .number ∨ t.kind = .identifier then some t.text else none)

theorem Token.kind_of_shape {t : Token} {k : Kind} {text? : Option String}
    (h : t.shape = (k, text?)) : t.kind = k :=
  congrArg Prod.fst h

theorem Token.text_of_shape {t : Token} {k : Kind} {text : String}
    (h : t.shape = (k, some text)) : t.text = text := by
  have htext : (if t.kind = .number ∨ t.kind = .identifier then some t.text else none) =
      some text :=
    congrArg Prod.snd h
  split at htext
  · exact Option.some.inj htext
  · cases htext

/-- The expression that a number or an identifier makes up on its own. -/
def Token.literal? (t : Token) : Option Expr :=
  match t.kind with
  | .number => some (.number t.text t.span)
  | .identifier => some (.identifier t.text t.span)
  | _ => none

/-- The token with `f` applied to its span. -/
def Token.mapSpan (f : Span → Span) (t : Token) : Token := { t with span := f t.span }

/-- The kind of the first token, `eof` when there is none. -/
def frontKind (ts : List Token) : Kind := (ts.head?.map Token.kind).getD .eof

@[simp] theorem frontKind_nil : frontKind [] = .eof := rfl

@[simp] theorem frontKind_cons (t : Token) (ts : List Token) : frontKind (t :: ts) = t.kind := rfl

theorem frontKind_append {ts : List Token} (h : ts ≠ []) (rest : List Token) :
    frontKind (ts ++ rest) = frontKind ts := by
  obtain ⟨t, ts, rfl⟩ := List.exists_cons_of_ne_nil h
  rfl

theorem frontKind_append_congr {pre ts ts' : List Token} (h : frontKind ts = frontKind ts') :
    frontKind (pre ++ ts) = frontKind (pre ++ ts') := by
  cases pre with
  | nil => exact h
  | cons t pre => rfl

namespace Expr

/-! ## Spelling -/

/-- The tokens of an expression in the order of the text, the spans taken from them. -/
inductive Spells : Expr → List Token → Prop where
  | literal {t : Token} {e : Expr} (he : t.literal? = some e) : Spells e [t]
  | unary {op : UnaryOp} {t : Token} {x : Expr} {ts : List Token}
      (ht : t.kind = op.kind) (hx : Spells x ts) :
      Spells (.unary op x (.cover t.span x.span)) (t :: ts)
  | binary {op : BinaryOp} {t : Token} {l r : Expr} {ls rs : List Token}
      (hl : Spells l ls) (ht : t.kind = op.kind) (hr : Spells r rs) :
      Spells (.binary op l r (.cover l.span r.span)) (ls ++ t :: rs)
  | group {o c : Token} {x : Expr} {ts : List Token}
      (ho : o.kind = .openParen) (hx : Spells x ts) (hc : c.kind = .closeParen) :
      Spells (.group x (.cover o.span c.span)) (o :: (ts ++ [c]))

/-- The shapes of the tokens of an expression, in the order of the text. -/
def yield : Expr → List (Kind × Option String)
  | number text _ => [(.number, some text)]
  | identifier text _ => [(.identifier, some text)]
  | unary op x _ => (op.kind, none) :: x.yield
  | binary op l r _ => l.yield ++ (op.kind, none) :: r.yield
  | group x _ => (.openParen, none) :: (x.yield ++ [(.closeParen, none)])

/-- The expression without its spans. -/
def bare (e : Expr) : Expr := e.mapSpan fun _ => .point 0

/-! ## Precedence -/

section
variable (b : BinaryOp → Binding)

/-- An operator on top binds at least as tightly as `floor`. -/
def AtFloor (floor : Level) : Expr → Prop
  | binary op _ _ _ => floor ≤ (b op).level
  | _ => True

/-- An operator of the given level behind the expression takes all of it as its left operand. -/
def EndsBefore (level : Level) : Expr → Prop
  | binary op _ _ _ => level < (b op).operandFloor
  | _ => True

/-- No operand lacks parentheses: a right operand, or one behind a sign, stays at the floor
    that it is read at, and a left operand ends before its operator. -/
def Canonical : Expr → Prop
  | number _ _ => True
  | identifier _ _ => True
  | unary _ x _ => x.Canonical ∧ x.AtFloor b .unary
  | binary op l r _ =>
      l.Canonical ∧ l.EndsBefore b (b op).level ∧ r.Canonical ∧ r.AtFloor b (b op).operandFloor
  | group x _ => x.Canonical

end

/-! ## Nesting -/

/-- The number of operators on the way down the left operands. -/
def spine : Expr → Nat
  | binary _ l _ _ => l.spine + 1
  | _ => 0

/-- The levels of nesting that reading the expression takes. Operators on the way down the
    left operands are read one after the other, and each of them stays open. -/
def need : Expr → Nat
  | number _ _ => 1
  | identifier _ _ => 1
  | unary _ x _ => 1 + x.need
  | binary _ l r _ => max l.need (1 + (l.spine + 1) + r.need)
  | group x _ => 1 + x.need

/-! ## What the tokens of an expression look like -/

theorem literal?_eq_some_iff {t : Token} {e : Expr} :
    t.literal? = some e ↔
      t.kind = .number ∧ e = .number t.text t.span ∨
        t.kind = .identifier ∧ e = .identifier t.text t.span := by
  obtain ⟨kind, text, span⟩ := t
  cases kind <;> simp [Token.literal?, eq_comm]

theorem Spells.of_unary {op : UnaryOp} {x : Expr} {s : Span} {ts : List Token}
    (h : (Expr.unary op x s).Spells ts) :
    ∃ t us, ts = t :: us ∧ t.kind = op.kind ∧ x.Spells us ∧ s = .cover t.span x.span := by
  cases h with
  | literal he => rcases literal?_eq_some_iff.1 he with ⟨-, he⟩ | ⟨-, he⟩ <;> cases he
  | unary ht hx => exact ⟨_, _, rfl, ht, hx, rfl⟩

theorem Spells.of_binary {op : BinaryOp} {l r : Expr} {s : Span} {ts : List Token}
    (h : (Expr.binary op l r s).Spells ts) :
    ∃ ls t rs, ts = ls ++ t :: rs ∧ l.Spells ls ∧ t.kind = op.kind ∧ r.Spells rs ∧
      s = .cover l.span r.span := by
  cases h with
  | literal he => rcases literal?_eq_some_iff.1 he with ⟨-, he⟩ | ⟨-, he⟩ <;> cases he
  | binary hl ht hr => exact ⟨_, _, _, rfl, hl, ht, hr, rfl⟩

theorem Spells.of_group {x : Expr} {s : Span} {ts : List Token}
    (h : (Expr.group x s).Spells ts) :
    ∃ o us c, ts = o :: (us ++ [c]) ∧ o.kind = .openParen ∧ x.Spells us ∧
      c.kind = .closeParen ∧ s = .cover o.span c.span := by
  cases h with
  | literal he => rcases literal?_eq_some_iff.1 he with ⟨-, he⟩ | ⟨-, he⟩ <;> cases he
  | group ho hx hc => exact ⟨_, _, _, rfl, ho, hx, hc, rfl⟩

theorem Spells.ne_nil {e : Expr} {ts : List Token} (h : e.Spells ts) : ts ≠ [] := by
  cases h <;> simp

/-- The span of an expression starts where its first token does. -/
theorem Spells.start_span {e : Expr} {ts : List Token} (h : e.Spells ts) :
    ∃ t rest, ts = t :: rest ∧ e.span.start = t.span.start := by
  induction h with
  | @literal t e he =>
      refine ⟨t, [], rfl, ?_⟩
      rcases literal?_eq_some_iff.1 he with ⟨-, rfl⟩ | ⟨-, rfl⟩ <;> rfl
  | unary => exact ⟨_, _, rfl, rfl⟩
  | binary hl ht hr ihl ihr =>
      obtain ⟨t, rest, rfl, hs⟩ := ihl
      exact ⟨t, _, rfl, hs⟩
  | group => exact ⟨_, _, rfl, rfl⟩

/-- The span of an expression stops where its last token does. -/
theorem Spells.stop_span {e : Expr} {ts : List Token} (h : e.Spells ts) :
    ∃ front t, ts = front ++ [t] ∧ e.span.stop = t.span.stop := by
  induction h with
  | @literal t e he =>
      refine ⟨[], t, rfl, ?_⟩
      rcases literal?_eq_some_iff.1 he with ⟨-, rfl⟩ | ⟨-, rfl⟩ <;> rfl
  | @unary op t x ts ht hx ih =>
      obtain ⟨front, last, rfl, hs⟩ := ih
      exact ⟨t :: front, last, rfl, hs⟩
  | @binary op t l r ls rs hl ht hr ihl ihr =>
      obtain ⟨front, last, rfl, hs⟩ := ihr
      exact ⟨ls ++ t :: front, last, by simp, hs⟩
  | @group o c x ts ho hx hc ih => exact ⟨o :: ts, c, rfl, rfl⟩

/-- Neither an end mark nor `=` is ever part of an expression. -/
theorem Spells.kind_ne {e : Expr} {ts : List Token} (h : e.Spells ts) :
    ∀ t ∈ ts, t.kind ≠ .eof ∧ t.kind ≠ .assignment := by
  induction h with
  | literal he =>
      rcases literal?_eq_some_iff.1 he with ⟨hk, -⟩ | ⟨hk, -⟩ <;> simp [hk]
  | @unary op t x ts ht hx ih =>
      have hop : op.kind ≠ .eof ∧ op.kind ≠ .assignment := by cases op <;> decide
      simpa [ht, hop] using ih
  | @binary op t l r ls rs hl ht hr ihl ihr =>
      have hop : op.kind ≠ .eof ∧ op.kind ≠ .assignment := by cases op <;> decide
      intro u hu
      rcases List.mem_append.1 hu with hu | hu
      · exact ihl u hu
      · rcases List.mem_cons.1 hu with rfl | hu
        · rwa [ht]
        · exact ihr u hu
  | group ho hx hc ih =>
      intro u hu
      simp only [List.mem_cons, List.mem_append, List.not_mem_nil, or_false] at hu
      rcases hu with rfl | hu | rfl
      · simp [ho]
      · exact ih u hu
      · simp [hc]

theorem Spells.yield {e : Expr} {ts : List Token} (h : e.Spells ts) :
    e.yield = ts.map Token.shape := by
  induction h with
  | literal he =>
      rcases literal?_eq_some_iff.1 he with ⟨hk, rfl⟩ | ⟨hk, rfl⟩ <;>
        simp [Expr.yield, Token.shape, hk]
  | @unary op t x ts ht hx ih =>
      cases op <;> simp [Expr.yield, Token.shape, ht, ih, UnaryOp.kind]
  | @binary op t l r ls rs hl ht hr ihl ihr =>
      cases op <;> simp [Expr.yield, Token.shape, ht, ihl, ihr, BinaryOp.kind]
  | group ho hx hc ih => simp [Expr.yield, Token.shape, ho, hc, ih]

/-! ## Spans put aside -/

section
variable (f : Span → Span)

@[simp] theorem spine_mapSpan (e : Expr) : (e.mapSpan f).spine = e.spine := by
  induction e <;> simp_all [mapSpan, spine]

@[simp] theorem need_mapSpan (e : Expr) : (e.mapSpan f).need = e.need := by
  induction e <;> simp_all [mapSpan, need]

@[simp] theorem atFloor_mapSpan {b : BinaryOp → Binding} {floor : Level} (e : Expr) :
    (e.mapSpan f).AtFloor b floor ↔ e.AtFloor b floor := by
  cases e <;> simp [mapSpan, AtFloor]

@[simp] theorem endsBefore_mapSpan {b : BinaryOp → Binding} {level : Level} (e : Expr) :
    (e.mapSpan f).EndsBefore b level ↔ e.EndsBefore b level := by
  cases e <;> simp [mapSpan, EndsBefore]

@[simp] theorem canonical_mapSpan {b : BinaryOp → Binding} (e : Expr) :
    (e.mapSpan f).Canonical b ↔ e.Canonical b := by
  induction e <;> simp_all [mapSpan, Canonical]

end

theorem need_eq_of_bare {e e' : Expr} (h : e.bare = e'.bare) : e.need = e'.need := by
  have := congrArg need h
  simpa [bare] using this

theorem canonical_iff_of_bare {b : BinaryOp → Binding} {e e' : Expr} (h : e.bare = e'.bare) :
    e.Canonical b ↔ e'.Canonical b := by
  rw [← canonical_mapSpan (fun _ => .point 0) e, ← canonical_mapSpan (fun _ => .point 0) e']
  exact iff_of_eq (congrArg (Canonical b) h)

theorem atFloor_iff_of_bare {b : BinaryOp → Binding} {floor : Level} {e e' : Expr}
    (h : e.bare = e'.bare) : e.AtFloor b floor ↔ e'.AtFloor b floor := by
  rw [← atFloor_mapSpan (fun _ => .point 0) e, ← atFloor_mapSpan (fun _ => .point 0) e']
  exact iff_of_eq (congrArg (AtFloor b floor) h)

/-- A tree with the right yield can be given the spans of the tokens. -/
theorem exists_spells_of_yield {e : Expr} {ts : List Token} (h : e.yield = ts.map Token.shape) :
    ∃ e' : Expr, e'.Spells ts ∧ e'.bare = e.bare := by
  induction e generalizing ts with
  | number text s =>
      obtain ⟨t, us, rfl, ht, hus⟩ := List.map_eq_cons_iff.1 h.symm
      obtain rfl := List.map_eq_nil_iff.1 hus
      obtain rfl := Token.text_of_shape ht
      exact ⟨_, .literal (literal?_eq_some_iff.2 (.inl ⟨Token.kind_of_shape ht, rfl⟩)), rfl⟩
  | identifier text s =>
      obtain ⟨t, us, rfl, ht, hus⟩ := List.map_eq_cons_iff.1 h.symm
      obtain rfl := List.map_eq_nil_iff.1 hus
      obtain rfl := Token.text_of_shape ht
      exact ⟨_, .literal (literal?_eq_some_iff.2 (.inr ⟨Token.kind_of_shape ht, rfl⟩)), rfl⟩
  | unary op x s ih =>
      obtain ⟨t, us, rfl, ht, hus⟩ := List.map_eq_cons_iff.1 h.symm
      obtain ⟨x', hx', hb⟩ := ih hus.symm
      refine ⟨_, .unary (Token.kind_of_shape ht) hx', ?_⟩
      simpa [bare, mapSpan] using hb
  | binary op l r s ihl ihr =>
      obtain ⟨ls, us, rfl, hl, hus⟩ := List.map_eq_append_iff.1 h.symm
      obtain ⟨t, rs, rfl, ht, hr⟩ := List.map_eq_cons_iff.1 hus
      obtain ⟨l', hl', hbl⟩ := ihl hl.symm
      obtain ⟨r', hr', hbr⟩ := ihr hr.symm
      refine ⟨_, .binary hl' (Token.kind_of_shape ht) hr', ?_⟩
      simpa [bare, mapSpan] using And.intro hbl hbr
  | group x s ih =>
      obtain ⟨o, us, rfl, ho, hus⟩ := List.map_eq_cons_iff.1 h.symm
      obtain ⟨xs, cs, rfl, hx, hcs⟩ := List.map_eq_append_iff.1 hus
      obtain ⟨c, vs, rfl, hc, hvs⟩ := List.map_eq_cons_iff.1 hcs
      obtain rfl := List.map_eq_nil_iff.1 hvs
      obtain ⟨x', hx', hb⟩ := ih hx.symm
      refine ⟨_, .group (Token.kind_of_shape ho) hx' (Token.kind_of_shape hc), ?_⟩
      simpa [bare, mapSpan] using hb

/-! ## Spans changed alike in a tree and in its tokens -/

section
variable {f : Span → Span} (hf : ∀ a b : Span, f (.cover a b) = .cover (f a) (f b))

theorem literal?_mapSpan (t : Token) :
    (t.mapSpan f).literal? = t.literal?.map (Expr.mapSpan f) := by
  obtain ⟨kind, text, span⟩ := t
  cases kind <;> rfl

include hf

theorem Spells.map {e : Expr} {ts : List Token} (h : e.Spells ts) :
    (e.mapSpan f).Spells (ts.map (Token.mapSpan f)) := by
  induction h with
  | literal he => exact .literal (by rw [literal?_mapSpan, he]; rfl)
  | @unary op t x ts ht hx ih =>
      rw [mapSpan, hf, ← span_mapSpan f]
      exact .unary (t := t.mapSpan f) ht ih
  | @binary op t l r ls rs hl ht hr ihl ihr =>
      rw [mapSpan, hf, ← span_mapSpan f, ← span_mapSpan f, List.map_append]
      exact .binary (t := t.mapSpan f) ihl ht ihr
  | @group o c x ts ho hx hc ih =>
      rw [mapSpan, hf, List.map_cons, List.map_append]
      exact .group (o := o.mapSpan f) (c := c.mapSpan f) ho ih hc

/-- The spans of a tree can be taken back where those of its tokens are. -/
theorem Spells.of_map {e : Expr} {ts : List Token} (h : e.Spells (ts.map (Token.mapSpan f))) :
    ∃ e' : Expr, e'.Spells ts ∧ e'.mapSpan f = e := by
  generalize hm : ts.map (Token.mapSpan f) = us at h
  induction h generalizing ts with
  | @literal t e he =>
      obtain ⟨t', us, rfl, rfl, hus⟩ := List.map_eq_cons_iff.1 hm
      obtain rfl := List.map_eq_nil_iff.1 hus
      rw [literal?_mapSpan, Option.map_eq_some_iff] at he
      obtain ⟨e', he', rfl⟩ := he
      exact ⟨e', .literal he', rfl⟩
  | unary ht hx ih =>
      obtain ⟨t', us, rfl, rfl, hus⟩ := List.map_eq_cons_iff.1 hm
      obtain ⟨x', hx', rfl⟩ := ih hus
      refine ⟨_, .unary ht hx', ?_⟩
      rw [mapSpan, hf, span_mapSpan]
      rfl
  | binary hl ht hr ihl ihr =>
      obtain ⟨ls', us, rfl, hls, hus⟩ := List.map_eq_append_iff.1 hm
      obtain ⟨t', rs', rfl, rfl, hrs⟩ := List.map_eq_cons_iff.1 hus
      obtain ⟨l', hl', rfl⟩ := ihl hls
      obtain ⟨r', hr', rfl⟩ := ihr hrs
      refine ⟨_, .binary hl' ht hr', ?_⟩
      rw [mapSpan, hf, span_mapSpan, span_mapSpan]
  | group ho hx hc ih =>
      obtain ⟨o', us, rfl, rfl, hus⟩ := List.map_eq_cons_iff.1 hm
      obtain ⟨xs', cs, rfl, hxs, hcs⟩ := List.map_eq_append_iff.1 hus
      obtain ⟨c', vs, rfl, rfl, hvs⟩ := List.map_eq_cons_iff.1 hcs
      obtain rfl := List.map_eq_nil_iff.1 hvs
      obtain ⟨x', hx', rfl⟩ := ih hxs
      refine ⟨_, .group ho hx' hc, ?_⟩
      rw [mapSpan, hf]
      rfl

end

end Expr

/-! ## Statements -/

namespace Stmt

/-- The tokens of a statement in the order of the text, the spans taken from them. -/
inductive Spells : Stmt → List Token → Prop where
  | assignment {name eq : Token} {v : Expr} {ts : List Token} (hn : name.kind = .identifier)
      (he : eq.kind = .assignment) (hv : v.Spells ts) :
      Spells (.assignment name.text name.span v (.cover name.span v.span)) (name :: eq :: ts)
  | expression {e : Expr} {ts : List Token} (he : e.Spells ts) :
      Spells (.expression e e.span) ts

/-- The shapes of the tokens of a statement, in the order of the text. -/
def yield : Stmt → List (Kind × Option String)
  | assignment target _ value _ => (.identifier, some target) :: (.assignment, none) :: value.yield
  | expression e _ => e.yield

/-- The statement without its spans. -/
def bare (st : Stmt) : Stmt := st.mapSpan fun _ => .point 0

theorem Spells.start_span {st : Stmt} {ts : List Token} (h : st.Spells ts) :
    ∃ t rest, ts = t :: rest ∧ st.span.start = t.span.start := by
  cases h with
  | assignment => exact ⟨_, _, rfl, rfl⟩
  | expression he => exact he.start_span

theorem Spells.stop_span {st : Stmt} {ts : List Token} (h : st.Spells ts) :
    ∃ front t, ts = front ++ [t] ∧ st.span.stop = t.span.stop := by
  cases h with
  | @assignment name eq v ts hn he hv =>
      obtain ⟨front, t, rfl, ht⟩ := hv.stop_span
      exact ⟨name :: eq :: front, t, rfl, ht⟩
  | expression he => exact he.stop_span

theorem Spells.yield {st : Stmt} {ts : List Token} (h : st.Spells ts) :
    st.yield = ts.map Token.shape := by
  cases h with
  | assignment hn he hv => simp [Stmt.yield, Token.shape, hn, he, hv.yield]
  | expression he => exact he.yield

/-- The tokens of a statement end with those of its expression. -/
theorem Spells.expr {st : Stmt} {ts : List Token} (h : st.Spells ts) :
    ∃ front used, ts = front ++ used ∧ st.expr.Spells used := by
  cases h with
  | @assignment name eq v ts hn he hv => exact ⟨[name, eq], ts, rfl, hv⟩
  | expression he => exact ⟨[], _, rfl, he⟩

theorem expr_mapSpan (f : Span → Span) (st : Stmt) : (st.mapSpan f).expr = st.expr.mapSpan f := by
  cases st <;> rfl

theorem bare_expr_eq {st st' : Stmt} (h : st.bare = st'.bare) : st.expr.bare = st'.expr.bare := by
  have hexpr := congrArg Stmt.expr h
  rwa [bare, expr_mapSpan, bare, expr_mapSpan] at hexpr

/-- A statement with the right yield can be given the spans of the tokens. -/
theorem exists_spells_of_yield {st : Stmt} {ts : List Token} (h : st.yield = ts.map Token.shape) :
    ∃ st' : Stmt, st'.Spells ts ∧ st'.bare = st.bare := by
  cases st with
  | assignment target tspan v s =>
      obtain ⟨name, us, rfl, hn, hus⟩ := List.map_eq_cons_iff.1 h.symm
      obtain ⟨eq, vs, rfl, he, hvs⟩ := List.map_eq_cons_iff.1 hus
      obtain ⟨v', hv', hb⟩ := Expr.exists_spells_of_yield hvs.symm
      obtain rfl := Token.text_of_shape hn
      exact ⟨_, .assignment (Token.kind_of_shape hn) (Token.kind_of_shape he) hv',
        congrArg (assignment name.text _ · _) hb⟩
  | expression e s =>
      obtain ⟨e', he', hb⟩ := Expr.exists_spells_of_yield h
      exact ⟨_, .expression he', congrArg (expression · _) hb⟩

section
variable {f : Span → Span} (hf : ∀ a b : Span, f (.cover a b) = .cover (f a) (f b))

include hf

theorem Spells.map {st : Stmt} {ts : List Token} (h : st.Spells ts) :
    (st.mapSpan f).Spells (ts.map (Token.mapSpan f)) := by
  cases h with
  | @assignment name eq v ts hn he hv =>
      rw [mapSpan, hf, ← Expr.span_mapSpan f]
      exact @Spells.assignment (name.mapSpan f) (eq.mapSpan f) _ _ hn he (hv.map hf)
  | @expression e ts he =>
      rw [mapSpan, ← Expr.span_mapSpan f]
      exact .expression (he.map hf)

/-- The spans of a statement can be taken back where those of its tokens are. -/
theorem Spells.of_map {st : Stmt} {ts : List Token} (h : st.Spells (ts.map (Token.mapSpan f))) :
    ∃ st' : Stmt, st'.Spells ts ∧ st'.mapSpan f = st := by
  generalize hm : ts.map (Token.mapSpan f) = us at h
  cases h with
  | assignment hn he hv =>
      obtain ⟨name, us', rfl, rfl, hus⟩ := List.map_eq_cons_iff.1 hm
      obtain ⟨eq, vs, rfl, rfl, rfl⟩ := List.map_eq_cons_iff.1 hus
      obtain ⟨v', hv', rfl⟩ := hv.of_map hf
      refine ⟨_, .assignment hn he hv', ?_⟩
      rw [mapSpan, hf, Expr.span_mapSpan]
      rfl
  | expression he =>
      subst hm
      obtain ⟨e', he', rfl⟩ := he.of_map hf
      refine ⟨_, .expression he', ?_⟩
      rw [mapSpan, Expr.span_mapSpan]

end

end Stmt

end ArithLang
