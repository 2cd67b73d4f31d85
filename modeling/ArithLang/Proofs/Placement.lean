/-
  Where the nodes of a program stand in its text.

  The words of a text come in a `Row`: each is the text under its span, and only gaps stand
  between neighbours. Any words of a row next to each other are a row again, so the tokens of a
  statement are one, and those of a node of its expression too (`Expr.Spells.follow`). A node
  starts with its first token and stops with its last one, and what its sign has around it is
  read off the row (`Row.signBefore`, `Row.signBetween`, `Row.signBehind`).

  `parse_placed`: statements come one after the other, and every node is `Placed`.
-/
import ArithLang.Proofs.Tiling
import Mathlib.Data.List.Chain

namespace ArithLang

/-! ## Places in a text -/

theorem Span.le_of_slice? {s : Span} {source text : String} (h : s.slice? source = some text) :
    s.start ≤ s.stop := by
  obtain ⟨-, -, -, -, hstop⟩ := slice?_eq_some_iff.1 h
  exact Nat.le.intro hstop

theorem Span.stop_le_of_slice? {s : Span} {source text : String}
    (h : s.slice? source = some text) : s.stop ≤ source.utf8ByteSize := by
  obtain ⟨before, after, hsource, hstart, hstop⟩ := slice?_eq_some_iff.1 h
  have hsize : source.utf8ByteSize =
      byteLength before + (byteLength text.toList + byteLength after) := by
    rw [← byteLength_toList, hsource, byteLength_append, byteLength_append]
  rw [byteLength_toList] at hsize
  omega

/-- The text under the span only separates words. -/
def Span.IsGap (source : String) (s : Span) : Prop :=
  ∃ text, s.slice? source = some text ∧ Gap text.toList

theorem Span.IsGap.le {source : String} {start stop : Nat} (h : IsGap source ⟨start, stop⟩) :
    start ≤ stop := by
  obtain ⟨text, htext, -⟩ := h
  exact le_of_slice? htext

/-- The sign stands at `start`, and only a gap comes between it and `next`. -/
def SignBefore (source sign : String) (start next : Nat) : Prop :=
  ∃ stop, Span.slice? ⟨start, stop⟩ source = some sign ∧ Span.IsGap source ⟨stop, next⟩

/-- The sign ends at `stop`, and only a gap comes between `last` and it. -/
def SignBehind (source sign : String) (last stop : Nat) : Prop :=
  ∃ start, Span.IsGap source ⟨last, start⟩ ∧ Span.slice? ⟨start, stop⟩ source = some sign

/-- From `last` to `next` there is the sign, and nothing but gaps around it. -/
def SignBetween (source sign : String) (last next : Nat) : Prop :=
  ∃ start stop, Span.IsGap source ⟨last, start⟩ ∧
    Span.slice? ⟨start, stop⟩ source = some sign ∧ Span.IsGap source ⟨stop, next⟩

/-- The span of the node runs over its parts and its sign, and nothing else but gaps: from its
    left operand to its right one, from its sign to its operand, from one parenthesis to the
    other. -/
def Expr.Placed (source : String) : Expr → Prop
  | number text s => s.slice? source = some text
  | identifier text s => s.slice? source = some text
  | unary op x s => SignBefore source op.symbol s.start x.span.start ∧ s.stop = x.span.stop
  | binary op l r s =>
      s.start = l.span.start ∧ s.stop = r.span.stop ∧
        SignBetween source op.symbol l.span.stop r.span.start
  | group x s =>
      SignBefore source "(" s.start x.span.start ∧ SignBehind source ")" x.span.stop s.stop ∧
        s.start < x.span.start ∧ x.span.stop < s.stop

/-- The span of an assignment runs from its target to its value, with `=` in between, and that
    of another statement is the one of its expression. -/
def Stmt.Placed (source : String) : Stmt → Prop
  | assignment target ts v s =>
      s.start = ts.start ∧ s.stop = v.span.stop ∧ ts.slice? source = some target ∧
        SignBetween source "=" ts.stop v.span.start
  | expression e s => s = e.span

/-! ## Rows of words -/

/-- Words of a text, each next to the one in front of it. -/
structure Row (source : String) (words : List Token) : Prop where
  lexical : ∀ t ∈ words, t.Lexical
  text : ∀ t ∈ words, t.span.slice? source = some t.text
  nonempty : ∀ t ∈ words, t.span.start < t.span.stop
  ordered : words.Pairwise fun t u => t.span.stop ≤ u.span.start
  gaps : words.IsChain fun t u => Span.IsGap source ⟨t.span.stop, u.span.start⟩

/-- What holds of all the stretches that words leave free holds of those between neighbours. -/
theorem isChain_of_gapSpans {P : Span → Prop} {start stop : Nat} {ts : List Token}
    (h : ∀ s ∈ gapSpans start stop ts, P s) :
    ts.IsChain fun t u => P ⟨t.span.stop, u.span.start⟩ := by
  induction ts generalizing start with
  | nil => exact .nil
  | cons t us ih =>
      have hrest := (List.forall_mem_cons.1 h).2
      cases us with
      | nil => exact .singleton t
      | cons u vs => exact .cons_cons (hrest _ (by simp [gapSpans])) (ih hrest)

theorem TileFrom.row {source : String} {start : Nat} {ts : List Token}
    (h : TileFrom source start ts) : Row source ts where
  lexical := h.lexical
  text := h.text
  nonempty := h.nonempty
  ordered := h.ordered
  gaps := isChain_of_gapSpans h.gaps

namespace Row

variable {source sign : String} {ts xs ys : List Token} {t u : Token} {x y : Expr}

theorem of_append_left (h : Row source (xs ++ ys)) : Row source xs where
  lexical := fun t ht => h.lexical t (by simp [ht])
  text := fun t ht => h.text t (by simp [ht])
  nonempty := fun t ht => h.nonempty t (by simp [ht])
  ordered := (List.pairwise_append.1 h.ordered).1
  gaps := (List.isChain_append.1 h.gaps).1

theorem of_append_right (h : Row source (xs ++ ys)) : Row source ys where
  lexical := fun t ht => h.lexical t (by simp [ht])
  text := fun t ht => h.text t (by simp [ht])
  nonempty := fun t ht => h.nonempty t (by simp [ht])
  ordered := (List.pairwise_append.1 h.ordered).2.1
  gaps := (List.isChain_append.1 h.gaps).2.1

theorem slice_of_fixedText? (h : Row source ts) (ht : t ∈ ts)
    (hk : t.kind.fixedText? = some sign) : t.span.slice? source = some sign := by
  have htext : t.text = sign :=
    String.toList_injective ((Lexeme.valid_iff_of_fixedText? hk).1 (h.lexical t ht))
  rw [h.text t ht, htext]

/-- A span from the first of some words to the last of them takes up room in the text. -/
theorem start_lt_stop {s : Span} (h : Row source ts)
    (hstart : ∃ t rest, ts = t :: rest ∧ s.start = t.span.start)
    (hstop : ∃ front u, ts = front ++ [u] ∧ s.stop = u.span.stop) : s.start < s.stop := by
  obtain ⟨t, rest, hfirst, hstart⟩ := hstart
  obtain ⟨front, u, hlast, hstop⟩ := hstop
  rw [hstart, hstop]
  have ht := h.nonempty t (by simp [hfirst])
  have hu := h.nonempty u (by simp [hlast])
  cases front with
  | nil =>
      obtain ⟨rfl, -⟩ := List.cons.inj (hfirst.symm.trans hlast)
      exact ht
  | cons v vs =>
      obtain ⟨rfl, -⟩ := List.cons.inj (hfirst.symm.trans hlast)
      have hordered := h.ordered
      rw [hlast, List.cons_append, List.pairwise_cons] at hordered
      have htu := hordered.1 u (by simp)
      omega

/-! ## What stands around the sign of a node -/

theorem gap_behind (h : Row source (ts ++ t :: ys)) (hx : x.Spells ts) :
    Span.IsGap source ⟨x.span.stop, t.span.start⟩ := by
  obtain ⟨front, u, rfl, hstop⟩ := hx.stop_span
  rw [hstop]
  exact (List.isChain_append.1 h.gaps).2.2 u (by simp) t (by simp)

theorem gap_before (h : Row source (t :: ts)) (hx : x.Spells ts) :
    Span.IsGap source ⟨t.span.stop, x.span.start⟩ := by
  obtain ⟨u, rest, rfl, hstart⟩ := hx.start_span
  rw [hstart]
  exact (List.isChain_cons_cons.1 h.gaps).1

theorem signBefore (h : Row source (t :: ts)) (hk : t.kind.fixedText? = some sign)
    (hx : x.Spells ts) : SignBefore source sign t.span.start x.span.start :=
  ⟨t.span.stop, h.slice_of_fixedText? (by simp) hk, h.gap_before hx⟩

theorem signBehind (h : Row source (ts ++ [t])) (hx : x.Spells ts)
    (hk : t.kind.fixedText? = some sign) : SignBehind source sign x.span.stop t.span.stop :=
  ⟨t.span.start, h.gap_behind hx, h.slice_of_fixedText? (by simp) hk⟩

theorem signBetween (h : Row source (xs ++ t :: ys)) (hx : x.Spells xs)
    (hk : t.kind.fixedText? = some sign) (hy : y.Spells ys) :
    SignBetween source sign x.span.stop y.span.start :=
  ⟨t.span.start, t.span.stop, h.gap_behind hx, h.slice_of_fixedText? (by simp) hk,
    h.of_append_right.gap_before hy⟩

end Row

/-! ## Expressions and statements -/

section
variable {source : String} {e : Expr} {st : Stmt} {ts : List Token}

theorem Expr.Spells.placed (h : e.Spells ts) (hrow : Row source ts) : e.Placed source := by
  cases h with
  | @literal t e he =>
      have htext := hrow.text t (by simp)
      rcases literal?_eq_some_iff.1 he with ⟨-, rfl⟩ | ⟨-, rfl⟩
      · exact htext
      · exact htext
  | @unary op t x ts ht hx => exact ⟨hrow.signBefore (ht ▸ op.fixedText?_kind) hx, rfl⟩
  | @binary op t l r ls rs hl ht hr =>
      exact ⟨rfl, rfl, hrow.signBetween hl (ht ▸ op.fixedText?_kind) hr⟩
  | @group o c x ts ho hx hc =>
      have hopen : Row source (o :: ts) :=
        Row.of_append_left (show Row source ((o :: ts) ++ [c]) from hrow)
      have hclose : Row source (ts ++ [c]) :=
        Row.of_append_right (show Row source ([o] ++ (ts ++ [c])) from hrow)
      refine ⟨hopen.signBefore (ho ▸ rfl) hx, hclose.signBehind hx (hc ▸ rfl), ?_, ?_⟩
      · have ho := hopen.nonempty o (by simp)
        exact Nat.lt_of_lt_of_le ho (hopen.gap_before hx).le
      · have hc := hclose.nonempty c (by simp)
        exact Nat.lt_of_le_of_lt (hclose.gap_behind hx).le hc

theorem Stmt.Spells.stop_le (h : st.Spells ts) (hrow : Row source ts) :
    st.span.stop ≤ source.utf8ByteSize := by
  obtain ⟨xs, u, rfl, hstop⟩ := h.stop_span
  rw [hstop]
  exact Span.stop_le_of_slice? (hrow.text u (by simp))

theorem Stmt.Spells.placed (h : st.Spells ts) (hrow : Row source ts) : st.Placed source := by
  cases h with
  | expression he => rfl
  | @assignment name eq v ts hn he hv =>
      -- A name on its own is an expression, so `=` stands between two expressions.
      have hname : (Expr.identifier name.text name.span).Spells [name] :=
        .literal (Expr.literal?_eq_some_iff.2 (.inr ⟨hn, rfl⟩))
      have hrow' : Row source ([name] ++ eq :: ts) := hrow
      exact ⟨rfl, rfl, hrow.text name (by simp), hrow'.signBetween hname (he ▸ rfl) hv⟩

end

/-! ## Programs -/

section
variable {b : BinaryOp → Binding} {mode : Mode} {k : Nat} {sts : List Stmt} {ts rest : List Token}

/-- Statements read from words in order stand in that order. -/
theorem ReadsBody.ordered (hb : ∀ op, (b op).level < .unary) (h : ReadsBody b mode k ts sts rest)
    (hts : ts.Pairwise fun t u => t.span.stop ≤ u.span.start) :
    sts.Pairwise fun st st' => st.span.stop ≤ st'.span.start := by
  induction h with
  | single h he => exact List.pairwise_singleton _ _
  | done he => exact .nil
  | more hne h hs ih =>
      obtain ⟨used, rfl, hst, -⟩ := (readsStmt_iff hb).1 h
      obtain ⟨-, hrest, hacross⟩ := List.pairwise_append.1 hts
      refine .cons (fun st' hst' => ?_) (ih hrest)
      obtain ⟨before, used', after, rfl, hst', -⟩ := hs.spells_of_mem hb hst'
      obtain ⟨front, u, rfl, hstop⟩ := hst.stop_span
      obtain ⟨t, us, rfl, hstart⟩ := hst'.start_span
      rw [hstop, hstart]
      exact hacross u (by simp) t (by simp)

end

variable {source : String} {o : Options}

/-- The span of a program is the whole text. Its statements stand in it one after the other, and
    each of them, and every node of its expression, takes up room in the text and runs over its
    own parts and its sign, with nothing but gaps between these. -/
theorem parse_placed {p : Program} (h : parse source o = .ok p) :
    p.span = ⟨0, source.utf8ByteSize⟩ ∧
      (∀ st ∈ p.body, p.span.start ≤ st.span.start ∧ st.span.start < st.span.stop ∧
        st.span.stop ≤ p.span.stop ∧ st.Placed source) ∧
      p.body.Pairwise (fun st st' => st.span.stop ≤ st'.span.start) ∧
      ∀ st ∈ p.body, ∀ path e, st.expr.follow? path = some e →
        e.span.start < e.span.stop ∧ e.Placed source := by
  obtain ⟨ls, htiles, hsource, hbody, hspan⟩ := parse_eq_ok_iff.1 h
  have hb := BinaryOp.binding_level_lt_unary o.powers
  have hrow : Row source (words 0 ls) := (tileFrom_zero_iff.2 ⟨ls, htiles, hsource, rfl⟩).row
  refine ⟨hspan, fun st hst => ?_, hbody.ordered hb hrow.ordered, fun st hst path e he => ?_⟩
  · obtain ⟨before, used, after, hwords, hsp, -⟩ := hbody.spells_of_mem hb hst
    rw [hwords] at hrow
    have hused := hrow.of_append_right.of_append_left
    rw [hspan]
    exact ⟨Nat.zero_le _, hused.start_lt_stop hsp.start_span hsp.stop_span, hsp.stop_le hused,
      hsp.placed hused⟩
  · obtain ⟨before, used, after, hwords, hsp, hc, -⟩ := hbody.spells_of_mem hb hst
    rw [hwords] at hrow
    have hused := hrow.of_append_right.of_append_left
    obtain ⟨front, used', rfl, hsp'⟩ := hsp.expr
    obtain ⟨⟨before', used'', after', rfl, hse⟩, -⟩ := hsp'.follow hc he
    have hnode := hused.of_append_right.of_append_right.of_append_left
    exact ⟨hnode.start_lt_stop hse.start_span hse.stop_span, hse.placed hnode⟩

/-- In `a = (1){x}-2` the difference stands behind `=` and a blank, with a comment between its
    left operand and its sign. -/
theorem parse_placed_difference :
    SignBetween "a = (1){x}-2" "=" 1 4 ∧ SignBetween "a = (1){x}-2" "-" 7 11 := by
  have h : parse "a = (1){x}-2" {} = .ok ⟨[.assignment "a" ⟨0, 1⟩
      (.binary .subtract (.group (.number "1" ⟨5, 6⟩) ⟨4, 7⟩) (.number "2" ⟨11, 12⟩) ⟨4, 12⟩)
      ⟨0, 12⟩], ⟨0, 12⟩⟩ := by
    decide +kernel
  obtain ⟨-, hst, -, he⟩ := parse_placed h
  obtain ⟨-, -, -, hassign⟩ := hst _ (List.mem_singleton.2 rfl)
  obtain ⟨-, hdiff⟩ := he _ (List.mem_singleton.2 rfl) [] _ rfl
  exact ⟨hassign.2.2.2, hdiff.2.2⟩

end ArithLang
