/-
  The text under the span of a node means that node.

  The words of a part of a tiling are words of the whole, further on by the bytes in front of
  them (`words_add`). The tokens of a node are such words (`Expr.Spells.follow`), and its span
  runs from the first to the last of them (`exists_part_of_words`). So the text under the span
  has the tokens of the node and no others, and read on its own it is the node, with its spans
  back by where it started (`parse_slice`).
-/
import ArithLang.Proofs.Acceptance
import ArithLang.Proofs.Source

namespace ArithLang

/-- The text under the span, if both its ends stand between two characters. -/
def Span.slice? (s : Span) (source : String) : Option String := do
  let rest ← dropBytes? s.start source.toList
  let after ← dropBytes? (s.stop - s.start) rest
  if s.start ≤ s.stop then some (String.ofList (rest.take (rest.length - after.length))) else none

theorem Span.slice?_eq_some_iff {s : Span} {source text : String} :
    s.slice? source = some text ↔
      ∃ before after, source.toList = before ++ (text.toList ++ after) ∧
        byteLength before = s.start ∧ s.start + text.utf8ByteSize = s.stop := by
  unfold Span.slice?
  simp only [Option.bind_eq_bind, Option.bind_eq_some_iff, dropBytes?_eq_some_iff]
  constructor
  · intro h
    obtain ⟨rest, ⟨before, hsource, hbefore⟩, after, ⟨taken, rfl, htaken⟩, htext⟩ := h
    split at htext
    · next hle =>
        obtain rfl := Option.some.inj htext
        refine ⟨before, after, ?_, hbefore, ?_⟩
        · simpa using hsource
        · rw [← byteLength_toList, String.toList_ofList]
          simp
          omega
    · cases htext
  · intro h
    obtain ⟨before, after, hsource, hbefore, hstop⟩ := h
    refine ⟨_, ⟨before, hsource, hbefore⟩, after, ⟨text.toList, rfl, ?_⟩, ?_⟩
    · rw [byteLength_toList]
      omega
    · rw [if_pos (by omega)]
      simp

/-! ## Words of a part of a tiling -/

theorem span_of_word? {offset : Nat} {l : Lexeme} {t : Token} (h : l.word? offset = some t) :
    t.span = ⟨offset, offset + byteLength l.text⟩ := by
  obtain ⟨kind, -, rfl⟩ := Option.map_eq_some_iff.1 h
  rfl

/-- Further on in a text, words only have other spans. -/
theorem words_add (offset n : Nat) (ls : List Lexeme) :
    words (offset + n) ls = (words offset ls).map (Token.mapSpan (.shift n)) := by
  induction ls generalizing offset with
  | nil => rfl
  | cons l ls ih =>
      have hoffset : offset + n + byteLength l.text = offset + byteLength l.text + n := by omega
      have hword : l.word? (offset + n) = (l.word? offset).map (Token.mapSpan (.shift n)) := by
        unfold Lexeme.word?
        cases l.kind? with
        | none => rfl
        | some kind => simp [Token.mapSpan, Span.shift, hoffset]
      rw [words_cons, words_cons, List.map_append, hoffset, ih, hword]
      cases l.word? offset <;> rfl

/-- Some tokens in a row are the words of a part of the lexemes, which runs from the start of
    the first one to the stop of the last one. -/
theorem exists_part_of_words {offset : Nat} {ls : List Lexeme} {before used after : List Token}
    (h : words offset ls = before ++ (used ++ after)) {first last : Token}
    {us vs : List Token} (hfirst : used = first :: us) (hlast : used = vs ++ [last]) :
    ∃ as bs cs, ls = as ++ (bs ++ cs) ∧
      words (offset + byteLength (joined as)) bs = used ∧
      first.span.start = offset + byteLength (joined as) ∧
      last.span.stop = first.span.start + byteLength (joined bs) := by
  rw [hfirst, List.cons_append] at h
  obtain ⟨as, l, ls', rfl, -, hl, hls'⟩ := words_eq_append_cons h
  have hrest : words (offset + byteLength (joined as)) (l :: ls') = vs ++ last :: after := by
    rw [joined_append, byteLength_append, ← Nat.add_assoc] at hls'
    rw [words_cons, hl]
    have hused : first :: us ++ after = vs ++ last :: after := by
      rw [← hfirst, hlast]
      simp
    rw [← hused]
    simpa using hls'
  obtain ⟨ms, l', cs, hms, hvs, hl', hcs⟩ := words_eq_append_cons hrest
  refine ⟨as, ms ++ [l'], cs, by rw [hms]; simp, ?_, ?_, ?_⟩
  · rw [words_append, hvs, words_cons, hl', hlast]
    rfl
  · rw [span_of_word? hl]
  · rw [span_of_word? hl, span_of_word? hl']
    simp [Nat.add_assoc]

/-! ## Nodes -/

namespace Expr

variable {e x : Expr} {label : String} {path : List String} {ts : List Token}

/-- A part that a label leads to is an operand. -/
theorem operand_of_field? (h : e.field? label = some x) :
    (∃ op s, e = .unary op x s) ∨ (∃ op r s, e = .binary op x r s) ∨
      (∃ op l s, e = .binary op l x s) ∨ ∃ s, e = .group x s := by
  have hmem : (label, x) ∈ e.parts := by
    obtain ⟨xs, ys, hparts, -⟩ := List.lookup_eq_some_iff.1 h
    rw [hparts]
    simp
  cases e with
  | number | identifier => cases hmem
  | unary op y s =>
      obtain ⟨-, rfl⟩ : label = "expr" ∧ x = y := by simpa [parts] using hmem
      exact .inl ⟨op, s, rfl⟩
  | binary op l r s =>
      have hlr : label = "lhs" ∧ x = l ∨ label = "rhs" ∧ x = r := by simpa [parts] using hmem
      rcases hlr with ⟨-, rfl⟩ | ⟨-, rfl⟩
      · exact .inr (.inl ⟨op, r, s, rfl⟩)
      · exact .inr (.inr (.inl ⟨op, l, s, rfl⟩))
  | group y s =>
      obtain ⟨-, rfl⟩ : label = "expr" ∧ x = y := by simpa [parts] using hmem
      exact .inr (.inr (.inr ⟨s, rfl⟩))

/-- A part of an expression is spelled by some of its tokens in a row. -/
theorem Spells.field (h : e.Spells ts) (hx : e.field? label = some x) :
    ∃ before used after, ts = before ++ (used ++ after) ∧ x.Spells used := by
  rcases operand_of_field? hx with ⟨op, s, rfl⟩ | ⟨op, r, s, rfl⟩ | ⟨op, l, s, rfl⟩ | ⟨s, rfl⟩
  · obtain ⟨t, us, rfl, -, hx', -⟩ := h.of_unary
    exact ⟨[t], us, [], by simp, hx'⟩
  · obtain ⟨ls, t, rs, rfl, hx', -⟩ := h.of_binary
    exact ⟨[], ls, t :: rs, rfl, hx'⟩
  · obtain ⟨ls, t, rs, rfl, -, -, hx', -⟩ := h.of_binary
    exact ⟨ls ++ [t], rs, [], by simp, hx'⟩
  · obtain ⟨o, us, c, rfl, -, hx', -⟩ := h.of_group
    exact ⟨[o], us, [c], rfl, hx'⟩

theorem Canonical.field {b : BinaryOp → Binding} (h : e.Canonical b)
    (hx : e.field? label = some x) : x.Canonical b := by
  rcases operand_of_field? hx with ⟨op, s, rfl⟩ | ⟨op, r, s, rfl⟩ | ⟨op, l, s, rfl⟩ | ⟨s, rfl⟩
  · exact h.1
  · exact h.1
  · exact h.2.2.1
  · exact h

theorem need_field_le (hx : e.field? label = some x) : x.need ≤ e.need := by
  rcases operand_of_field? hx with ⟨op, s, rfl⟩ | ⟨op, r, s, rfl⟩ | ⟨op, l, s, rfl⟩ | ⟨s, rfl⟩
  all_goals
    simp only [need]
    omega

/-- What an expression passes on to its parts holds at the end of every path. -/
theorem of_follow? {P : Expr → Prop}
    (hparts : ∀ {y z : Expr} {label : String}, P y → y.field? label = some z → P z) (h : P e)
    (hx : e.follow? path = some x) : P x := by
  induction path generalizing e with
  | nil =>
      obtain rfl := Option.some.inj hx
      exact h
  | cons label path ih =>
      obtain ⟨y, hy, hx⟩ := Option.bind_eq_some_iff.1 hx
      exact ih (hparts h hy) hx

theorem Canonical.follow {b : BinaryOp → Binding} (h : e.Canonical b)
    (hx : e.follow? path = some x) : x.Canonical b :=
  of_follow? Canonical.field h hx

theorem need_follow_le (hx : e.follow? path = some x) : x.need ≤ e.need :=
  of_follow? (fun hy hz => Nat.le_trans (need_field_le hz) hy) (Nat.le_refl e.need) hx

/-- At the end of every path stands a node that is spelled by some of the tokens in a row, and
    that is canonical and needs no more levels than the whole. -/
theorem Spells.follow {b : BinaryOp → Binding} (h : e.Spells ts) (hc : e.Canonical b)
    (hx : e.follow? path = some x) :
    (∃ before used after, ts = before ++ (used ++ after) ∧ x.Spells used) ∧ x.Canonical b ∧
      x.need ≤ e.need := by
  have hspelled : ∃ before used after, ts = before ++ (used ++ after) ∧ x.Spells used := by
    refine of_follow? (P := fun y => ∃ before used after, ts = before ++ (used ++ after) ∧
      y.Spells used) (fun hy hz => ?_) ⟨[], ts, [], by simp, h⟩ hx
    obtain ⟨before, used, after, rfl, hy⟩ := hy
    obtain ⟨before', used', after', rfl, hz⟩ := hy.field hz
    exact ⟨before ++ before', used', after' ++ after, by simp, hz⟩
  exact ⟨hspelled, hc.follow hx, need_follow_le hx⟩

end Expr

/-! ## Slices -/

/-- A statement of a program is spelled by some of its tokens in a row. -/
theorem ReadsBody.spells_of_mem {b : BinaryOp → Binding} (hb : ∀ op, (b op).level < .unary)
    {mode : Mode} {k : Nat} {sts : List Stmt} {ts rest : List Token}
    (h : ReadsBody b mode k ts sts rest) {st : Stmt} (hst : st ∈ sts) :
    ∃ before used after, ts = before ++ (used ++ after) ∧ st.Spells used ∧
      st.expr.Canonical b ∧ st.expr.need ≤ k := by
  induction h with
  | single h he =>
      obtain rfl := List.mem_singleton.1 hst
      obtain ⟨used, rfl, hsp, hc, hk, -⟩ := (readsStmt_iff hb).1 h
      exact ⟨[], used, _, rfl, hsp, hc, hk⟩
  | done he => cases hst
  | more hne h hs ih =>
      obtain ⟨used, rfl, hsp, hc, hk, -⟩ := (readsStmt_iff hb).1 h
      rcases List.mem_cons.1 hst with rfl | hst
      · exact ⟨[], used, _, rfl, hsp, hc, hk⟩
      · obtain ⟨before, used', after, rfl, hrest⟩ := ih hst
        exact ⟨used ++ before, used', after, by simp, hrest⟩

section
variable {source : String} {o : Options} {st : Stmt} {ls : List Lexeme}
  {before used after : List Token}

/-- A statement that is spelled by some tokens of a text in a row is what the text under its
    span is read as. -/
theorem parse_slice_of_spells (htiles : Tiles ls) (hsource : source.toList = joined ls)
    (hwords : words 0 ls = before ++ (used ++ after)) (hst : st.Spells used)
    (hc : st.expr.Canonical (BinaryOp.binding o.powers)) (hk : st.expr.need ≤ o.maxDepth) :
    ∃ text st', st.span.slice? source = some text ∧
      parse text { o with mode := .single } = .ok ⟨[st'], ⟨0, text.utf8ByteSize⟩⟩ ∧
        st'.mapSpan (.shift st.span.start) = st := by
  obtain ⟨first, us, hfirst, hstart⟩ := hst.start_span
  obtain ⟨vs, last, hlast, hstop⟩ := hst.stop_span
  obtain ⟨as, bs, cs, rfl, hused, has, hbs⟩ := exists_part_of_words hwords hfirst hlast
  rw [← hstart] at has hbs
  rw [← hstop] at hbs
  -- Counted from the start of the slice, its words are those of the statement, moved back.
  rw [words_add, ← Nat.zero_add (byteLength _), ← has] at hused
  rw [← hused] at hst
  obtain ⟨st', hst', hshift⟩ := hst.of_map (Span.shift_cover _)
  have htiles' : Tiles bs := htiles.of_append_right.of_append_left
  have hread : ReadsBody (BinaryOp.binding o.powers) .single o.maxDepth (words 0 bs) [st'] [] := by
    refine (readsBody_single_iff (htiles'.kind_ne_eof 0)).2 ⟨st', rfl, rfl, hst', ?_, ?_⟩
    · rwa [← hshift, Stmt.expr_mapSpan, Expr.canonical_mapSpan] at hc
    · rwa [← hshift, Stmt.expr_mapSpan, Expr.need_mapSpan] at hk
  refine ⟨String.ofList (joined bs), st', ?_, ?_, hshift⟩
  · rw [Nat.zero_add] at has
    refine Span.slice?_eq_some_iff.2 ⟨joined as, joined cs, ?_, has.symm, ?_⟩
    · rw [hsource, joined_append, joined_append, String.toList_ofList]
    · rw [hbs, ← byteLength_toList, String.toList_ofList]
  · exact parse_eq_ok_iff.2 ⟨bs, htiles', String.toList_ofList, hread, rfl⟩

/-- The text under the span of a statement of a program is read as that statement, and the text
    under the span of any node of its expression as an expression that is that node. Spans are
    further back by where the slice starts, and nothing else is different. -/
theorem parse_slice {p : Program} (h : parse source o = .ok p) (hst : st ∈ p.body) :
    (∃ text st', st.span.slice? source = some text ∧
      parse text { o with mode := .single } = .ok ⟨[st'], ⟨0, text.utf8ByteSize⟩⟩ ∧
        st'.mapSpan (.shift st.span.start) = st) ∧
    ∀ path e, st.expr.follow? path = some e →
      ∃ text e', e.span.slice? source = some text ∧
        parse text { o with mode := .single } =
          .ok ⟨[.expression e' e'.span], ⟨0, text.utf8ByteSize⟩⟩ ∧
        e'.mapSpan (.shift e.span.start) = e := by
  obtain ⟨ls, htiles, hsource, hbody, -⟩ := parse_eq_ok_iff.1 h
  have hb := BinaryOp.binding_level_lt_unary o.powers
  obtain ⟨before, used, after, hwords, hsp, hc, hk⟩ := hbody.spells_of_mem hb hst
  refine ⟨parse_slice_of_spells htiles hsource hwords hsp hc hk, fun path e he => ?_⟩
  obtain ⟨front, used', rfl, hsp'⟩ := hsp.expr
  obtain ⟨⟨before', used'', after', rfl, hse⟩, hce, hke⟩ := hsp'.follow hc he
  have hwords' : words 0 ls = (before ++ front ++ before') ++ (used'' ++ (after' ++ after)) := by
    rw [hwords]
    simp
  obtain ⟨text, st', htext, hparse, hshift⟩ := parse_slice_of_spells (o := o) htiles hsource hwords'
    (.expression hse) hce (Nat.le_trans hke hk)
  cases st' with
  | assignment target ts v s => cases hshift
  | expression e' s =>
      obtain ⟨he', hspan⟩ := Stmt.expression.inj hshift
      have he'span : e.span = e'.span.shift e.span.start :=
        (congrArg Expr.span he').symm.trans (e'.span_mapSpan _)
      rw [Span.shift_inj.1 (hspan.trans he'span)] at hparse
      exact ⟨text, e', htext, hparse, he'⟩

end

/-- The product in `1+ 2*3` stands at bytes 3 to 6, and is read from there. -/
theorem parse_slice_product :
    ∃ text e', Span.slice? ⟨3, 6⟩ "1+ 2*3" = some text ∧
      parse text {} = .ok ⟨[.expression e' e'.span], ⟨0, text.utf8ByteSize⟩⟩ ∧
      e'.mapSpan (.shift 3) =
        .binary .multiply (.number "2" ⟨3, 4⟩) (.number "3" ⟨5, 6⟩) ⟨3, 6⟩ := by
  have h : parse "1+ 2*3" {} = .ok ⟨[.expression (.binary .add (.number "1" ⟨0, 1⟩)
      (.binary .multiply (.number "2" ⟨3, 4⟩) (.number "3" ⟨5, 6⟩) ⟨3, 6⟩) ⟨0, 6⟩) ⟨0, 6⟩],
      ⟨0, 6⟩⟩ := by
    decide +kernel
  exact (parse_slice h (List.mem_singleton.2 rfl)).2 ["rhs"] _ rfl

end ArithLang
