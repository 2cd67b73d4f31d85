/-
  A program printed and read again.

  `Expr.lexemes` are the lexemes that a printed expression is made of; its text is theirs. If
  the texts in the expression are numbers and identifiers, they tile the printed text
  (`Expr.Lexical.tiles`): the blanks keep apart what would run together. Their words have the
  shapes that the tree yields, which are those of the tokens that it was read from.

  So a printed program has the words of its source (`shape_words_lineLexemes`), and reading it
  again gives the same program but for the spans (`parse_render`).
-/
import ArithLang.Proofs.Layout
import ArithLang.Proofs.Source

namespace ArithLang

/-- A blank between two words. -/
def Lexeme.blank : Lexeme := ⟨none, [' ']⟩

/-- The end of a line. -/
def Lexeme.newline : Lexeme := ⟨none, ['\n']⟩

namespace Expr

/-- The lexemes of the printed expression. -/
def lexemes : Expr → List Lexeme
  | number text _ => [⟨some .number, text.toList⟩]
  | identifier text _ => [⟨some .identifier, text.toList⟩]
  | unary op x _ => ⟨some op.kind, op.symbol.toList⟩ :: x.lexemes
  | binary op l r _ =>
      l.lexemes ++ .blank :: ⟨some op.kind, op.symbol.toList⟩ :: .blank :: r.lexemes
  | group x _ => ⟨some .openParen, ['(']⟩ :: (x.lexemes ++ [⟨some .closeParen, [')']⟩])

/-- The texts in the expression are those of numbers and identifiers. -/
def Lexical : Expr → Prop
  | number text _ => (Lexeme.mk (some .number) text.toList).Valid
  | identifier text _ => (Lexeme.mk (some .identifier) text.toList).Valid
  | unary _ x _ => x.Lexical
  | binary _ l r _ => l.Lexical ∧ r.Lexical
  | group x _ => x.Lexical

theorem joined_lexemes (e : Expr) : joined e.lexemes = e.render.toList := by
  induction e with
  | number | identifier => simp [lexemes, render]
  | unary op x s ih => simp [lexemes, render, ih]
  | binary op l r s ihl ihr => simp [lexemes, render, ihl, ihr, Lexeme.blank]
  | group x s ih => simp [lexemes, render, ih]

theorem Spells.lexical {e : Expr} {ts : List Token} (h : e.Spells ts)
    (hts : ∀ t ∈ ts, t.Lexical) : e.Lexical := by
  induction h with
  | @literal t e he =>
      have ht : t.Lexical := hts t (by simp)
      unfold Token.Lexical at ht
      rcases literal?_eq_some_iff.1 he with ⟨hk, rfl⟩ | ⟨hk, rfl⟩ <;> rwa [hk] at ht
  | unary ht hx ih => exact ih fun t h => hts t (by simp [h])
  | binary hl ht hr ihl ihr =>
      exact ⟨ihl fun t h => hts t (by simp [h]), ihr fun t h => hts t (by simp [h])⟩
  | group ho hx hc ih => exact ih fun t h => hts t (by simp [h])

end Expr

/-! ## Printed text is tiled -/

/-- A number or an identifier ends in front of the text. -/
def Separates (cs : List Char) : Prop :=
  ∀ c, cs.head? = some c → c.isDigit = false ∧ isNameChar c = false

/-- A blank ends in front of the text. -/
def StartsWord (cs : List Char) : Prop := ∀ c, cs.head? = some c → isSpace c = false

section
variable {ls : List Lexeme} {text : List Char}

theorem Tiles.number (hv : (Lexeme.mk (some .number) text).Valid) (hls : Tiles ls)
    (hs : Separates (joined ls)) : Tiles (⟨some .number, text⟩ :: ls) := by
  obtain ⟨hne, hd⟩ := Lexeme.valid_number_iff.1 hv
  obtain ⟨d, text, rfl⟩ := List.exists_cons_of_ne_nil hne
  refine .cons hv (fun c hc hg => ?_) hls
  have := (Lexeme.goesOn_of_isDigit rfl (hd d (by simp))).1 hg
  rw [(hs c hc).1] at this
  cases this

theorem Tiles.identifier (hv : (Lexeme.mk (some .identifier) text).Valid) (hls : Tiles ls)
    (hs : Separates (joined ls)) : Tiles (⟨some .identifier, text⟩ :: ls) := by
  obtain ⟨hne, hd⟩ := Lexeme.valid_identifier_iff.1 hv
  obtain ⟨d, text, rfl⟩ := List.exists_cons_of_ne_nil hne
  refine .cons hv (fun c hc hg => ?_) hls
  have := (Lexeme.goesOn_of_isNameChar rfl (hd d (by simp))).1 hg
  rw [(hs c hc).2] at this
  cases this

theorem Tiles.blanks {c : Char} (hc : isSpace c) (hls : Tiles ls)
    (hs : StartsWord (joined ls)) : Tiles (⟨none, [c]⟩ :: ls) := by
  refine .cons (.blanks (by simp) (by simpa using hc)) (fun d hd hg => ?_) hls
  have := (Lexeme.goesOn_of_isSpace rfl hc).1 hg
  rw [hs d hd] at this
  cases this

/-- A sign is complete, unless it is `*` and another one follows. -/
theorem Tiles.sign {k : Kind} {s : String} (hk : k.fixedText? = some s) (hls : Tiles ls)
    (hs : k = .star → (joined ls).head? ≠ some '*') : Tiles (⟨some k, s.toList⟩ :: ls) := by
  refine .cons ((Lexeme.valid_iff_of_fixedText? hk).2 rfl) (fun c hc hg => ?_) hls
  cases k
  case eof | number | identifier => cases hk
  all_goals
    obtain rfl := Option.some.inj hk
    obtain ⟨htext, rfl⟩ := (Lexeme.goesOn_of_no_class rfl rfl rfl rfl).1 hg
  case star => exact hs rfl hc
  all_goals cases htext

end

namespace Expr

/-- A printed expression starts with a word. -/
theorem Lexical.startsWord {e : Expr} (h : e.Lexical) (ls : List Lexeme) :
    StartsWord (joined (e.lexemes ++ ls)) := by
  induction e generalizing ls with
  | number text s =>
      obtain ⟨hne, hd⟩ := Lexeme.valid_number_iff.1 h
      obtain ⟨d, ds, hds⟩ := List.exists_cons_of_ne_nil hne
      intro c hc
      simp only [lexemes, List.cons_append, List.nil_append, joined_cons, hds] at hc
      cases hc
      exact not_isSpace_of_isDigit (hd d (by simp [hds]))
  | identifier text s =>
      obtain ⟨hne, hd⟩ := Lexeme.valid_identifier_iff.1 h
      obtain ⟨d, ds, hds⟩ := List.exists_cons_of_ne_nil hne
      intro c hc
      simp only [lexemes, List.cons_append, List.nil_append, joined_cons, hds] at hc
      cases hc
      exact not_isSpace_of_isNameChar (hd d (by simp [hds]))
  | unary op x s ih =>
      intro c hc
      cases op <;> (cases hc; rfl)
  | binary op l r s ihl ihr =>
      rw [lexemes, List.append_assoc]
      exact ihl h.1 _
  | group x s ih =>
      intro c hc
      cases hc
      rfl

/-- In front of a text that keeps it apart, a printed expression is cut into its lexemes. -/
theorem Lexical.tiles {e : Expr} (h : e.Lexical) {ls : List Lexeme} (hls : Tiles ls)
    (hs : Separates (joined ls)) : Tiles (e.lexemes ++ ls) := by
  induction e generalizing ls with
  | number text s => exact .number h hls hs
  | identifier text s => exact .identifier h hls hs
  | unary op x s ih =>
      refine .sign op.fixedText?_kind (ih h hls hs) fun hk => ?_
      cases op <;> cases hk
  | binary op l r s ihl ihr =>
      have hr : Tiles (.blank :: (r.lexemes ++ ls)) :=
        .blanks rfl (ihr h.2 hls hs) (h.2.startsWord ls)
      have hop : Tiles (⟨some op.kind, op.symbol.toList⟩ :: .blank :: (r.lexemes ++ ls)) :=
        .sign op.fixedText?_kind hr fun _ hstar => by cases hstar
      have hblank : StartsWord
          (joined (⟨some op.kind, op.symbol.toList⟩ :: .blank :: (r.lexemes ++ ls))) := by
        intro c hc
        cases op <;> (cases hc; rfl)
      have hl : Separates
          (joined (.blank :: ⟨some op.kind, op.symbol.toList⟩ :: .blank :: (r.lexemes ++ ls))) := by
        intro c hc
        cases hc
        decide
      rw [lexemes, List.append_assoc]
      exact ihl h.1 (.blanks rfl hop hblank) hl
  | group x s ih =>
      have hclose : Tiles (⟨some .closeParen, [')']⟩ :: ls) :=
        .sign (s := ")") rfl hls fun hk => by cases hk
      have hx : Tiles (x.lexemes ++ ⟨some .closeParen, [')']⟩ :: ls) := by
        refine ih h hclose ?_
        intro c hc
        cases hc
        decide
      rw [lexemes, List.cons_append, List.append_assoc]
      exact .sign (s := "(") rfl hx fun hk => by cases hk

/-- The words of a printed expression have the shapes that the tree yields. -/
theorem shape_words_lexemes (e : Expr) (offset : Nat) :
    (words offset e.lexemes).map Token.shape = e.yield := by
  induction e generalizing offset with
  | number text s => simp [lexemes, words_cons, Lexeme.word?, Token.shape, yield]
  | identifier text s => simp [lexemes, words_cons, Lexeme.word?, Token.shape, yield]
  | unary op x s ih =>
      cases op <;>
        simp [lexemes, words_cons, Lexeme.word?, Token.shape, yield, UnaryOp.kind, ih]
  | binary op l r s ihl ihr =>
      cases op <;>
        simp [lexemes, words_cons, words_append, Lexeme.word?, Lexeme.blank, Token.shape, yield,
          BinaryOp.kind, ihl, ihr]
  | group x s ih =>
      simp [lexemes, words_cons, words_append, Lexeme.word?, Token.shape, yield, ih]

end Expr

/-! ## Statements and programs -/

namespace Stmt

/-- The lexemes of the printed statement. -/
def lexemes : Stmt → List Lexeme
  | assignment target _ v _ =>
      ⟨some .identifier, target.toList⟩ :: .blank :: ⟨some .assignment, ['=']⟩ :: .blank ::
        v.lexemes
  | expression e _ => e.lexemes

/-- The texts in the statement are those of numbers and identifiers. -/
def Lexical : Stmt → Prop
  | assignment target _ v _ => (Lexeme.mk (some .identifier) target.toList).Valid ∧ v.Lexical
  | expression e _ => e.Lexical

theorem joined_lexemes (st : Stmt) : joined st.lexemes = st.render.toList := by
  cases st with
  | assignment target ts v s => simp [lexemes, render, Lexeme.blank, Expr.joined_lexemes]
  | expression e s => exact e.joined_lexemes

theorem Spells.lexical {st : Stmt} {ts : List Token} (h : st.Spells ts)
    (hts : ∀ t ∈ ts, t.Lexical) : st.Lexical := by
  cases h with
  | @assignment name eq v ts hn he hv =>
      have hname : name.Lexical := hts name (by simp)
      unfold Token.Lexical at hname
      rw [hn] at hname
      exact ⟨hname, hv.lexical fun t h => hts t (by simp [h])⟩
  | expression he => exact he.lexical hts

theorem Lexical.startsWord {st : Stmt} (h : st.Lexical) (ls : List Lexeme) :
    StartsWord (joined (st.lexemes ++ ls)) := by
  cases st with
  | assignment target ts v s =>
      have hname := Expr.Lexical.startsWord (e := .identifier target ts) h.1
      exact hname (.blank :: ⟨some .assignment, ['=']⟩ :: .blank :: (v.lexemes ++ ls))
  | expression e s => exact Expr.Lexical.startsWord h ls

theorem Lexical.tiles {st : Stmt} (h : st.Lexical) {ls : List Lexeme} (hls : Tiles ls)
    (hs : Separates (joined ls)) : Tiles (st.lexemes ++ ls) := by
  cases st with
  | assignment target ts v s =>
      have hv : Tiles (.blank :: (v.lexemes ++ ls)) :=
        .blanks rfl (h.2.tiles hls hs) (h.2.startsWord ls)
      have heq : Tiles (⟨some .assignment, ['=']⟩ :: .blank :: (v.lexemes ++ ls)) :=
        .sign (s := "=") rfl hv fun hk => by cases hk
      have hblank : StartsWord
          (joined (⟨some .assignment, ['=']⟩ :: .blank :: (v.lexemes ++ ls))) := by
        intro c hc
        cases hc
        rfl
      refine .identifier h.1 (.blanks rfl heq hblank) ?_
      intro c hc
      cases hc
      decide
  | expression e s => exact Expr.Lexical.tiles h hls hs

theorem shape_words_lexemes (st : Stmt) (offset : Nat) :
    (words offset st.lexemes).map Token.shape = st.yield := by
  cases st with
  | assignment target ts v s =>
      simp [lexemes, words_cons, Lexeme.word?, Lexeme.blank, Token.shape, yield,
        Expr.shape_words_lexemes]
  | expression e s => exact e.shape_words_lexemes offset

end Stmt

/-- The lexemes of statements printed one a line. -/
def lineLexemes : List Stmt → List Lexeme
  | [] => []
  | [st] => st.lexemes
  | st :: st' :: sts => st.lexemes ++ .newline :: lineLexemes (st' :: sts)

theorem joined_lineLexemes (sts : List Stmt) :
    joined (lineLexemes sts) = ("\n".intercalate (sts.map Stmt.render)).toList := by
  induction sts using lineLexemes.induct with
  | case1 => simp [lineLexemes]
  | case2 st => simp [lineLexemes, Stmt.joined_lexemes]
  | case3 st st' sts ih =>
      simp [lineLexemes, Stmt.joined_lexemes, ih, Lexeme.newline]

theorem tiles_lineLexemes {sts : List Stmt} (h : ∀ st ∈ sts, st.Lexical) :
    Tiles (lineLexemes sts) ∧ StartsWord (joined (lineLexemes sts)) := by
  induction sts using lineLexemes.induct with
  | case1 => exact ⟨.nil, fun c hc => by cases hc⟩
  | case2 st =>
      have hst := h st (by simp)
      have hsep : Separates (joined []) := fun c hc => by cases hc
      have ht := hst.tiles .nil hsep
      have hw := hst.startsWord []
      rw [List.append_nil] at ht hw
      exact ⟨ht, hw⟩
  | case3 st st' sts ih =>
      have hst := h st (by simp)
      obtain ⟨ht, hw⟩ := ih fun st'' hm => h st'' (List.mem_cons_of_mem _ hm)
      refine ⟨hst.tiles (.blanks rfl ht hw) ?_, hst.startsWord _⟩
      intro c hc
      cases hc
      decide

theorem shape_words_lineLexemes (sts : List Stmt) (offset : Nat) :
    (words offset (lineLexemes sts)).map Token.shape = sts.flatMap Stmt.yield := by
  induction sts using lineLexemes.induct generalizing offset with
  | case1 => rfl
  | case2 st => simp [lineLexemes, Stmt.shape_words_lexemes]
  | case3 st st' sts ih =>
      simp [lineLexemes, words_append, words_cons, Lexeme.word?, Lexeme.newline,
        Stmt.shape_words_lexemes, ih]

/-! ## Reading again -/

/-- A token's shape settles its text. -/
theorem Token.Lexical.bare_eq {t t' : Token} (h : t.Lexical) (h' : t'.Lexical)
    (hs : t.shape = t'.shape) : t.bare = t'.bare := by
  obtain ⟨kind, text, span⟩ := t
  obtain ⟨kind', text', span'⟩ := t'
  obtain ⟨rfl, htext⟩ : kind = kind' ∧ _ := Prod.mk.inj hs
  refine Token.bare_eq_iff.2 ⟨rfl, ?_⟩
  have hfixed : ∀ s, kind.fixedText? = some s → text = text' := by
    intro s hk
    have htext := (Lexeme.valid_iff_of_fixedText? hk).1 h
    have htext' := (Lexeme.valid_iff_of_fixedText? hk).1 h'
    exact String.toList_inj.1 (htext.trans htext'.symm)
  cases kind
  case eof => exact absurd rfl h.kind_ne_eof
  case number | identifier => exact Option.some.inj htext
  all_goals exact hfixed _ rfl

theorem map_bare_eq_of_shape {ts ts' : List Token} (h : ∀ t ∈ ts, t.Lexical)
    (h' : ∀ t ∈ ts', t.Lexical) (hs : ts.map Token.shape = ts'.map Token.shape) :
    ts.map Token.bare = ts'.map Token.bare := by
  induction ts generalizing ts' with
  | nil => rw [List.map_eq_nil_iff.1 hs.symm]
  | cons t ts ih =>
      obtain ⟨t', us, rfl, ht, hus⟩ := List.map_eq_cons_iff.1 hs.symm
      rw [List.map_cons, List.map_cons, (h t (by simp)).bare_eq (h' t' (by simp)) ht.symm,
        ih (fun u hu => h u (by simp [hu])) (fun u hu => h' u (by simp [hu])) hus.symm]

section
variable {b : BinaryOp → Binding} {mode : Mode} {k : Nat} {sts : List Stmt} {ts rest : List Token}

/-- The tokens of statements that are read have the shapes that the statements yield. -/
theorem ReadsBody.yield (hb : ∀ op, (b op).level < .unary) (h : ReadsBody b mode k ts sts rest) :
    ts.map Token.shape = sts.flatMap Stmt.yield ++ rest.map Token.shape := by
  induction h with
  | single h he =>
      obtain ⟨used, rfl, hst, -⟩ := (readsStmt_iff hb).1 h
      simp [hst.yield]
  | done he => rfl
  | more hne h hs ih =>
      obtain ⟨used, rfl, hst, -⟩ := (readsStmt_iff hb).1 h
      simp [hst.yield, ih]

theorem ReadsBody.lexical (hb : ∀ op, (b op).level < .unary) (h : ReadsBody b mode k ts sts rest)
    (hts : ∀ t ∈ ts, t.Lexical) : ∀ st ∈ sts, st.Lexical := by
  induction h with
  | single h he =>
      obtain ⟨used, rfl, hst, -⟩ := (readsStmt_iff hb).1 h
      simpa using hst.lexical fun t ht => hts t (by simp [ht])
  | done he => simp
  | more hne h hs ih =>
      obtain ⟨used, rfl, hst, -⟩ := (readsStmt_iff hb).1 h
      have hfirst := hst.lexical fun t ht => hts t (by simp [ht])
      have hlater := ih fun t ht => hts t (by simp [ht])
      simpa using ⟨hfirst, hlater⟩

end

/-- A canonical statement is read from its printed form, as long as it nests no deeper than is
    allowed and its texts are those of numbers and identifiers. -/
theorem Stmt.Lexical.exists_parse_render {st : Stmt} {o : Options} (h : st.Lexical)
    (hc : st.expr.Canonical (BinaryOp.binding o.powers)) (hk : st.expr.need ≤ o.maxDepth) :
    ∃ st' : Stmt, st'.bare = st.bare ∧
      parse st.render o = .ok ⟨[st'], ⟨0, st.render.utf8ByteSize⟩⟩ := by
  have htiles : Tiles st.lexemes := by
    have h' := h.tiles .nil fun c hc => by cases hc
    rwa [List.append_nil] at h'
  obtain ⟨st', hbare, hst⟩ := Stmt.exists_reads_of_yield
    (BinaryOp.binding_level_lt_unary o.powers) (st.shape_words_lexemes 0).symm hc hk
  have hbody : ReadsBody (BinaryOp.binding o.powers) o.mode o.maxDepth (words 0 st.lexemes)
      [st'] [] := by
    cases o.mode with
    | single => exact .single hst rfl
    | repeated => exact .more hst.frontKind_ne_eof hst (.done rfl)
  exact ⟨st', hbare, parse_eq_ok_iff.2 ⟨_, htiles, st.joined_lexemes.symm, hbody, rfl⟩⟩

/-- What does not depend on spans is the same of statements that differ in nothing else. -/
theorem map_eq_of_bare {α : Type} {g : Stmt → α} (hg : ∀ st, g st.bare = g st)
    {sts sts' : List Stmt} (h : sts'.map Stmt.bare = sts.map Stmt.bare) :
    sts'.map g = sts.map g := by
  have hmap := congrArg (List.map g) h
  rwa [List.map_map, List.map_map, funext (f := g ∘ Stmt.bare) hg] at hmap

/-- A program that was read from a text, printed: the printed text has the words of the source,
    and is read as the same program but for the spans. Printing that program gives the same
    text again, which is therefore read as the same program, spans included. -/
theorem parse_render {source : String} {o : Options} {p : Program}
    (h : parse source o = .ok p) :
    ∃ ts ts' q, tokenize source = .ok ts ∧ tokenize p.render = .ok ts' ∧
      ts'.map (fun t => (t.kind, t.text)) = ts.map (fun t => (t.kind, t.text)) ∧
      parse p.render o = .ok q ∧ q.body.length = p.body.length ∧
      q.body.map Stmt.bare = p.body.map Stmt.bare ∧ q.sexps = p.sexps ∧
      q.render = p.render ∧ parse q.render o = .ok q := by
  obtain ⟨ls, htiles, hsource, hbody, hspan⟩ := parse_eq_ok_iff.1 h
  have hb := BinaryOp.binding_level_lt_unary o.powers
  have hlex : ∀ t ∈ words 0 ls, t.Lexical := fun t ht => htiles.lexical ht
  have htiles' := (tiles_lineLexemes (hbody.lexical hb hlex)).1
  have hprinted : p.render.toList = joined (lineLexemes p.body) := (joined_lineLexemes _).symm
  have hshape : (words 0 (lineLexemes p.body)).map Token.shape = (words 0 ls).map Token.shape := by
    rw [shape_words_lineLexemes, hbody.yield hb, List.map_nil, List.append_nil]
  have hbare := map_bare_eq_of_shape (fun t ht => htiles'.lexical ht) hlex hshape
  obtain ⟨sts, rest, hbody', hsts, hrest⟩ := hbody.of_bare hb hbare
  obtain rfl : rest = [] := List.map_eq_nil_iff.1 hrest
  have hrender : sts.map Stmt.render = p.body.map Stmt.render :=
    map_eq_of_bare (fun st => st.render_mapSpan _) hsts
  have hq : parse p.render o = .ok ⟨sts, ⟨0, p.render.utf8ByteSize⟩⟩ :=
    parse_eq_ok_iff.2 ⟨_, htiles', hprinted, hbody', rfl⟩
  have hrender' : (Program.mk sts ⟨0, p.render.utf8ByteSize⟩).render = p.render :=
    congrArg ("\n".intercalate ·) hrender
  refine ⟨_, _, _, tokenize_eq_ok_iff.2 ⟨ls, htiles, hsource, rfl⟩,
    tokenize_eq_ok_iff.2 ⟨_, htiles', hprinted, rfl⟩, ?_, hq, ?_, hsts,
    map_eq_of_bare (fun st => st.sexp_mapSpan _) hsts, hrender', hrender'.symm ▸ hq⟩
  · have hwords := congrArg (List.map fun t => (t.kind, t.text)) hbare
    rw [List.map_map, List.map_map] at hwords
    rw [List.map_append, List.map_append]
    exact congrArg (· ++ [_]) hwords
  · simpa using congrArg List.length hsts

/-- `a=2**-b` is printed with blanks, and read as the same assignment again. -/
theorem parse_render_of_power :
    ∃ p q, parse "a=2**-b" {} = .ok p ∧ p.render = "a = 2 ** -b" ∧
      parse "a = 2 ** -b" {} = .ok q ∧ q.sexps = p.sexps := by
  have h : parse "a=2**-b" {} = .ok ⟨[.assignment "a" ⟨0, 1⟩ (.binary .power (.number "2" ⟨2, 3⟩)
      (.unary .minus (.identifier "b" ⟨6, 7⟩) ⟨5, 7⟩) ⟨2, 7⟩) ⟨0, 7⟩], ⟨0, 7⟩⟩ := by
    decide +kernel
  obtain ⟨ts, ts', q, -, -, -, hq, -, -, hs, -⟩ := parse_render h
  exact ⟨_, q, h, by decide +kernel, hq, hs⟩

end ArithLang
