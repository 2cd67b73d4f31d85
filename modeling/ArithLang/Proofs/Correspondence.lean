/-
  The same words at other places.

  Tokens can be numbered: each one gets its place in the list for a span (`numbered`). Lists with
  the same words have the same numbered tokens, and each of them is these again once every number
  is replaced by the span of the token that bears it (`numbered_mapSpan`). Spans do not steer what
  is read (`parseTokens_mapSpan`), so the runs over two such lists are both images of the run over
  the numbers. They come to the same tree, and what is a pair of numbers in the run over the
  numbers is a span from the start of one token to the stop of another in each of them. An error
  is met at the token whose number it bears there (`parseTokens_sameOutcome`).
-/
import ArithLang.Proofs.Layout
import ArithLang.Proofs.Slice
import ArithLang.Proofs.Threshold
import Mathlib.Data.List.Forall2

namespace ArithLang

/-! ## Trees with corresponding spans -/

namespace Expr

/-- The same tree but for its spans, and those are related at every node. -/
inductive Alike (R : Span → Span → Prop) : Expr → Expr → Prop where
  | number {text : String} {s s' : Span} (hs : R s s') : Alike R (.number text s) (.number text s')
  | identifier {text : String} {s s' : Span} (hs : R s s') :
      Alike R (.identifier text s) (.identifier text s')
  | unary {op : UnaryOp} {x x' : Expr} {s s' : Span} (hx : Alike R x x') (hs : R s s') :
      Alike R (.unary op x s) (.unary op x' s')
  | binary {op : BinaryOp} {l l' r r' : Expr} {s s' : Span} (hl : Alike R l l')
      (hr : Alike R r r') (hs : R s s') : Alike R (.binary op l r s) (.binary op l' r' s')
  | group {x x' : Expr} {s s' : Span} (hx : Alike R x x') (hs : R s s') :
      Alike R (.group x s) (.group x' s')

/-- The span of an expression is made of the spans of two of its tokens. -/
theorem Spells.exists_span {e : Expr} {ts : List Token} (h : e.Spells ts) :
    ∃ t ∈ ts, ∃ u ∈ ts, e.span = .cover t.span u.span := by
  obtain ⟨t, us, hts, hstart⟩ := h.start_span
  obtain ⟨us', u, hts', hstop⟩ := h.stop_span
  refine ⟨t, by simp [hts], u, by simp [hts'], ?_⟩
  rw [Span.cover, ← hstart, ← hstop]

end Expr

/-- The same statement but for its spans, and those are related at every node. -/
inductive Stmt.Alike (R : Span → Span → Prop) : Stmt → Stmt → Prop where
  | assignment {target : String} {ts ts' : Span} {v v' : Expr} {s s' : Span} (ht : R ts ts')
      (hv : v.Alike R v') (hs : R s s') :
      Alike R (.assignment target ts v s) (.assignment target ts' v' s')
  | expression {e e' : Expr} {s s' : Span} (he : e.Alike R e') (hs : R s s') :
      Alike R (.expression e s) (.expression e' s')

section
variable {R : Span → Span → Prop} {f g : Span → Span}

/-- The two maps relate what is made of the spans of two of the tokens. -/
def RelatesCovers (R : Span → Span → Prop) (f g : Span → Span) (ts : List Token) : Prop :=
  ∀ t ∈ ts, ∀ u ∈ ts, R (f (.cover t.span u.span)) (g (.cover t.span u.span))

theorem RelatesCovers.of_subset {ts us : List Token} (h : RelatesCovers R f g us) (hsub : ts ⊆ us) :
    RelatesCovers R f g ts :=
  fun t ht u hu => h t (hsub ht) u (hsub hu)

theorem RelatesCovers.span {e : Expr} {ts : List Token} (h : RelatesCovers R f g ts)
    (he : e.Spells ts) : R (f e.span) (g e.span) := by
  obtain ⟨t, ht, u, hu, hspan⟩ := he.exists_span
  rw [hspan]
  exact h t ht u hu

/-- Where two maps relate what is made of the spans of tokens, they relate a tree that the tokens
    spell. -/
theorem Expr.Spells.alike {e : Expr} {ts : List Token} (h : e.Spells ts)
    (hR : RelatesCovers R f g ts) : (e.mapSpan f).Alike R (e.mapSpan g) := by
  have hspan := hR.span h
  induction h with
  | literal he =>
      rcases literal?_eq_some_iff.1 he with ⟨-, rfl⟩ | ⟨-, rfl⟩
      · exact .number hspan
      · exact .identifier hspan
  | unary ht hx ih =>
      have hR' := hR.of_subset (List.subset_cons_self _ _)
      exact .unary (ih hR' (hR'.span hx)) hspan
  | binary hl ht hr ihl ihr =>
      have hRl := hR.of_subset (List.subset_append_left _ _)
      have hRr := hR.of_subset fun t ht => List.mem_append_right _ (List.mem_cons_of_mem _ ht)
      exact .binary (ihl hRl (hRl.span hl)) (ihr hRr (hRr.span hr)) hspan
  | group ho hx hc ih =>
      have hR' := hR.of_subset fun t ht => List.mem_cons_of_mem _ (List.mem_append_left _ ht)
      exact .group (ih hR' (hR'.span hx)) hspan

theorem Stmt.Spells.alike {st : Stmt} {ts : List Token} (h : st.Spells ts)
    (hR : RelatesCovers R f g ts) : (st.mapSpan f).Alike R (st.mapSpan g) := by
  cases h with
  | @assignment name eq v ts hn he hv =>
      have hR' := hR.of_subset fun t ht => List.mem_cons_of_mem _ (List.mem_cons_of_mem _ ht)
      obtain ⟨t, ht, u, hu, hspan⟩ := hv.exists_span
      have hname : name ∈ name :: eq :: ts := by simp
      refine .assignment (hR name hname name hname) (hv.alike hR') ?_
      have hstmt : Span.cover name.span v.span = .cover name.span u.span := by rw [hspan]; rfl
      rw [hstmt]
      exact hR name hname u (by simp [hu])
  | expression he => exact .expression (he.alike hR) (hR.span he)

end

/-! ## Spans replaced -/

/-- The last of the tokens marks the end. -/
def EndMarked (us : List Token) : Prop := (us.map Token.kind).getLast? = some .eof

theorem endMarked_iff {us : List Token} :
    EndMarked us ↔ ∃ ts fin, us = ts ++ [fin] ∧ fin.kind = .eof := by
  unfold EndMarked
  rw [List.getLast?_map, Option.map_eq_some_iff]
  constructor
  · intro h
    obtain ⟨fin, hlast, hfin⟩ := h
    obtain ⟨ts, rfl⟩ := List.getLast?_eq_some_iff.1 hlast
    exact ⟨ts, fin, rfl, hfin⟩
  · intro h
    obtain ⟨ts, fin, rfl, hfin⟩ := h
    exact ⟨fin, List.getLast?_concat, hfin⟩

theorem endMarked_of_tokenize {source : String} {us : List Token}
    (h : tokenize source = .ok us) : EndMarked us := by
  obtain ⟨ls, -, -, rfl⟩ := tokenize_eq_ok_iff.1 h
  exact endMarked_iff.2 ⟨_, _, rfl, rfl⟩

theorem EndMarked.of_map_kind {us us' : List Token} (h : EndMarked us)
    (hkind : us'.map Token.kind = us.map Token.kind) : EndMarked us' := by
  unfold EndMarked at h ⊢
  rw [hkind]
  exact h

section
variable {f : Span → Span} (hf : ∀ a b : Span, f (.cover a b) = .cover (f a) (f b))

include hf

/-- Where a replaced span starts depends only on where the span started. -/
theorem start_eq_of_cover (s : Span) : (f s).start = (f (.point s.start)).start := by
  have hcover : f s = .cover (f (.point s.start)) (f s) := hf (.point s.start) s
  rw [hcover, Span.start_cover]

theorem Fault.errorAt_mapSpan (limit : Nat) (t : Token) (fault : Fault) :
    fault.errorAt limit (t.mapSpan f) =
      ⟨(fault.errorAt limit t).cause, (f (.point (fault.errorAt limit t).position)).start⟩ := by
  have hstart := start_eq_of_cover hf t.span
  cases fault <;> exact congrArg (ParseError.mk _) hstart

/-- Tokens with other spans are read as the same statements with these spans, or refused for the
    same cause at the same token. -/
theorem parseTokens_mapSpan {us : List Token} (hus : EndMarked us) (o : Options) :
    (∀ p, parseTokens us o = .ok p →
      parseTokens (us.map (Token.mapSpan f)) o =
        .ok ⟨p.body.map (Stmt.mapSpan f), ⟨0, (f (.point p.span.stop)).start⟩⟩) ∧
    ∀ e, parseTokens us o = .error e →
      parseTokens (us.map (Token.mapSpan f)) o =
        .error ⟨e.cause, (f (.point e.position)).start⟩ := by
  obtain ⟨ts, fin, rfl, hfin⟩ := endMarked_iff.1 hus
  have hfin' : (fin.mapSpan f).kind = .eof := hfin
  have hfront : ∀ rest : List Token,
      (rest.map (Token.mapSpan f)).headD (fin.mapSpan f) = (rest.headD fin).mapSpan f := by
    intro rest
    cases rest <;> rfl
  rw [List.map_append, List.map_singleton]
  constructor
  · intro p hp
    obtain ⟨rest, h, hspan⟩ := (parseTokens_eq_ok_iff hfin).1 hp
    refine (parseTokens_eq_ok_iff hfin').2 ⟨_, h.map hf, ?_⟩
    rw [hfront, hspan]
    exact congrArg (Span.mk 0) (start_eq_of_cover hf _).symm
  · intro e he
    obtain ⟨fault, rest, h, rfl⟩ := (parseTokens_eq_error_iff hfin).1 he
    refine (parseTokens_eq_error_iff hfin').2 ⟨fault, _, h.map hf, ?_⟩
    rw [hfront, Fault.errorAt_mapSpan hf]

end

/-! ## Tokens numbered -/

/-- The tokens, each with its number in place of its span. -/
def numbered (us : List Token) : List Token := us.mapIdx fun i t => t.mapSpan fun _ => .point i

/-- The span of the token with the given number. -/
def spanAt (us : List Token) (i : Nat) : Span := (us[i]?.map Token.span).getD (.point 0)

/-- From the start of one token to the stop of another, which a pair of numbers stands for. -/
def place (us : List Token) (s : Span) : Span := .cover (spanAt us s.start) (spanAt us s.stop)

theorem place_cover (us : List Token) (a b : Span) :
    place us (.cover a b) = .cover (place us a) (place us b) := rfl

theorem spanAt_eq {us : List Token} {i : Nat} (h : i < us.length) : spanAt us i = us[i].span := by
  simp [spanAt, h]

theorem start_place {us : List Token} {i : Nat} (h : i < us.length) :
    (place us (.point i)).start = us[i].span.start := by
  rw [← spanAt_eq h]
  rfl

theorem numbered_mapSpan (us : List Token) :
    (numbered us).map (Token.mapSpan (place us)) = us := by
  refine List.ext_getElem (by simp [numbered]) fun i hi hi' => ?_
  have hplace : place us (.point i) = us[i].span := spanAt_eq hi'
  simp [numbered, Token.mapSpan, hplace]

theorem map_kind_numbered (us : List Token) :
    (numbered us).map Token.kind = us.map Token.kind :=
  List.ext_getElem (by simp [numbered]) fun i hi hi' => by simp [numbered, Token.mapSpan]

/-- Every numbered token bears its number. -/
theorem exists_span_of_mem_numbered {us : List Token} {t : Token} (h : t ∈ numbered us) :
    ∃ i, i < us.length ∧ t.span = .point i := by
  obtain ⟨i, hi, rfl⟩ := List.mem_iff_getElem.1 h
  exact ⟨i, by simpa [numbered] using hi, by simp [numbered, Token.mapSpan]⟩

/-- Token by token, kind and text agree. -/
def SameWords (us us' : List Token) : Prop :=
  List.Forall₂ (fun t t' => t.kind = t'.kind ∧ t.text = t'.text) us us'

theorem SameWords.numbered_eq {us us' : List Token} (h : SameWords us us') :
    numbered us = numbered us' := by
  obtain ⟨hlen, hget⟩ := List.forall₂_iff_get.1 h
  refine List.ext_getElem (by simpa [numbered] using hlen) fun i hi hi' => ?_
  have hi₀ : i < us.length := by simpa [numbered] using hi
  obtain ⟨hkind, htext⟩ := hget i hi₀ (hlen ▸ hi₀)
  simp only [List.get_eq_getElem] at hkind htext
  simp [numbered, Token.mapSpan, hkind, htext]

/-! ## The same outcome -/

/-- Each span runs from the start of one token to the stop of another of its own list, and these
    two have the same numbers in both lists. -/
def SameTokens (us us' : List Token) (s s' : Span) : Prop :=
  ∃ i j, ∃ (hi : i < us.length) (hj : j < us.length) (hi' : i < us'.length) (hj' : j < us'.length),
    s = ⟨us[i].span.start, us[j].span.stop⟩ ∧ s' = ⟨us'[i].span.start, us'[j].span.stop⟩

/-- Two inputs with the given tokens are read as the same trees, with spans between the same
    tokens, up to the same end mark; or they are refused for the same cause at the same token. -/
inductive SameOutcome (us us' : List Token) :
    Except ParseError Program → Except ParseError Program → Prop where
  | ok {sts sts' : List Stmt} {i : Nat} (hi : i < us.length) (hi' : i < us'.length)
      (hbody : List.Forall₂ (Stmt.Alike (SameTokens us us')) sts sts') :
      SameOutcome us us' (.ok ⟨sts, ⟨0, us[i].span.start⟩⟩) (.ok ⟨sts', ⟨0, us'[i].span.start⟩⟩)
  | error {cause : Cause} {i : Nat} (hi : i < us.length) (hi' : i < us'.length) :
      SameOutcome us us' (.error ⟨cause, us[i].span.start⟩) (.error ⟨cause, us'[i].span.start⟩)

/-- Numbers are replaced by the spans of the tokens that bear them in either list. -/
theorem relatesCovers_numbered {us us' : List Token} (hlen : us.length = us'.length) :
    RelatesCovers (SameTokens us us') (place us) (place us') (numbered us) := by
  intro t ht u hu
  obtain ⟨i, hi, hti⟩ := exists_span_of_mem_numbered ht
  obtain ⟨j, hj, huj⟩ := exists_span_of_mem_numbered hu
  refine ⟨i, j, hi, hj, hlen ▸ hi, hlen ▸ hj, ?_, ?_⟩
  · rw [hti, huj, ← spanAt_eq hi, ← spanAt_eq hj]
    rfl
  · rw [hti, huj, ← spanAt_eq, ← spanAt_eq]
    rfl

/-- A run over numbered tokens ends at the number of one of them, and its statements are spelled
    by some of them. -/
theorem facts_of_parseTokens_numbered {us : List Token} (hus : EndMarked us) (o : Options) :
    (∀ p, parseTokens (numbered us) o = .ok p →
      p.span.stop < us.length ∧
        ∀ st ∈ p.body, ∃ used, used ⊆ numbered us ∧ st.Spells used) ∧
    ∀ e, parseTokens (numbered us) o = .error e → e.position < us.length := by
  obtain ⟨ts, fin, hts, hfin⟩ := endMarked_iff.1 (hus.of_map_kind (map_kind_numbered us))
  have hnumber : ∀ rest, rest <:+ ts → (rest.headD fin).span.start < us.length := by
    intro rest hrest
    obtain ⟨hi, hget⟩ := getElem_of_suffix hrest fin
    have hmem : rest.headD fin ∈ numbered us := by
      rw [hts, ← hget]
      exact List.getElem_mem hi
    obtain ⟨i, hi, hspan⟩ := exists_span_of_mem_numbered hmem
    rw [hspan]
    exact hi
  rw [hts]
  constructor
  · intro p hp
    obtain ⟨rest, hbody, hspan⟩ := (parseTokens_eq_ok_iff hfin).1 hp
    refine ⟨?_, fun st hst => ?_⟩
    · rw [hspan]
      exact hnumber rest hbody.suffix
    · obtain ⟨before, used, after, hused, hsp, -⟩ :=
        hbody.spells_of_mem (BinaryOp.binding_level_lt_unary o.powers) hst
      refine ⟨used, fun t ht => ?_, hsp⟩
      simp [hused, ht]
  · intro e he
    obtain ⟨fault, rest, hfails, rfl⟩ := (parseTokens_eq_error_iff hfin).1 he
    rw [Fault.position_errorAt]
    exact hnumber rest hfails.suffix

/-- Tokens with the same words are read with the same outcome. -/
theorem parseTokens_sameOutcome {us us' : List Token} (hus : EndMarked us) (h : SameWords us us')
    (o : Options) : SameOutcome us us' (parseTokens us o) (parseTokens us' o) := by
  have hlen : us.length = us'.length := h.length_eq
  have hmarked := hus.of_map_kind (map_kind_numbered us)
  -- Both runs are images of the run over the numbered tokens, which are the same.
  have hrun := parseTokens_mapSpan (place_cover us) hmarked o
  have hrun' := parseTokens_mapSpan (place_cover us') hmarked o
  rw [numbered_mapSpan] at hrun
  rw [h.numbered_eq, numbered_mapSpan, ← h.numbered_eq] at hrun'
  obtain ⟨hok, herror⟩ := facts_of_parseTokens_numbered hus o
  cases hp : parseTokens (numbered us) o with
  | ok p =>
      obtain ⟨hstop, hspells⟩ := hok p hp
      have hbody : List.Forall₂ (Stmt.Alike (SameTokens us us'))
          (p.body.map (Stmt.mapSpan (place us))) (p.body.map (Stmt.mapSpan (place us'))) := by
        rw [List.forall₂_map_left_iff, List.forall₂_map_right_iff, List.forall₂_same]
        intro st hst
        obtain ⟨used, hused, hsp⟩ := hspells st hst
        exact hsp.alike ((relatesCovers_numbered hlen).of_subset hused)
      rw [hrun.1 p hp, hrun'.1 p hp, start_place hstop, start_place (hlen ▸ hstop)]
      exact .ok hstop (hlen ▸ hstop) hbody
  | error e =>
      have hposition := herror e hp
      rw [hrun.2 e hp, hrun'.2 e hp, start_place hposition, start_place (hlen ▸ hposition)]
      exact .error hposition (hlen ▸ hposition)

/-- Where the words of an input stand has no part in what they are read as: tokens with the same
    words have the same outcome, and so have texts that are cut into such tokens. -/
theorem parse_of_sameWords (o : Options) :
    (∀ us us' : List Token, EndMarked us → SameWords us us' →
      SameOutcome us us' (parseTokens us o) (parseTokens us' o)) ∧
    ∀ (source source' : String) (us us' : List Token), tokenize source = .ok us →
      tokenize source' = .ok us' → SameWords us us' →
        SameOutcome us us' (parse source o) (parse source' o) := by
  constructor
  · intro us us' hus h
    exact parseTokens_sameOutcome hus h o
  · intro source source' us us' hsource hsource' h
    rw [parse_of_tokenize hsource, parse_of_tokenize hsource']
    exact parseTokens_sameOutcome (endMarked_of_tokenize hsource) h o

/-- `a**2` is read alike with a comment and a blank in it, and `1 +` is refused at its end mark
    wherever its words stand, spans that run backwards included. -/
theorem parse_of_sameWords_power :
    SameOutcome
        [⟨.identifier, "a", ⟨0, 1⟩⟩, ⟨.starStar, "**", ⟨1, 3⟩⟩, ⟨.number, "2", ⟨3, 4⟩⟩, .eof 4]
        [⟨.identifier, "a", ⟨0, 1⟩⟩, ⟨.starStar, "**", ⟨5, 7⟩⟩, ⟨.number, "2", ⟨8, 9⟩⟩, .eof 9]
        (parse "a**2" {}) (parse "a\x7bé\x7d** 2" {}) ∧
      SameOutcome [⟨.number, "1", ⟨0, 1⟩⟩, ⟨.plus, "+", ⟨2, 3⟩⟩, .eof 3]
        [⟨.number, "1", ⟨9, 4⟩⟩, ⟨.plus, "+", ⟨1, 1⟩⟩, ⟨.eof, "EOF", ⟨6, 2⟩⟩]
        (.error ⟨.unexpectedEnd "expression", 3⟩) (.error ⟨.unexpectedEnd "expression", 6⟩) := by
  have hsource : tokenize "a**2" = .ok [⟨.identifier, "a", ⟨0, 1⟩⟩, ⟨.starStar, "**", ⟨1, 3⟩⟩,
      ⟨.number, "2", ⟨3, 4⟩⟩, .eof 4] := by decide +kernel
  have hsource' : tokenize "a\x7bé\x7d** 2" = .ok [⟨.identifier, "a", ⟨0, 1⟩⟩,
      ⟨.starStar, "**", ⟨5, 7⟩⟩, ⟨.number, "2", ⟨8, 9⟩⟩, .eof 9] := by decide +kernel
  have hrun : parseTokens [⟨.number, "1", ⟨0, 1⟩⟩, ⟨.plus, "+", ⟨2, 3⟩⟩, .eof 3] {} =
      .error ⟨.unexpectedEnd "expression", 3⟩ := by decide +kernel
  have hrun' : parseTokens [⟨.number, "1", ⟨9, 4⟩⟩, ⟨.plus, "+", ⟨1, 1⟩⟩,
      ⟨.eof, "EOF", ⟨6, 2⟩⟩] {} = .error ⟨.unexpectedEnd "expression", 6⟩ := by decide +kernel
  constructor
  · apply (parse_of_sameWords {}).2 _ _ _ _ hsource hsource'
    exact .cons ⟨rfl, rfl⟩ (.cons ⟨rfl, rfl⟩ (.cons ⟨rfl, rfl⟩ (.cons ⟨rfl, rfl⟩ .nil)))
  · rw [← hrun, ← hrun']
    apply (parse_of_sameWords {}).1
    · exact rfl
    · exact .cons ⟨rfl, rfl⟩ (.cons ⟨rfl, rfl⟩ (.cons ⟨rfl, rfl⟩ .nil))

end ArithLang
