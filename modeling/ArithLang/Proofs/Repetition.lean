/-
  Statements one behind the other.

  Nothing stands between two statements, so tokens may be cut into statements in several ways:
  `a - b` is one of them or two. The parser takes as much as it can for each statement and never
  goes back (`ReadsCut`).

  Where one statement stops, another can start: it is read in front of the others as it is on its
  own, unless these start with a sign, which it would go on with (`readsStmt_append_iff`). So the
  cut that the parser makes is the only one into statements of which no later one starts with a
  sign (`readsCut_iff`, `ReadsCut.unique`). Any other cut comes to it when such statements are
  joined with the ones in front of them (`exists_readsCut_of_spells`), so nothing is lost that
  could be accepted.
-/
import ArithLang.Proofs.Acceptance
import ArithLang.Proofs.Regrouping
import ArithLang.Proofs.Source
import Mathlib.Data.List.Forall2

namespace ArithLang

variable {b : BinaryOp → Binding} {k : Nat}

/-! ## Where statements meet -/

/-- The tokens start with `+` or `-`. -/
def StartsWithSign (ts : List Token) : Prop := frontKind ts = .plus ∨ frontKind ts = .dash

/-- The tokens are none or start with one that a statement may start with. -/
def StartsAnew (b : BinaryOp → Binding) (ts : List Token) : Prop :=
  ts = [] ∨ (Rules.ofBindings b).start? (frontKind ts) ≠ none

theorem ReadsStmt.start? {st : Stmt} {ts rest : List Token} (h : ReadsStmt b k ts st rest) :
    (Rules.ofBindings b).start? (frontKind ts) ≠ none := by
  cases h with
  | assignment hn he h =>
      rw [frontKind_cons, hn]
      exact fun h' => nomatch h'
  | expression hn h =>
      cases h with
      | go hs h => exact hs.start?

/-- No statement goes on with a token that starts another one, apart from a sign. -/
theorem StartsAnew.frontKind_ne {ts : List Token} (h : StartsAnew b ts)
    (hs : ¬ StartsWithSign ts) :
    frontKind ts ≠ .assignment ∧ ∀ op : BinaryOp, frontKind ts ≠ op.kind := by
  rcases h with rfl | h
  · exact ⟨by decide, fun op => by cases op <;> decide⟩
  · unfold StartsWithSign at hs
    generalize frontKind ts = kind at h hs
    constructor
    · rintro rfl
      exact h rfl
    · intro op hop
      cases op
      case add => exact hs (.inl hop)
      case subtract => exact hs (.inr hop)
      all_goals
        subst hop
        exact h rfl

theorem StartsWithSign.not_stops {ts : List Token} (h : StartsWithSign ts) :
    ¬ Stops b .lowest ts := by
  intro hs
  rcases h with h | h
  · exact Level.not_lt.2 (Level.lowest_le _) (hs .add h)
  · exact Level.not_lt.2 (Level.lowest_le _) (hs .subtract h)

/-- In front of other statements, one is read as on its own if these do not start with a sign. -/
theorem readsStmt_append_iff (hb : ∀ op, (b op).level < .unary) {part rest : List Token}
    {st : Stmt} (hrest : StartsAnew b rest) :
    ReadsStmt b k (part ++ rest) st rest ↔ ReadsStmt b k part st [] ∧ ¬ StartsWithSign rest := by
  constructor
  · intro h
    refine ⟨?_, fun hs => ?_⟩
    · obtain ⟨used, hused, -, hr⟩ := h.change_rest
      obtain rfl := List.append_cancel_right hused
      have hend := hr [] (fun op hop => by cases op <;> cases hop) (fun ha => by cases ha)
      rwa [List.append_nil] at hend
    · obtain ⟨-, -, -, -, -, hstops, -⟩ := (readsStmt_iff hb).1 h
      exact hs.not_stops hstops
  · intro h'
    obtain ⟨h, hs⟩ := h'
    obtain ⟨hassign, hop⟩ := hrest.frontKind_ne hs
    obtain ⟨used, rfl, -, hr⟩ := h.change_rest
    rw [List.append_nil]
    exact hr rest (fun op h => absurd h (hop op)) (fun h => absurd h hassign)

/-! ## The cut that is made -/

/-- The parts of the tokens that statements are read from one after the other, each in front of
    all later ones. -/
inductive ReadsCut (b : BinaryOp → Binding) (k : Nat) : List (List Token) → List Stmt → Prop where
  | nil : ReadsCut b k [] []
  | cons {part : List Token} {parts : List (List Token)} {st : Stmt} {sts : List Stmt}
      (h : ReadsStmt b k (part ++ parts.flatten) st parts.flatten) (hs : ReadsCut b k parts sts) :
      ReadsCut b k (part :: parts) (st :: sts)

variable {parts parts' : List (List Token)} {sts sts' : List Stmt}

theorem ReadsCut.startsAnew (h : ReadsCut b k parts sts) : StartsAnew b parts.flatten := by
  cases h with
  | nil => exact .inl rfl
  | cons h _ => exact .inr h.start?

/-- The statements of an input are read from parts of it. -/
theorem ReadsBody.exists_readsCut {ts : List Token}
    (h : ReadsBody b .repeated k ts sts []) :
    ∃ parts, parts.flatten = ts ∧ ReadsCut b k parts sts := by
  generalize hm : Mode.repeated = mode at h
  generalize hr : ([] : List Token) = rest at h
  induction h with
  | single => cases hm
  | done => exact ⟨[], hr, .nil⟩
  | more _ h _ ih =>
      obtain ⟨parts, rfl, hcut⟩ := ih hm hr
      obtain ⟨part, rfl, -⟩ := h.change_rest
      exact ⟨part :: parts, rfl, .cons h hcut⟩

theorem ReadsCut.readsBody (h : ReadsCut b k parts sts) :
    ReadsBody b .repeated k parts.flatten sts [] := by
  induction h with
  | nil => exact .done rfl
  | cons h _ ih => exact .more h.frontKind_ne_eof h ih

/-- Only one cut of the tokens is made. -/
theorem ReadsCut.unique (h : ReadsCut b k parts sts) (h' : ReadsCut b k parts' sts')
    (hflat : parts.flatten = parts'.flatten) : parts = parts' := by
  induction h generalizing parts' sts' with
  | nil =>
      cases h' with
      | nil => rfl
      | cons h' _ => exact absurd (congrArg frontKind hflat).symm h'.frontKind_ne_eof
  | cons h hs ih =>
      cases h' with
      | nil => exact absurd (congrArg frontKind hflat) h.frontKind_ne_eof
      | cons h' hs' =>
          rw [List.flatten_cons, List.flatten_cons] at hflat
          rw [hflat] at h
          obtain ⟨-, hrest⟩ := h.unique h'
          obtain rfl := ih hs' hrest
          rw [List.append_cancel_right hflat]

/-- It is enough to look at the start of later parts one by one. -/
theorem forall_not_startsWithSign_iff (hne : ∀ part ∈ parts, part ≠ []) :
    (∀ part ∈ parts, ¬ StartsWithSign part) ↔
      ¬ StartsWithSign parts.flatten ∧ ∀ part ∈ parts.tail, ¬ StartsWithSign part := by
  cases parts with
  | nil => simp [StartsWithSign]
  | cons part parts =>
      have hfront : StartsWithSign (part :: parts).flatten ↔ StartsWithSign part := by
        unfold StartsWithSign
        rw [List.flatten_cons, frontKind_append (hne part (by simp))]
      rw [hfront, List.forall_mem_cons]
      rfl

theorem ReadsStmt.ne_nil {st : Stmt} {ts rest : List Token} (h : ReadsStmt b k ts st rest) :
    ts ≠ [] := by
  rintro rfl
  exact h.frontKind_ne_eof rfl

/-- What each element has, a list has for all of them. -/
theorem forall_exists_iff_forall₂ {α β : Type} {R : α → β → Prop} {xs : List α} :
    (∀ x ∈ xs, ∃ y, R x y) ↔ ∃ ys, List.Forall₂ R xs ys := by
  constructor
  · intro h
    induction xs with
    | nil => exact ⟨[], .nil⟩
    | cons x xs ih =>
        obtain ⟨⟨y, hy⟩, h⟩ := List.forall_mem_cons.1 h
        obtain ⟨ys, hys⟩ := ih h
        exact ⟨y :: ys, .cons hy hys⟩
  · intro h
    obtain ⟨ys, hys⟩ := h
    induction hys with
    | nil => simp
    | cons h _ ih => exact List.forall_mem_cons.2 ⟨⟨_, h⟩, ih⟩

theorem forall₂_ne_nil (h : List.Forall₂ (fun part st => ReadsStmt b k part st []) parts sts) :
    ∀ part ∈ parts, part ≠ [] := by
  intro part hpart
  obtain ⟨st, hst⟩ := forall_exists_iff_forall₂.2 ⟨sts, h⟩ part hpart
  exact hst.ne_nil

theorem forall_exists_spells (hb : ∀ op, (b op).level < .unary)
    (h : List.Forall₂ (fun part st => ReadsStmt b k part st []) parts sts) :
    ∀ part ∈ parts, ∃ st : Stmt, st.Spells part := by
  intro part hpart
  obtain ⟨st, hst⟩ := forall_exists_iff_forall₂.2 ⟨sts, h⟩ part hpart
  exact ⟨st, ((readsStmt_nil_iff hb).1 hst).1⟩

/-- The cut that is made is one into statements of which no later one starts with a sign. -/
theorem readsCut_iff (hb : ∀ op, (b op).level < .unary) :
    ReadsCut b k parts sts ↔
      List.Forall₂ (fun part st => ReadsStmt b k part st []) parts sts ∧
        ∀ part ∈ parts.tail, ¬ StartsWithSign part := by
  constructor
  · intro h
    induction h with
    | nil => exact ⟨.nil, by simp⟩
    | cons h hs ih =>
        obtain ⟨hall, hlater⟩ := ih
        obtain ⟨hst, hsign⟩ := (readsStmt_append_iff hb hs.startsAnew).1 h
        exact ⟨.cons hst hall,
          (forall_not_startsWithSign_iff (forall₂_ne_nil hall)).2 ⟨hsign, hlater⟩⟩
  · intro h'
    obtain ⟨hall, hlater⟩ := h'
    induction hall with
    | nil => exact .nil
    | cons hst hall ih =>
        obtain ⟨hsign, hlater'⟩ :=
          (forall_not_startsWithSign_iff (forall₂_ne_nil hall)).1 hlater
        have hcut := ih hlater'
        exact .cons ((readsStmt_append_iff hb hcut.startsAnew).2 ⟨hst, hsign⟩) hcut

/-! ## Other cuts -/

/-- An expression and one that starts with a sign are an expression together. -/
theorem Expr.Spells.exists_append {e e' : Expr} {ts ts' : List Token} (h : e.Spells ts)
    (h' : e'.Spells ts') (hs : StartsWithSign ts') : ∃ m : Expr, m.Spells (ts ++ ts') := by
  induction h' with
  | literal he =>
      rcases literal?_eq_some_iff.1 he with ⟨hk, -⟩ | ⟨hk, -⟩ <;> simp [StartsWithSign, hk] at hs
  | @unary op t x xs ht hx _ =>
      cases op with
      | plus => exact ⟨.binary .add _ _ _, .binary h ht hx⟩
      | minus => exact ⟨.binary .subtract _ _ _, .binary h ht hx⟩
  | @binary op t l r ls rs hl ht hr ihl _ =>
      have hs' : StartsWithSign ls := by
        unfold StartsWithSign at hs ⊢
        rwa [frontKind_append hl.ne_nil] at hs
      obtain ⟨m, hm⟩ := ihl hs'
      rw [← List.append_assoc]
      exact ⟨_, .binary hm ht hr⟩
  | group ho _ _ => simp [StartsWithSign, ho] at hs

theorem Stmt.Spells.exists_append {st st' : Stmt} {ts ts' : List Token} (h : st.Spells ts)
    (h' : st'.Spells ts') (hs : StartsWithSign ts') : ∃ m : Stmt, m.Spells (ts ++ ts') := by
  cases h' with
  | assignment hn he hv => simp [StartsWithSign, hn] at hs
  | expression he' =>
      cases h with
      | assignment hn he hv =>
          obtain ⟨m, hm⟩ := hv.exists_append he' hs
          exact ⟨_, .assignment hn he hm⟩
      | expression he =>
          obtain ⟨m, hm⟩ := he.exists_append he' hs
          exact ⟨_, .expression hm⟩

/-- Tokens that can be cut into statements somehow are cut into statements. -/
theorem exists_readsCut_of_spells (hb : ∀ op, (b op).level < .unary)
    (h : ∀ part ∈ parts, ∃ st : Stmt, st.Spells part) (hk : parts.flatten.length ≤ k) :
    ∃ parts' sts, parts'.flatten = parts.flatten ∧ ReadsCut b k parts' sts := by
  induction parts with
  | nil => exact ⟨[], [], rfl, .nil⟩
  | cons part parts ih =>
      obtain ⟨⟨st, hst⟩, h⟩ := List.forall_mem_cons.1 h
      rw [List.flatten_cons, List.length_append] at hk
      obtain ⟨parts', sts, hflat, hcut⟩ := ih h (by omega)
      rw [List.flatten_cons, ← hflat]
      rw [← hflat] at hk
      by_cases hsign : StartsWithSign parts'.flatten
      · cases hcut with
        | nil => simp [StartsWithSign] at hsign
        | @cons part' parts' st' sts h' hcut =>
            -- The first of the later parts goes on with the new one.
            obtain ⟨hst', hlater⟩ := (readsStmt_append_iff hb hcut.startsAnew).1 h'
            have hsign' : StartsWithSign part' := by
              unfold StartsWithSign at hsign ⊢
              rwa [List.flatten_cons, frontKind_append hst'.ne_nil] at hsign
            rw [List.flatten_cons, List.length_append] at hk
            have hk' : (part ++ part').length ≤ k := by
              rw [List.length_append]
              omega
            have hm := hst.exists_append ((readsStmt_nil_iff hb).1 hst').1 hsign'
            obtain ⟨m, hm⟩ := (exists_readsStmt_iff hb hk').2 hm
            have hjoin := (readsStmt_append_iff hb hcut.startsAnew).2 ⟨hm, hlater⟩
            exact ⟨(part ++ part') :: parts', m :: sts, by simp, .cons hjoin hcut⟩
      · obtain ⟨st', hst'⟩ := (exists_readsStmt_iff hb (k := k) (by omega)).2 ⟨st, hst⟩
        have hfirst := (readsStmt_append_iff hb hcut.startsAnew).2 ⟨hst', hsign⟩
        exact ⟨part :: parts', st' :: sts, rfl, .cons hfirst hcut⟩

/-! ## Whole inputs -/

section
variable {powers : Associativity} {limit : Nat} {fin : Token} {ts : List Token}

/-- The tokens cut into consecutive parts, each of which is accepted as a single statement. -/
structure IsCut (powers : Associativity) (limit : Nat) (fin : Token) (ts : List Token)
    (parts : List (List Token)) : Prop where
  flatten : parts.flatten = ts
  accepted : ∀ part ∈ parts, ∃ p, parseTokens (part ++ [fin]) ⟨.single, limit, powers⟩ = .ok p

/-- On its own, a statement that is read up to the end is accepted. -/
theorem ReadsStmt.exists_parseTokens (hfin : fin.kind = .eof) {st : Stmt}
    (h : ReadsStmt (BinaryOp.binding powers) limit ts st []) :
    ∃ p, parseTokens (ts ++ [fin]) ⟨.single, limit, powers⟩ = .ok p ∧ p.body = [st] :=
  ⟨⟨[st], _⟩, (parseTokens_eq_ok_iff hfin).2 ⟨[], .single h rfl, rfl⟩, rfl⟩

theorem exists_readsStmt_of_parseTokens (hfin : fin.kind = .eof) (hts : ∀ t ∈ ts, t.kind ≠ .eof)
    {p : Program} (h : parseTokens (ts ++ [fin]) ⟨.single, limit, powers⟩ = .ok p) :
    ∃ st, ReadsStmt (BinaryOp.binding powers) limit ts st [] := by
  obtain ⟨rest, hbody, -⟩ := (parseTokens_eq_ok_iff hfin).1 h
  obtain ⟨st, -, -, hst⟩ := (readsBody_single_iff hts).1 hbody
  exact ⟨st, (readsStmt_nil_iff (BinaryOp.binding_level_lt_unary powers)).2 hst⟩

/-- The parts of a cut have statements. -/
theorem IsCut.exists_forall₂ (hfin : fin.kind = .eof) (hts : ∀ t ∈ ts, t.kind ≠ .eof)
    (h : IsCut powers limit fin ts parts) :
    ∃ sts, List.Forall₂ (fun part st => ReadsStmt (BinaryOp.binding powers) limit part st [])
      parts sts := by
  refine forall_exists_iff_forall₂.1 fun part hpart => ?_
  obtain ⟨p, hp⟩ := h.accepted part hpart
  refine exists_readsStmt_of_parseTokens hfin (fun t ht => hts t ?_) hp
  rw [← h.flatten]
  exact List.mem_flatten.2 ⟨part, hpart, ht⟩

/-- A cut without later signs is the one that the parser makes. -/
theorem IsCut.exists_readsCut (hfin : fin.kind = .eof) (hts : ∀ t ∈ ts, t.kind ≠ .eof)
    (h : IsCut powers limit fin ts parts) (hlater : ∀ part ∈ parts.tail, ¬ StartsWithSign part) :
    ∃ sts, ReadsCut (BinaryOp.binding powers) limit parts sts := by
  obtain ⟨sts, hall⟩ := h.exists_forall₂ hfin hts
  exact ⟨sts, (readsCut_iff (BinaryOp.binding_level_lt_unary powers)).2 ⟨hall, hlater⟩⟩

/-- Tokens with any cut are accepted, with a level of nesting for each token. -/
theorem IsCut.exists_parseTokens (hfin : fin.kind = .eof) (hts : ∀ t ∈ ts, t.kind ≠ .eof)
    (h : IsCut powers limit fin ts parts) (hlimit : ts.length ≤ limit) :
    ∃ p, parseTokens (ts ++ [fin]) ⟨.repeated, limit, powers⟩ = .ok p := by
  have hb := BinaryOp.binding_level_lt_unary powers
  obtain ⟨sts, hall⟩ := h.exists_forall₂ hfin hts
  obtain ⟨parts', sts', hflat, hcut⟩ :=
    exists_readsCut_of_spells hb (forall_exists_spells hb hall) (h.flatten ▸ hlimit)
  have hbody := hcut.readsBody
  rw [hflat, h.flatten] at hbody
  exact ⟨⟨sts', _⟩, (parseTokens_eq_ok_iff hfin).2 ⟨[], hbody, rfl⟩⟩

/-- Several statements are accepted as what is read from the parts of a cut. -/
theorem exists_readsCut_of_parseTokens (hfin : fin.kind = .eof) (hts : ∀ t ∈ ts, t.kind ≠ .eof)
    {p : Program} (h : parseTokens (ts ++ [fin]) ⟨.repeated, limit, powers⟩ = .ok p) :
    ∃ parts, parts.flatten = ts ∧ ReadsCut (BinaryOp.binding powers) limit parts p.body := by
  obtain ⟨rest, hbody, -⟩ := (parseTokens_eq_ok_iff hfin).1 h
  obtain rfl := hbody.rest_eq_nil hts
  exact hbody.exists_readsCut

theorem ReadsCut.isCut (hfin : fin.kind = .eof)
    (h : ReadsCut (BinaryOp.binding powers) limit parts sts) :
    IsCut powers limit fin parts.flatten parts := by
  obtain ⟨hall, -⟩ := (readsCut_iff (BinaryOp.binding_level_lt_unary powers)).1 h
  refine ⟨rfl, fun part hpart => ?_⟩
  obtain ⟨st, hst⟩ := forall_exists_iff_forall₂.2 ⟨sts, hall⟩ part hpart
  obtain ⟨p, hp, -⟩ := hst.exists_parseTokens hfin
  exact ⟨p, hp⟩

/-- Several statements are accepted exactly when the tokens can be cut into parts that are each
    accepted as one. Among such cuts there is one of which no later part starts with a sign, and
    the statements of its parts are those that are returned. -/
theorem parseTokens_repeated_iff_cut (hfin : fin.kind = .eof) (hts : ∀ t ∈ ts, t.kind ≠ .eof)
    (hlimit : ts.length ≤ limit) :
    ((∃ p, parseTokens (ts ++ [fin]) ⟨.repeated, limit, powers⟩ = .ok p) ↔
      ∃ parts, IsCut powers limit fin ts parts) ∧
    ∀ p, parseTokens (ts ++ [fin]) ⟨.repeated, limit, powers⟩ = .ok p →
      ∃ parts, (IsCut powers limit fin ts parts ∧ ∀ part ∈ parts.tail, ¬ StartsWithSign part) ∧
        (∀ parts', IsCut powers limit fin ts parts' →
          (∀ part ∈ parts'.tail, ¬ StartsWithSign part) → parts' = parts) ∧
        List.Forall₂ (fun part st => ∃ q,
          parseTokens (part ++ [fin]) ⟨.single, limit, powers⟩ = .ok q ∧ q.body = [st])
          parts p.body := by
  have hb := BinaryOp.binding_level_lt_unary powers
  refine ⟨⟨?_, ?_⟩, ?_⟩
  · intro h
    obtain ⟨p, hp⟩ := h
    obtain ⟨parts, rfl, hcut⟩ := exists_readsCut_of_parseTokens hfin hts hp
    exact ⟨parts, hcut.isCut hfin⟩
  · intro h
    obtain ⟨parts, hcut⟩ := h
    exact hcut.exists_parseTokens hfin hts hlimit
  · intro p hp
    obtain ⟨parts, rfl, hcut⟩ := exists_readsCut_of_parseTokens hfin hts hp
    obtain ⟨hall, hlater⟩ := (readsCut_iff hb).1 hcut
    refine ⟨parts, ⟨hcut.isCut hfin, hlater⟩, fun parts' h' hlater' => ?_,
      hall.imp fun part st hst => hst.exists_parseTokens hfin⟩
    obtain ⟨sts', hcut'⟩ := h'.exists_readsCut hfin hts hlater'
    exact hcut'.unique hcut h'.flatten

/-- `a - b x = 1` is cut in front of `x` and nowhere else. -/
theorem parseTokens_repeated_difference :
    ∃ parts, (IsCut .left 6 (.eof 9) [⟨.identifier, "a", ⟨0, 1⟩⟩, ⟨.dash, "-", ⟨2, 3⟩⟩,
        ⟨.identifier, "b", ⟨4, 5⟩⟩, ⟨.identifier, "x", ⟨6, 7⟩⟩, ⟨.assignment, "=", ⟨7, 8⟩⟩,
        ⟨.number, "1", ⟨8, 9⟩⟩] parts ∧ ∀ part ∈ parts.tail, ¬ StartsWithSign part) ∧
      parts.length = 2 := by
  have hp : parseTokens ([⟨.identifier, "a", ⟨0, 1⟩⟩, ⟨.dash, "-", ⟨2, 3⟩⟩,
        ⟨.identifier, "b", ⟨4, 5⟩⟩, ⟨.identifier, "x", ⟨6, 7⟩⟩, ⟨.assignment, "=", ⟨7, 8⟩⟩,
        ⟨.number, "1", ⟨8, 9⟩⟩] ++ [.eof 9]) ⟨.repeated, 6, .left⟩ =
      .ok ⟨[.expression (.binary .subtract (.identifier "a" ⟨0, 1⟩) (.identifier "b" ⟨4, 5⟩)
          ⟨0, 5⟩) ⟨0, 5⟩,
        .assignment "x" ⟨6, 7⟩ (.number "1" ⟨8, 9⟩) ⟨6, 9⟩], ⟨0, 9⟩⟩ := by
    decide +kernel
  obtain ⟨parts, hparts, -, hall⟩ :=
    (parseTokens_repeated_iff_cut rfl (by decide) (by decide)).2 _ hp
  exact ⟨parts, hparts, hall.length_eq⟩

end

end ArithLang
