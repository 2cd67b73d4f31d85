/-
  An expression is read as far as it goes.

  A floor admits the expressions that keep to the tiers and whose operator on top, if there is one,
  binds as tightly as the floor asks (`Expr.Admissible`). What is read at a floor is the longest
  one that the tokens begin with: if an expression is the front part of a longer one, an operator
  that reaches the floor stands behind it, and there the reader does not stop
  (`Part.not_stops_of_append`).

  A higher floor reads less of the same tokens. It stops in front of the first operator of the left
  spine that does not reach it, behind a node of that spine (`Part.exists_mem_leftSpine`). This
  takes no more levels of nesting, so a higher floor succeeds where a lower one does
  (`Reads.exists_of_le`).

  `expr_longest` says both of the parser, in any state, by the cursor in its list of tokens.
-/
import ArithLang.Proofs.Acceptance
import ArithLang.Proofs.Regrouping
import ArithLang.Proofs.Session

namespace ArithLang

/-! ## What a floor admits -/

theorem BinaryOp.rank_level_binding (powers : Associativity) (op : BinaryOp) :
    (op.binding powers).level.rank = op.tier := by
  cases op <;> rfl

namespace Expr

/-- The expression is made of just these tokens and keeps to the tiers, and if an operator is on
    top, it binds as tightly as the floor asks. -/
structure Admissible (powers : Associativity) (floor : Level) (ts : List Token) (e : Expr) :
    Prop where
  yield : e.yield = ts.map Token.shape
  precedence : e.KeepsPrecedence powers
  top : ∀ op, e.topOp? = some op → floor.rank ≤ op.tier

/-- The tokens from index `i` to index `j` make up the expression. It does not go on at its floor
    there, and the floor admits no longer expression from index `i` on. -/
structure Longest (powers : Associativity) (floor : Level) (tokens : List Token) (i j : Nat)
    (e : Expr) : Prop where
  admissible : e.Admissible powers floor (tokens.extract i j)
  stop : ∃ hj : j < tokens.length, ∀ op : BinaryOp, tokens[j].kind = op.kind →
    op.tier < floor.rank
  longest : ∀ k, j < k → ∀ x : Expr, ¬ x.Admissible powers floor (tokens.extract i k)

/-- The expression, its left operand, the left operand of that one, and so on, down to the first
    node without an operator between two operands. -/
def leftSpine : Expr → List Expr
  | binary op l r s => binary op l r s :: l.leftSpine
  | e => [e]

theorem mem_leftSpine_self (e : Expr) : e ∈ e.leftSpine := by
  cases e <;> simp [leftSpine]

section
variable {powers : Associativity} {floor : Level} {ts : List Token} {e : Expr}

theorem atFloor_binding_iff (powers : Associativity) (e : Expr) :
    e.AtFloor (BinaryOp.binding powers) floor ↔
      ∀ op, e.topOp? = some op → floor.rank ≤ op.tier := by
  cases e <;> simp [AtFloor, topOp?, Level.le_def, BinaryOp.rank_level_binding]

theorem Part.admissible (h : e.Part (BinaryOp.binding powers) floor ts) :
    e.Admissible powers floor ts :=
  ⟨h.spells.yield, (canonical_binding_iff e).1 h.canonical,
    (atFloor_binding_iff powers e).1 h.atFloor⟩

/-- What a floor admits can be given the spans of its tokens. -/
theorem Admissible.exists_part (h : e.Admissible powers floor ts) :
    ∃ e' : Expr, e'.Part (BinaryOp.binding powers) floor ts := by
  obtain ⟨e', hspells, hbare⟩ := exists_spells_of_yield h.yield
  have hcanonical := (canonical_binding_iff e).2 h.precedence
  have hfloor := (atFloor_binding_iff powers e).2 h.top
  exact ⟨e', hspells, (canonical_iff_of_bare hbare).2 hcanonical,
    (atFloor_iff_of_bare hbare).2 hfloor⟩

end

end Expr

variable {b : BinaryOp → Binding} {k : Nat} {floor floor' : Level}
  {ts used more rest front : List Token} {e x : Expr} {powers : Associativity}

/-! ## Nothing longer -/

namespace Expr

/-- Behind an expression, a longer one of the same floor goes on with an operator that reaches
    the floor. -/
theorem Part.not_stops_of_append (hb : ∀ op, (b op).level < .unary) (he : e.Part b floor used)
    (hx : x.Part b floor (used ++ more)) (hmore : more ≠ []) : ¬ Stops b floor more := by
  intro hstops
  have hshort := he.reads hb hstops (Nat.le_refl e.need)
  have hlong := hx.reads hb (stops_nil floor) (Nat.le_refl x.need)
  rw [List.append_nil] at hlong
  exact hmore (hshort.unique hlong).2

/-- An expression with other tokens on both sides is the longest if its floor is not reached
    behind it. -/
theorem Part.longest (h : e.Part (BinaryOp.binding powers) floor used)
    (hstops : Stops (BinaryOp.binding powers) floor rest) (hrest : rest ≠ []) :
    e.Longest powers floor (front ++ (used ++ rest)) front.length
      (front.length + used.length) := by
  obtain ⟨t, rest, rfl⟩ := List.exists_cons_of_ne_nil hrest
  refine ⟨?_, ⟨by simp, fun op hop => ?_⟩, fun k hk x hx => ?_⟩
  · simpa using h.admissible
  · have hkind : t.kind = op.kind := by simpa using hop
    rw [← op.rank_level_binding powers]
    exact hstops op hkind
  · obtain ⟨n, rfl⟩ := Nat.exists_eq_add_of_lt hk
    have hextract : (front ++ (used ++ t :: rest)).extract front.length
        (front.length + used.length + n + 1) = used ++ t :: rest.take n := by
      rw [List.extract_eq_take_drop, List.drop_left, Nat.add_assoc, Nat.add_assoc,
        Nat.add_sub_cancel_left, List.take_length_add_append, List.take_succ_cons]
    rw [hextract] at hx
    obtain ⟨x', hx'⟩ := hx.exists_part
    have hgoes := h.not_stops_of_append (BinaryOp.binding_level_lt_unary powers) hx'
      (List.cons_ne_nil t _)
    exact hgoes (hstops.of_goesOnAs (goesOnAs_of_frontKind rfl))

end Expr

/-! ## Higher floors -/

theorem Stops.of_le (h : Stops b floor ts) (hf : floor ≤ floor') : Stops b floor' ts :=
  fun op hop => Level.lt_of_lt_of_le (h op hop) hf

/-- Of an expression behind which a floor is not reached, the floor takes a node of the left
    spine. -/
theorem Expr.Part.exists_mem_leftSpine (h : e.Part b .lowest used) (hstops : Stops b floor rest) :
    ∃ x ∈ e.leftSpine, ∃ used' rest', used ++ rest = used' ++ rest' ∧ x.Part b floor used' ∧
      Stops b floor rest' ∧ x.need ≤ e.need := by
  induction e generalizing used rest with
  | binary op l r s ihl _ =>
      by_cases hop : (b op).level < floor
      · -- The operator on top does not reach the floor, and reading stops in front of it.
        obtain ⟨ls, t, rs, rfl, ht, hl, -, -⟩ := h.of_binary
        have hbefore : Stops b floor (t :: (rs ++ rest)) := by
          intro op' hop'
          obtain rfl := BinaryOp.eq_of_kind_eq (ht.symm.trans hop')
          exact hop
        obtain ⟨x, hx, used', rest', hsplit, hpart, hstops', hneed⟩ := ihl hl hbefore
        refine ⟨x, List.mem_cons_of_mem _ hx, used', rest', ?_, hpart, hstops', ?_⟩
        · rwa [List.append_assoc]
        · exact Nat.le_trans hneed (Nat.le_max_left _ _)
      · exact ⟨_, mem_leftSpine_self _, used, rest, rfl,
          ⟨h.spells, h.canonical, Level.not_lt.1 hop⟩, hstops, Nat.le_refl _⟩
  | _ =>
      exact ⟨_, mem_leftSpine_self _, used, rest, rfl, ⟨h.spells, h.canonical, trivial⟩, hstops,
        Nat.le_refl _⟩

/-- A higher floor reads a node of the left spine of what a lower one reads. -/
theorem Reads.exists_of_le (hb : ∀ op, (b op).level < .unary)
    (h : Reads b k floor (.whole .start) ts e rest) (hf : floor ≤ floor') :
    ∃ x ∈ e.leftSpine, ∃ rest', Reads b k floor' (.whole .start) ts x rest' := by
  obtain ⟨used, rfl, hpart, hstops, hneed⟩ := h.exists_used
  obtain ⟨x, hx, used', rest', hsplit, hpart', hstops', hneed'⟩ :=
    hpart.lowest.exists_mem_leftSpine (hstops.of_le hf)
  refine ⟨x, hx, rest', ?_⟩
  rw [hsplit]
  exact hpart'.reads hb hstops' (Nat.le_trans hneed' hneed)

/-! ## The parser -/

theorem State.cursor_append (front : List Token) (s : State) :
    s.cursor (front ++ s.stream.toList) = front.length := by
  simp [State.cursor]

/-- With the rules of the language, wherever the cursor of a parser stands in its list of tokens and
    however deep it is, an expression that is read at a floor is the longest one that the floor
    admits from there, and the cursor moves behind it. From the same state every higher floor
    succeeds as well, with this expression or a node of its left spine. -/
theorem expr_longest {tokens : List Token} {s s' : State} (hrules : s.rules = .standard powers)
    (htokens : s.stream.toList <:+ tokens) (h : Parser.expr floor s = .ok e s') :
    s'.stream.toList <:+ tokens ∧ s.cursor tokens < s'.cursor tokens ∧
      e.Longest powers floor tokens (s.cursor tokens) (s'.cursor tokens) ∧
      ∀ floor', floor ≤ floor' →
        ∃ x ∈ e.leftSpine, ∃ s'', Parser.expr floor' s = .ok x s'' := by
  rw [Rules.standard_eq_ofBindings] at hrules
  obtain ⟨hsame, hreads⟩ := Parser.reads_of_expr_run hrules h
  obtain ⟨used, hused, hpart, hstops, -⟩ := hreads.exists_used
  obtain ⟨front, rfl⟩ := htokens
  have hlist : s.stream.toList = used ++ s'.stream.toList := by
    rw [Stream.toList, Stream.toList, hsame.final, ← List.append_assoc, ← hused]
  have hcursor : s'.cursor (front ++ s.stream.toList) = front.length + used.length := by
    rw [hlist, ← List.append_assoc, State.cursor_append, List.length_append]
  obtain ⟨behind, hbehind⟩ := s'.stream.toList_eq_cons
  have hstops' : Stops (BinaryOp.binding powers) floor s'.stream.toList := by
    rw [hbehind]
    exact hstops.of_goesOnAs (goesOnAs_of_frontKind s'.frontKind_ahead.symm)
  have hne : s'.stream.toList ≠ [] := by
    rw [hbehind]
    exact List.cons_ne_nil _ _
  rw [State.cursor_append, hcursor]
  refine ⟨?_, ?_, ?_, fun floor' hf => ?_⟩
  · rw [hlist, ← List.append_assoc]
    exact List.suffix_append _ _
  · exact Nat.lt_add_of_pos_right (List.length_pos_iff.2 hpart.spells.ne_nil)
  · rw [hlist]
    exact hpart.longest hstops' hne
  · obtain ⟨x, hx, rest, hreads'⟩ :=
      hreads.exists_of_le (BinaryOp.binding_level_lt_unary powers) hf
    exact ⟨x, hx, Parser.exists_expr_run hrules hreads'⟩

/-- In `x=2**3**y*5+4`, behind the `=` and one level deep, the longest product ends in front of the
    `+`. The floor of powers reads a node of its left spine. -/
theorem expr_longest_product :
    ∃ tokens e s', tokenize "x=2**3**y*5+4" = .ok tokens ∧
      let s := session (.ofTokens tokens { powers := .right }) [.advance, .advance, .enter]
      s.rules = .standard .right ∧ s.stream.toList <:+ tokens ∧ s.depth = 1 ∧
        Parser.expr .multiplicative s = .ok e s' ∧ e.sexp = "(* (** 2 (** 3 y)) 5)" ∧
        e.Longest .right .multiplicative tokens 2 9 ∧
        ∃ x ∈ e.leftSpine, ∃ s'', Parser.expr .exponent s = .ok x s'' := by
  let tokens : List Token :=
    [⟨.identifier, "x", ⟨0, 1⟩⟩, ⟨.assignment, "=", ⟨1, 2⟩⟩, ⟨.number, "2", ⟨2, 3⟩⟩,
      ⟨.starStar, "**", ⟨3, 5⟩⟩, ⟨.number, "3", ⟨5, 6⟩⟩, ⟨.starStar, "**", ⟨6, 8⟩⟩,
      ⟨.identifier, "y", ⟨8, 9⟩⟩, ⟨.star, "*", ⟨9, 10⟩⟩, ⟨.number, "5", ⟨10, 11⟩⟩,
      ⟨.plus, "+", ⟨11, 12⟩⟩, ⟨.number, "4", ⟨12, 13⟩⟩, .eof 13]
  let s := session (.ofTokens tokens { powers := .right }) [.advance, .advance, .enter]
  let e : Expr := .binary .multiply
    (.binary .power (.number "2" ⟨2, 3⟩)
      (.binary .power (.number "3" ⟨5, 6⟩) (.identifier "y" ⟨8, 9⟩) ⟨5, 9⟩) ⟨2, 9⟩)
    (.number "5" ⟨10, 11⟩) ⟨2, 11⟩
  have hrules : s.rules = .standard .right := rfl
  have htokens : s.stream.toList <:+ tokens := by decide +kernel
  obtain ⟨s', hrun⟩ := Parser.exists_ok_of_run' (p := Parser.expr .multiplicative) (a := e) (s := s)
    (by decide +kernel)
  have hstop : (match Parser.expr .multiplicative s with
      | .ok _ s' => some (s'.cursor tokens)
      | .error _ _ => none) = some 9 := by
    decide +kernel
  rw [hrun] at hstop
  obtain ⟨-, -, hlongest, hhigher⟩ := expr_longest hrules htokens hrun
  rw [Option.some.inj hstop] at hlongest
  exact ⟨tokens, e, s', by decide +kernel, hrules, htokens, rfl, hrun, by decide +kernel, hlongest,
    hhigher .exponent (by decide)⟩

end ArithLang
