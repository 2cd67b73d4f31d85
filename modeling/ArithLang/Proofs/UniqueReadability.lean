/-
  S-expressions tell shapes apart.

  The S-expression of a number or an identifier is its text, and that of everything else is a
  list: a heading, and behind it the items, each after a space (`Expr.sexp_append_of_heading?`).
  Neither a text nor a heading holds a space or a parenthesis, so it ends where the first of them
  comes, and from there on the items can be told one by one.

  `Expr.readsBack`: whatever stands behind it, the text of an expression belongs to no expression
  of another shape. `Stmt.sexp_eq_iff` says so of whole statements.
-/
import ArithLang.Proofs.Faithfulness

namespace ArithLang

/-! ## Texts up to a delimiter -/

/-- The text is at its end or goes on with a space or a closing parenthesis. -/
def Delimited (rest : List Char) : Prop := ∀ c, rest.head? = some c → c = ' ' ∨ c = ')'

/-- No space or parenthesis stands in the text. -/
def Solid (text : List Char) : Prop := ∀ c ∈ text, c ≠ ' ' ∧ c ≠ '(' ∧ c ≠ ')'

theorem delimited_nil : Delimited [] := fun _ h => nomatch h

theorem Solid.tail {c : Char} {text : List Char} (h : Solid (c :: text)) : Solid text :=
  fun d hd => h d (by simp [hd])

theorem Solid.not_delimited {c : Char} {text rest : List Char} (h : Solid (c :: text)) :
    ¬ Delimited (c :: rest) := by
  intro hd
  obtain ⟨hspace, -, hclose⟩ := h c (by simp)
  rcases hd c rfl with hc | hc
  · exact hspace hc
  · exact hclose hc

/-- A solid text runs up to the delimiter behind it. -/
theorem Solid.append_inj {xs ys rest rest' : List Char} (hx : Solid xs) (hy : Solid ys)
    (hr : Delimited rest) (hr' : Delimited rest') (h : xs ++ rest = ys ++ rest') :
    xs = ys ∧ rest = rest' := by
  induction xs generalizing ys with
  | nil =>
      cases ys with
      | nil => exact ⟨rfl, h⟩
      | cons d ys =>
          subst h
          exact absurd hr hy.not_delimited
  | cons c xs ih =>
      cases ys with
      | nil =>
          subst h
          exact absurd hr' hx.not_delimited
      | cons d ys =>
          obtain ⟨rfl, htail⟩ := List.cons.inj h
          obtain ⟨rfl, hrest⟩ := ih hx.tail hy.tail htail
          exact ⟨rfl, hrest⟩

theorem IsNumeral.solid {text : String} (h : IsNumeral text) : Solid text.toList := by
  intro c hc
  have hdigit := h.2 c hc
  refine ⟨?_, ?_, ?_⟩ <;> rintro rfl <;> exact absurd hdigit (by decide)

theorem IsName.solid {text : String} (h : IsName text) : Solid text.toList := by
  intro c hc
  have hname := h.2 c hc
  refine ⟨?_, ?_, ?_⟩ <;> rintro rfl <;> exact absurd hname (by decide)

theorem IsNumeral.not_isName {text : String} (h : IsNumeral text) : ¬ IsName text := by
  intro h'
  obtain ⟨c, cs, hcs⟩ := List.exists_cons_of_ne_nil (mt String.toList_eq_nil_iff.1 h.1)
  have hdigit := isDigit_iff.2 (h.2 c (by simp [hcs]))
  have hname := isNameChar_iff.2 (h'.2 c (by simp [hcs]))
  rw [not_isDigit_of_isNameChar hname] at hdigit
  cases hdigit

theorem UnaryOp.symbol_inj {op op' : UnaryOp} : op.symbol = op'.symbol ↔ op = op' := by
  cases op <;> cases op' <;> decide

theorem BinaryOp.symbol_inj {op op' : BinaryOp} : op.symbol = op'.symbol ↔ op = op' := by
  cases op <;> cases op' <;> decide

namespace Expr

/-! ## Lists -/

/-- The word in front of the items, where the S-expression is a list. -/
def heading? : Expr → Option String
  | number _ _ => none
  | identifier _ _ => none
  | unary op _ _ => some op.symbol
  | binary op _ _ _ => some op.symbol
  | group _ _ => some "group"

/-- The items of the S-expression. -/
def items (e : Expr) : List Expr := e.parts.map Prod.snd

/-- Some items, each behind a space, the end of their list, and `rest`. -/
def listed (rest : List Char) : List Expr → List Char
  | [] => ')' :: rest
  | x :: xs => ' ' :: (x.sexp.toList ++ listed rest xs)

theorem delimited_listed (rest : List Char) (xs : List Expr) : Delimited (listed rest xs) := by
  intro c hc
  cases xs with
  | nil => exact .inr (Option.some.inj hc).symm
  | cons x xs => exact .inl (Option.some.inj hc).symm

theorem sexp_append_of_heading? {e : Expr} {word : String} (h : e.heading? = some word)
    (rest : List Char) :
    e.sexp.toList ++ rest = '(' :: (word.toList ++ listed rest e.items) := by
  cases e with
  | number | identifier => cases h
  | unary | binary | group =>
      obtain rfl := Option.some.inj h
      simp [sexp, items, parts, listed]

/-- A heading is solid, and none is that of an assignment. -/
theorem solid_of_heading? {e : Expr} {word : String} (h : e.heading? = some word) :
    Solid word.toList ∧ word ≠ "=" := by
  unfold Solid
  cases e with
  | number | identifier => cases h
  | unary op | binary op =>
      obtain rfl := Option.some.inj h
      cases op <;> simp [UnaryOp.symbol, BinaryOp.symbol]
  | group =>
      obtain rfl := Option.some.inj h
      simp

theorem WellWritten.of_items {e x : Expr} (h : e.WellWritten) (hx : x ∈ e.items) :
    x.WellWritten := by
  cases e with
  | number | identifier => cases hx
  | unary op y s | group y s =>
      obtain rfl := List.mem_singleton.1 hx
      exact h
  | binary op l r s =>
      rcases List.mem_cons.1 hx with rfl | hx
      · exact h.1
      · obtain rfl := List.mem_singleton.1 hx
        exact h.2

/-- Without a heading the S-expression is a text of digits or letters. -/
theorem solid_of_heading?_eq_none {e : Expr} (h : e.heading? = none) (hw : e.WellWritten) :
    Solid e.sexp.toList ∧ e.sexp.toList ≠ [] := by
  cases e with
  | number text s => exact ⟨IsNumeral.solid hw, mt String.toList_eq_nil_iff.1 hw.1⟩
  | identifier text s => exact ⟨IsName.solid hw, mt String.toList_eq_nil_iff.1 hw.1⟩
  | unary | binary | group => cases h

/-- What is no list does not show as one. -/
theorem sexp_append_ne_list {e : Expr} (h : e.heading? = none) (hw : e.WellWritten)
    (rest tail : List Char) : e.sexp.toList ++ rest ≠ '(' :: tail := by
  obtain ⟨hsolid, hne⟩ := solid_of_heading?_eq_none h hw
  obtain ⟨c, cs, hcs⟩ := List.exists_cons_of_ne_nil hne
  rw [hcs] at hsolid ⊢
  intro heq
  exact (hsolid c (by simp)).2.1 (List.cons.inj heq).1

/-! ## Shapes from their texts -/

/-- Without a heading there is nothing but the text and the span, and digits are no letters. -/
theorem bare_eq_of_sexp {e e' : Expr} (h : e.heading? = none) (h' : e'.heading? = none)
    (hw : e.WellWritten) (hw' : e'.WellWritten) (hs : e.sexp = e'.sexp) : e.bare = e'.bare := by
  cases e with
  | number text s =>
      cases e' with
      | number text' s' => exact congrArg (number · (.point 0)) hs
      | identifier text' s' =>
          obtain rfl : text = text' := hs
          exact absurd hw' (IsNumeral.not_isName hw)
      | unary | binary | group => cases h'
  | identifier text s =>
      cases e' with
      | number text' s' =>
          obtain rfl : text = text' := hs
          exact absurd hw (IsNumeral.not_isName hw')
      | identifier text' s' => exact congrArg (identifier · (.point 0)) hs
      | unary | binary | group => cases h'
  | unary | binary | group => cases h

/-- A list is known by its heading and the shapes of its items. Where a sign and an operator are
    written alike, the number of items tells them apart. -/
theorem bare_eq_of_heading? {e e' : Expr} {word : String} (h : e.heading? = some word)
    (h' : e'.heading? = some word) (hitems : e.items.map bare = e'.items.map bare) :
    e.bare = e'.bare := by
  have hword : e.heading? = e'.heading? := h.trans h'.symm
  have hlength := congrArg List.length hitems
  cases e with
  | number | identifier => cases h
  | unary op x s =>
      cases e' with
      | number | identifier => cases h'
      | unary op' x' s' =>
          obtain rfl := UnaryOp.symbol_inj.1 (Option.some.inj hword)
          exact congrArg (unary op · (.point 0)) (List.cons.inj hitems).1
      | binary => cases hlength
      | group => cases op <;> exact absurd (Option.some.inj hword) (by decide)
  | binary op l r s =>
      cases e' with
      | number | identifier => cases h'
      | binary op' l' r' s' =>
          obtain rfl := BinaryOp.symbol_inj.1 (Option.some.inj hword)
          obtain ⟨hl, hr⟩ := List.cons.inj hitems
          show binary op l.bare r.bare (.point 0) = binary op l'.bare r'.bare (.point 0)
          rw [hl, (List.cons.inj hr).1]
      | unary | group => cases hlength
  | group x s =>
      cases e' with
      | number | identifier => cases h'
      | unary op => cases op <;> exact absurd (Option.some.inj hword) (by decide)
      | binary => cases hlength
      | group x' s' => exact congrArg (group · (.point 0)) (List.cons.inj hitems).1

/-- Whatever stands behind it, the text of the expression belongs to no other shape. -/
def ReadsBack (e : Expr) : Prop :=
  ∀ {e' : Expr} {rest rest' : List Char}, e'.WellWritten → Delimited rest → Delimited rest' →
    e.sexp.toList ++ rest = e'.sexp.toList ++ rest' → e.bare = e'.bare ∧ rest = rest'

/-- Items that can be told from others when they stand alone can be told in a list. -/
theorem listed_inj {xs ys : List Expr} {rest rest' : List Char} (hx : ∀ x ∈ xs, x.ReadsBack)
    (hy : ∀ y ∈ ys, y.WellWritten) (h : listed rest xs = listed rest' ys) :
    xs.map bare = ys.map bare ∧ rest = rest' := by
  induction xs generalizing ys with
  | nil =>
      cases ys with
      | nil => exact ⟨rfl, (List.cons.inj h).2⟩
      | cons y ys => exact absurd (List.cons.inj h).1 (by decide)
  | cons x xs ih =>
      cases ys with
      | nil => exact absurd (List.cons.inj h).1 (by decide)
      | cons y ys =>
          obtain ⟨hxy, hrest⟩ := hx x (by simp) (hy y (by simp)) (delimited_listed _ _)
            (delimited_listed _ _) (List.cons.inj h).2
          obtain ⟨hmap, hend⟩ := ih (fun z hz => hx z (by simp [hz]))
            (fun z hz => hy z (by simp [hz])) hrest
          rw [List.map_cons, List.map_cons, hxy, hmap]
          exact ⟨rfl, hend⟩

theorem readsBack_of_heading? {e : Expr} {word : String} (h : e.heading? = some word)
    (hitems : ∀ x ∈ e.items, x.ReadsBack) : e.ReadsBack := by
  intro e' rest rest' hw' hr hr' heq
  rw [sexp_append_of_heading? h] at heq
  cases h' : e'.heading? with
  | none => exact absurd heq.symm (sexp_append_ne_list h' hw' _ _)
  | some word' =>
      rw [sexp_append_of_heading? h'] at heq
      obtain ⟨hword, hlisted⟩ := (solid_of_heading? h).1.append_inj (solid_of_heading? h').1
        (delimited_listed _ _) (delimited_listed _ _) (List.cons.inj heq).2
      obtain rfl := String.toList_injective hword
      obtain ⟨hmap, hrest⟩ := listed_inj hitems (fun y hy => hw'.of_items hy) hlisted
      exact ⟨bare_eq_of_heading? h h' hmap, hrest⟩

theorem readsBack_of_heading?_eq_none {e : Expr} (h : e.heading? = none) (hw : e.WellWritten) :
    e.ReadsBack := by
  intro e' rest rest' hw' hr hr' heq
  cases h' : e'.heading? with
  | some word' =>
      rw [sexp_append_of_heading? h'] at heq
      exact absurd heq (sexp_append_ne_list h hw _ _)
  | none =>
      obtain ⟨htext, hrest⟩ := (solid_of_heading?_eq_none h hw).1.append_inj
        (solid_of_heading?_eq_none h' hw').1 hr hr' heq
      exact ⟨bare_eq_of_sexp h h' hw hw' (String.toList_injective htext), hrest⟩

theorem readsBack {e : Expr} (h : e.WellWritten) : e.ReadsBack := by
  induction e with
  | number | identifier => exact readsBack_of_heading?_eq_none rfl h
  | unary op x s ih | group x s ih =>
      refine readsBack_of_heading? rfl fun y hy => ?_
      obtain rfl := List.mem_singleton.1 hy
      exact ih h
  | binary op l r s ihl ihr =>
      refine readsBack_of_heading? rfl fun y hy => ?_
      rcases List.mem_cons.1 hy with rfl | hy
      · exact ihl h.1
      · obtain rfl := List.mem_singleton.1 hy
        exact ihr h.2

end Expr

/-! ## Statements -/

namespace Stmt

/-- An assignment shows as a list too, with its target and its value as the items. -/
theorem sexp_assignment (target : String) (ts : Span) (v : Expr) (s : Span) :
    (assignment target ts v s).sexp.toList =
      '(' :: ("=".toList ++ Expr.listed [] [.identifier target ts, v]) := by
  simp [sexp, Expr.listed, Expr.sexp]

/-- No expression shows as an assignment does. -/
theorem sexp_ne_sexp_assignment {e : Expr} (hw : e.WellWritten) (target : String) (ts : Span)
    (v : Expr) (s : Span) : e.sexp ≠ (assignment target ts v s).sexp := by
  intro heq
  have htext := congrArg String.toList heq
  rw [sexp_assignment, ← List.append_nil e.sexp.toList] at htext
  cases h : e.heading? with
  | none => exact Expr.sexp_append_ne_list h hw _ _ htext
  | some word =>
      obtain ⟨hsolid, hne⟩ := Expr.solid_of_heading? h
      rw [Expr.sexp_append_of_heading? h] at htext
      have hequals : Solid "=".toList := by simp [Solid]
      obtain ⟨hword, -⟩ := hsolid.append_inj hequals (Expr.delimited_listed _ _)
        (Expr.delimited_listed _ _) (List.cons.inj htext).2
      exact hne (String.toList_injective hword)

/-- Statements are known by their S-expressions. -/
theorem bare_eq_of_sexp {st st' : Stmt} (h : st.WellWritten) (h' : st'.WellWritten)
    (hs : st.sexp = st'.sexp) : st.bare = st'.bare := by
  cases st with
  | assignment target ts v s =>
      cases st' with
      | assignment target' ts' v' s' =>
          have hlist := congrArg String.toList hs
          rw [sexp_assignment, sexp_assignment] at hlist
          have hitems : ∀ x ∈ [Expr.identifier target ts, v], x.ReadsBack := by
            simpa using ⟨Expr.readsBack (e := .identifier target ts) h.1, Expr.readsBack h.2⟩
          have hwritten : ∀ y ∈ [Expr.identifier target' ts', v'], y.WellWritten := by
            simpa using And.intro (a := (Expr.identifier target' ts').WellWritten) h'.1 h'.2
          obtain ⟨hmap, -⟩ := Expr.listed_inj hitems hwritten
            (List.append_cancel_left (List.cons.inj hlist).2)
          obtain ⟨htarget, hvalue⟩ := List.cons.inj hmap
          show assignment target _ v.bare _ = assignment target' _ v'.bare _
          rw [(Expr.identifier.inj htarget).1, (List.cons.inj hvalue).1]
      | expression e s' => exact absurd hs.symm (sexp_ne_sexp_assignment h' _ _ _ _)
  | expression e s =>
      cases st' with
      | assignment target' ts' v' s' => exact absurd hs (sexp_ne_sexp_assignment h _ _ _ _)
      | expression e' s' =>
          have htext : e.sexp.toList ++ [] = e'.sexp.toList ++ [] :=
            congrArg (·.toList ++ []) hs
          obtain ⟨hbare, -⟩ := Expr.readsBack h h' delimited_nil delimited_nil htext
          exact congrArg (expression · (.point 0)) hbare

/-- Two statements with numbers in digits and names in letters have the same S-expression exactly
    when nothing but their spans tells them apart. What shows as an expression between parentheses
    is one, even where `group` is a name. -/
theorem sexp_eq_iff {st st' : Stmt} (h : st.WellWritten) (h' : st'.WellWritten) :
    (st.sexp = st'.sexp ↔ st.bare = st'.bare) ∧
      ∀ x : Expr, x.WellWritten → st.sexp = "(group " ++ x.sexp ++ ")" →
        ∃ x' s' s, st = .expression (.group x' s') s ∧ x'.bare = x.bare := by
  refine ⟨⟨bare_eq_of_sexp h h', fun hb => ?_⟩, fun x hx hs => ?_⟩
  · have hsexp := congrArg sexp hb
    rwa [bare, sexp_mapSpan, bare, sexp_mapSpan] at hsexp
  · have hgroup : (expression (.group x (.point 0)) (.point 0)).WellWritten := hx
    have hbare := bare_eq_of_sexp h hgroup hs
    cases st with
    | assignment => cases hbare
    | expression e s =>
        obtain ⟨he, -⟩ := Stmt.expression.inj hbare
        cases e with
        | group x' s' => exact ⟨x', s', s, rfl, (Expr.group.inj he).1⟩
        | number | identifier | unary | binary => cases he

/-- `group-(1)` and `-group` show as `(- group (group 1))` and `(- group)`. -/
theorem sexp_eq_iff_minus_group :
    let difference : Stmt := .expression (.binary .subtract (.identifier "group" ⟨0, 5⟩)
      (.group (.number "1" ⟨7, 8⟩) ⟨6, 9⟩) ⟨0, 9⟩) ⟨0, 9⟩
    let negation : Stmt := .expression (.unary .minus (.identifier "group" ⟨1, 6⟩) ⟨0, 6⟩) ⟨0, 6⟩
    difference.WellWritten ∧ negation.WellWritten ∧
      (difference.sexp = negation.sexp ↔ difference.bare = negation.bare) ∧
      difference.bare ≠ negation.bare := by
  intro difference negation
  have hname : IsName "group" := ⟨by decide, by simp⟩
  have hnumber : IsNumeral "1" := ⟨by decide, by simp⟩
  have h : difference.WellWritten := ⟨hname, hnumber⟩
  have h' : negation.WellWritten := hname
  exact ⟨h, h', (sexp_eq_iff h h').1, by decide⟩

end Stmt

end ArithLang
