/-
  An input behind another one.

  Between two statements nothing is kept: no token is taken back, and no level of nesting stays
  open. So where later tokens do not go on with the last statement of the earlier ones
  (`BeginsApart`), both together are read as the statements of the one and of the other, and a
  fault of the later ones is met where they meet it alone (`ReadsBody.append`). Texts with a gap
  between them have the words of both (`tokenize_append_gap`), so the same holds of them
  (`parse_append_gap`). The limit on nesting acts on every statement by itself.
-/
import ArithLang.Proofs.Concatenation
import ArithLang.Proofs.Correspondence

namespace ArithLang

variable {b : BinaryOp → Binding} {k : Nat} {ts us : List Token} {sts : List Stmt}

/-! ## Where the later tokens start -/

/-- The tokens start with none that a statement in front of them goes on with. -/
def BeginsApart (us : List Token) : Prop :=
  frontKind us ∉ [.plus, .dash, .star, .slash, .starStar, .assignment]

theorem beginsApart_congr {us' : List Token} (h : frontKind us = frontKind us') :
    BeginsApart us ↔ BeginsApart us' := by
  unfold BeginsApart
  rw [h]

theorem frontKind_append_singleton {fin : Token} (hfin : fin.kind = .eof) (ts : List Token) :
    frontKind (ts ++ [fin]) = frontKind ts := by
  cases ts with
  | nil => exact hfin
  | cons t ts => rfl

/-- Behind tokens of which some are left, those in front only go on as the ones that are left. -/
theorem BeginsApart.goesOnAs (h : BeginsApart us) (mid : List Token) :
    GoesOnAs (mid ++ us) mid ∧
      (frontKind (mid ++ us) = .assignment → frontKind mid = .assignment) := by
  cases mid with
  | nil =>
      rw [List.nil_append]
      constructor
      · intro op hop
        refine absurd ?_ h
        rw [hop]
        cases op <;> decide
      · intro hassign
        refine absurd ?_ h
        rw [hassign]
        decide
  | cons t mid => exact ⟨fun op hop => hop, fun hassign => hassign⟩

/-! ## Statements one behind the other -/

/-- Behind tokens that are read to their end, other tokens are read as they are alone, with the
    same levels to spare. -/
theorem ReadsBody.append (h : ReadsBody b .repeated k ts sts []) (hus : ts = [] ∨ BeginsApart us) :
    (∀ sts' rest, ReadsBody b .repeated k us sts' rest →
      ReadsBody b .repeated k (ts ++ us) (sts ++ sts') rest) ∧
    ∀ f rest, FailsBody b .repeated k us f rest → FailsBody b .repeated k (ts ++ us) f rest := by
  generalize hm : Mode.repeated = mode at h
  generalize hr : ([] : List Token) = rest at h
  induction h with
  | single => cases hm
  | done =>
      subst hr
      exact ⟨fun sts' rest h => h, fun f rest h => h⟩
  | @more _ _ mid _ _ _ hne h hs ih =>
      have hapart : BeginsApart us := by
        rcases hus with rfl | hus
        · exact absurd rfl hne
        · exact hus
      obtain ⟨used, rfl, -, hrest⟩ := h.change_rest
      -- The statement in front stops where it did, whether or not the later tokens come next.
      obtain ⟨hgo, hassign⟩ := hapart.goesOnAs mid
      have hst := hrest (mid ++ us) hgo hassign
      obtain ⟨hreads, hfails⟩ := ih (.inr hapart) hm hr
      rw [List.append_assoc]
      constructor
      · intro sts' rest h'
        exact .more hst.frontKind_ne_eof hst (hreads sts' rest h')
      · intro f rest h'
        exact .later hst.frontKind_ne_eof hst (hfails f rest h')

/-- An input behind tokens that are read to their end is read as it is alone. -/
theorem parseTokens_append {o : Options} (hmode : o.mode = .repeated)
    (h : ReadsBody (BinaryOp.binding o.powers) .repeated o.maxDepth ts sts [])
    (hus : EndMarked us) (hapart : ts = [] ∨ BeginsApart us) :
    (∀ p, parseTokens us o = .ok p →
      parseTokens (ts ++ us) o = .ok ⟨sts ++ p.body, p.span⟩) ∧
    ∀ e, parseTokens us o = .error e → parseTokens (ts ++ us) o = .error e := by
  obtain ⟨us, fin, rfl, hfin⟩ := endMarked_iff.1 hus
  rw [beginsApart_congr (frontKind_append_singleton hfin us)] at hapart
  obtain ⟨hreads, hfails⟩ := h.append hapart
  rw [← List.append_assoc]
  constructor
  · intro p hp
    obtain ⟨rest, hbody, hspan⟩ := (parseTokens_eq_ok_iff hfin).1 hp
    rw [hmode] at hbody
    refine (parseTokens_eq_ok_iff hfin).2 ⟨rest, ?_, hspan⟩
    rw [hmode]
    exact hreads _ rest hbody
  · intro e he
    obtain ⟨f, rest, hbody, rfl⟩ := (parseTokens_eq_error_iff hfin).1 he
    rw [hmode] at hbody
    refine (parseTokens_eq_error_iff hfin).2 ⟨f, rest, ?_, rfl⟩
    rw [hmode]
    exact hfails f rest hbody

/-- An input that is moved behind such tokens is read as it is alone, moved. -/
theorem parseTokens_append_shift {o : Options} (hmode : o.mode = .repeated)
    (h : ReadsBody (BinaryOp.binding o.powers) .repeated o.maxDepth ts sts [])
    (hus : EndMarked us) (hapart : ts = [] ∨ BeginsApart us) (n : Nat) :
    (∀ p, parseTokens us o = .ok p →
      parseTokens (ts ++ us.map (Token.mapSpan (.shift n))) o =
        .ok ⟨sts ++ p.body.map (Stmt.mapSpan (.shift n)), ⟨0, p.span.stop + n⟩⟩) ∧
    ∀ e, parseTokens us o = .error e →
      parseTokens (ts ++ us.map (Token.mapSpan (.shift n))) o = .error (e.shift n) := by
  have hmoved : EndMarked (us.map (Token.mapSpan (.shift n))) := by
    refine hus.of_map_kind ?_
    rw [List.map_map]
    rfl
  rw [← beginsApart_congr (frontKind_mapSpan (.shift n) us)] at hapart
  obtain ⟨hok, herror⟩ := parseTokens_append hmode h hmoved hapart
  obtain ⟨hok', herror'⟩ := parseTokens_mapSpan (Span.shift_cover n) hus o
  constructor
  · intro p hp
    exact hok _ (hok' p hp)
  · intro e he
    exact herror _ (herror' e he)

/-! ## Texts one behind the other -/

/-- The condition on two texts, put by the words that they are cut into. -/
theorem eq_nil_or_beginsApart {a b : String} {fin : Token} (ha : tokenize a = .ok (ts ++ [fin]))
    (hb : tokenize b = .ok us)
    (h : (∃ fin, tokenize a = .ok [fin]) ∨ (∃ e, tokenize b = .error e) ∨
      ∃ us, tokenize b = .ok us ∧
        frontKind us ∉ [.plus, .dash, .star, .slash, .starStar, .assignment]) :
    ts = [] ∨ BeginsApart us := by
  rcases h with ⟨fin', hfin⟩ | ⟨e, he⟩ | ⟨us', hus, hfront⟩
  · have hsingle : ts ++ [fin] = [] ++ [fin'] := Except.ok.inj (ha.symm.trans hfin)
    exact .inl (List.append_inj' hsingle rfl).1
  · rw [hb] at he
    cases he
  · rw [hb] at hus
    cases hus
    exact .inr hfront

/-- A program, a gap and another text are read as the statements of the program and of the other
    text, these moved behind the gap, and what is wrong with the other text is wrong with the
    whole, at the place moved likewise. The other text must not go on with the last statement:
    either there is none, or the text cannot be cut into words, or its first word is neither an
    operator nor `=`. -/
theorem parse_append_gap {o : Options} (hmode : o.mode = .repeated) {a gap b : String}
    {p : Program} (ha : parse a o = .ok p) (hg : Gap gap.toList) (hne : gap ≠ "")
    (hb : (∃ fin, tokenize a = .ok [fin]) ∨ (∃ e, tokenize b = .error e) ∨
      ∃ us, tokenize b = .ok us ∧
        frontKind us ∉ [.plus, .dash, .star, .slash, .starStar, .assignment]) :
    (∀ q, parse b o = .ok q →
      parse (a ++ gap ++ b) o =
        .ok ⟨p.body ++ q.body.map (Stmt.mapSpan (.shift (a ++ gap).utf8ByteSize)),
          ⟨0, (a ++ gap ++ b).utf8ByteSize⟩⟩) ∧
    ∀ e, parse b o = .error e →
      parse (a ++ gap ++ b) o = .error (e.shift (a ++ gap).utf8ByteSize) := by
  obtain ⟨ls, htiles, hjoined, hbody, -⟩ := parse_eq_ok_iff.1 ha
  have htokens : tokenize a = .ok (words 0 ls ++ [.eof a.utf8ByteSize]) :=
    tokenize_eq_ok_iff.2 ⟨ls, htiles, hjoined, rfl⟩
  obtain ⟨hwords, hlexical⟩ := tokenize_append_gap (b := b) htokens hg hne
  cases htext : tokenize b with
  | error e =>
      rw [parse_of_tokenize_error htext]
      constructor
      · intro q hq
        cases hq
      · intro e' he
        cases he
        exact parse_of_tokenize_error (hlexical e htext)
  | ok us =>
      rw [hmode] at hbody
      obtain ⟨hok, herror⟩ := parseTokens_append_shift hmode hbody
        (endMarked_of_tokenize htext) (eq_nil_or_beginsApart htokens htext hb)
        (a ++ gap).utf8ByteSize
      rw [parse_of_tokenize htext, parse_of_tokenize (hwords us htext), List.dropLast_concat]
      constructor
      · intro q hq
        obtain ⟨-, -, -, -, hspan⟩ := parse_eq_ok_iff.1 ((parse_of_tokenize htext).trans hq)
        have hstop : q.span.stop + (a ++ gap).utf8ByteSize = (a ++ gap ++ b).utf8ByteSize := by
          rw [hspan]
          exact (Nat.add_comm _ _).trans String.utf8ByteSize_append.symm
        rw [hok q hq, hstop]
      · exact herror

/-- Behind `x=1-2`, which takes all three levels that there are, `y` is a statement of its own, and
    `3*(` is cut short at its end, where it is alone. -/
theorem parse_append_gap_after_assignment :
    parse ("x=1-2" ++ "\x7bé\x7d\\\n" ++ "y") ⟨.repeated, 3, .left⟩ =
        .ok ⟨[.assignment "x" ⟨0, 1⟩
            (.binary .subtract (.number "1" ⟨2, 3⟩) (.number "2" ⟨4, 5⟩) ⟨2, 5⟩) ⟨0, 5⟩,
          .expression (.identifier "y" ⟨11, 12⟩) ⟨11, 12⟩], ⟨0, 12⟩⟩ ∧
      parse ("x=1-2" ++ "\x7bé\x7d\\\n" ++ "3*(") ⟨.repeated, 3, .left⟩ =
        .error ⟨.tooComplex 3, 14⟩ := by
  have ha : parse "x=1-2" ⟨.repeated, 3, .left⟩ =
      .ok ⟨[.assignment "x" ⟨0, 1⟩
        (.binary .subtract (.number "1" ⟨2, 3⟩) (.number "2" ⟨4, 5⟩) ⟨2, 5⟩) ⟨0, 5⟩], ⟨0, 5⟩⟩ := by
    decide +kernel
  have hcomment : '}' ∉ ['é'] := by decide
  have hg : Gap "\x7bé\x7d\\\n".toList := .comment hcomment (.continuation .nil)
  have hok : parse "y" ⟨.repeated, 3, .left⟩ =
      .ok ⟨[.expression (.identifier "y" ⟨0, 1⟩) ⟨0, 1⟩], ⟨0, 1⟩⟩ := by decide +kernel
  have herror : parse "3*(" ⟨.repeated, 3, .left⟩ = .error ⟨.tooComplex 3, 3⟩ := by
    decide +kernel
  have hname : tokenize "y" = .ok [⟨.identifier, "y", ⟨0, 1⟩⟩, .eof 1] := by decide +kernel
  have hnumber : tokenize "3*(" = .ok [⟨.number, "3", ⟨0, 1⟩⟩, ⟨.star, "*", ⟨1, 2⟩⟩,
      ⟨.openParen, "(", ⟨2, 3⟩⟩, .eof 3] := by decide +kernel
  constructor
  · exact (parse_append_gap rfl ha hg (by decide) (.inr (.inr ⟨_, hname, by decide⟩))).1 _ hok
  · exact (parse_append_gap rfl ha hg (by decide) (.inr (.inr ⟨_, hnumber, by decide⟩))).2 _ herror

end ArithLang
