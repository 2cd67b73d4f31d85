/-
  Texts with a gap between them.

  In front of a text a gap only moves its words (`Gap.tokensFrom_append`), and behind a text a
  gap makes no word of it longer (`Gap.endsBefore`), though it may well join the blanks that the
  text ends with. So a text, a gap and another text have the words of the one and of the other
  (`tokenize_append_gap`), the later ones further on, and where the other text cannot be cut,
  neither can the whole.
-/
import ArithLang.Proofs.LexicalError
import ArithLang.Proofs.Tiling

namespace ArithLang

/-- Words and errors only know where they are, not how far the text goes back. -/
theorem tokensFrom_add (offset n : Nat) (cs : List Char) :
    (∀ ts, tokensFrom offset cs = .ok ts →
      tokensFrom (offset + n) cs = .ok (ts.map (Token.mapSpan (.shift n)))) ∧
    ∀ e, tokensFrom offset cs = .error e → tokensFrom (offset + n) cs = .error (e.shift n) := by
  constructor
  · intro ts h
    obtain ⟨ls, htiles, hcs, rfl⟩ := tokensFrom_eq_ok_iff.1 h
    refine tokensFrom_eq_ok_iff.2 ⟨ls, htiles, hcs, ?_⟩
    rw [List.map_append, words_add, Nat.add_right_comm]
    rfl
  · intro e h
    obtain ⟨ls, c, after, htiles, hcs, hpos, hstuck⟩ := tokensFrom_eq_error_iff.1 h
    refine tokensFrom_eq_error_iff.2 ⟨ls, c, after, htiles, hcs, ?_, hstuck⟩
    rw [Nat.add_right_comm, hpos, ParseError.position_shift]

/-! ## A gap in front of a text -/

theorem Gap.tokensFrom_append {gap : List Char} (hg : Gap gap) (offset : Nat) (cs : List Char) :
    tokensFrom offset (gap ++ cs) = tokensFrom (offset + byteLength gap) cs := by
  -- A separator is cut off whatever stands behind it.
  have hsep : ∀ {text rest : List Char} (n : Nat), (Lexeme.mk none text).Valid →
      tokensFrom n (text ++ (rest ++ cs)) = tokensFrom (n + byteLength text) (rest ++ cs) :=
    fun n hv => hv.tokensFrom_of_kind?_eq_none rfl n _
  induction hg generalizing offset with
  | nil => rfl
  | space hc _ ih =>
      rw [List.cons_append, tokensFrom_of_isSpace hc, ih, byteLength_cons, Nat.add_assoc]
  | continuation _ ih =>
      refine (hsep offset .continuation).trans ?_
      rw [ih, Nat.add_assoc, ← byteLength_append]
      rfl
  | continuationCr _ ih =>
      refine (hsep offset .continuationCr).trans ?_
      rw [ih, Nat.add_assoc, ← byteLength_append]
      rfl
  | @comment inside rest hin _ ih =>
      have h : tokensFrom offset ('{' :: (inside ++ ['}']) ++ (rest ++ cs)) =
          tokensFrom (offset + byteLength ('{' :: (inside ++ ['}']))) (rest ++ cs) :=
        hsep offset (.comment hin)
      rw [ih, Nat.add_assoc, ← byteLength_append] at h
      simpa using h

/-! ## A gap behind a text -/

/-- No word has the first character of a gap in it. -/
theorem Gap.facts_of_head {gap : List Char} (hg : Gap gap) {c : Char} (hc : gap.head? = some c) :
    c.isDigit = false ∧ isNameChar c = false ∧ c ≠ '*' := by
  cases hg with
  | nil => cases hc
  | space hs _ =>
      obtain rfl := Option.some.inj hc
      refine ⟨?_, ?_, ?_⟩
      · rw [Bool.eq_false_iff]
        intro hd
        rw [not_isSpace_of_isDigit hd] at hs
        cases hs
      · rw [Bool.eq_false_iff]
        intro hn
        rw [not_isSpace_of_isNameChar hn] at hs
        cases hs
      · rintro rfl
        exact absurd hs (by decide)
  | continuation | continuationCr | comment =>
      obtain rfl := Option.some.inj hc
      decide

theorem Gap.endsBefore {gap : List Char} (hg : Gap gap) (hne : gap ≠ []) {l : Lexeme}
    (hl : l.Valid) (hk : l.kind? ≠ none) (cs : List Char) : l.EndsBefore (gap ++ cs) := by
  intro c hc hgo
  obtain ⟨d, rest, rfl⟩ := List.exists_cons_of_ne_nil hne
  obtain ⟨hdigit, hname, hstar⟩ := hg.facts_of_head hc
  obtain ⟨first, hfirst, ⟨hspace, -⟩ | ⟨-, hd⟩ | ⟨-, hn⟩ | ⟨-, rfl⟩⟩ := hgo
  · exact hk (hl.of_isSpace hfirst hspace).1
  · rw [hdigit] at hd
    cases hd
  · rw [hname] at hn
    cases hn
  · exact hstar rfl

/-! ## Whole texts -/

/-- The words of a text, a gap and another text are those of the two texts, the later ones moved
    behind the gap. What is wrong with the other text is wrong with the whole, at the place moved
    likewise. -/
theorem tokenize_append_gap {a gap b : String} {ts : List Token} (ha : tokenize a = .ok ts)
    (hg : Gap gap.toList) (hne : gap ≠ "") :
    (∀ us, tokenize b = .ok us →
      tokenize (a ++ gap ++ b) =
        .ok (ts.dropLast ++ us.map (Token.mapSpan (.shift (a ++ gap).utf8ByteSize)))) ∧
    ∀ e, tokenize b = .error e →
      tokenize (a ++ gap ++ b) = .error (e.shift (a ++ gap).utf8ByteSize) := by
  obtain ⟨ls, htiles, hjoined, rfl⟩ := tokenize_eq_ok_iff.1 ha
  have hne' : gap.toList ≠ [] := fun h => hne (String.toList_eq_nil_iff.1 h)
  have hwords : ∀ l ∈ ls, l.kind? ≠ none → l.EndsBefore (gap.toList ++ b.toList) :=
    fun l hl hk => hg.endsBefore hne' (htiles.valid_of_mem hl) hk b.toList
  have hwhole : tokenize (a ++ gap ++ b) =
      (tokensFrom (0 + (a ++ gap).utf8ByteSize) b.toList).map (words 0 ls ++ ·) := by
    have htext : (a ++ gap ++ b).toList = joined ls ++ (gap.toList ++ b.toList) := by
      simp [hjoined]
    have hsize : (a ++ gap).utf8ByteSize = byteLength (joined ls) + byteLength gap.toList := by
      rw [← byteLength_toList, String.toList_append, byteLength_append, hjoined]
    unfold tokenize
    rw [htext, tokensFrom_joined_append htiles hwords, hg.tokensFrom_append, hsize, Nat.add_assoc]
  obtain ⟨hok, herror⟩ := tokensFrom_add 0 (a ++ gap).utf8ByteSize b.toList
  constructor
  · intro us hb
    rw [hwhole, hok us hb, List.dropLast_concat]
    rfl
  · intro e hb
    rw [hwhole, herror e hb]
    rfl

/-- Blanks that meet, a comment with a character of two bytes and a line continuation keep two
    stars apart. -/
theorem tokenize_append_gap_between_stars :
    tokenize ("a* " ++ "\r\x7bé\x7d\\\n " ++ "*1") =
        .ok [⟨.identifier, "a", ⟨0, 1⟩⟩, ⟨.star, "*", ⟨1, 2⟩⟩, ⟨.star, "*", ⟨11, 12⟩⟩,
          ⟨.number, "1", ⟨12, 13⟩⟩, .eof 13] ∧
      tokenize ("a* " ++ "\r\x7bé\x7d\\\n " ++ "*?") =
        .error ⟨.invalidCharacter '?', 12⟩ := by
  have ha : tokenize "a* " =
      .ok [⟨.identifier, "a", ⟨0, 1⟩⟩, ⟨.star, "*", ⟨1, 2⟩⟩, .eof 3] := by decide +kernel
  have hcomment : '}' ∉ ['é'] := by decide
  have hg : Gap "\r\x7bé\x7d\\\n ".toList :=
    .space (by decide) (.comment hcomment (.continuation (.space (by decide) .nil)))
  have hok : tokenize "*1" =
      .ok [⟨.star, "*", ⟨0, 1⟩⟩, ⟨.number, "1", ⟨1, 2⟩⟩, .eof 2] := by decide +kernel
  have herror : tokenize "*?" = .error ⟨.invalidCharacter '?', 1⟩ := by decide +kernel
  exact ⟨(tokenize_append_gap ha hg (by decide)).1 _ hok,
    (tokenize_append_gap ha hg (by decide)).2 _ herror⟩

end ArithLang
