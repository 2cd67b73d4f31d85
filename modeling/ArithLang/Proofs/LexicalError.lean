/-
  Where a text cannot be cut into words.

  `Stuck c after cause` says, without the lexer, that no lexeme starts with `c` in front of
  `after`, and why: a comment is opened and never closed, or the character is of no use there.
  A text has a `LexicalFault` where the part in front can be cut into words and what comes next
  is stuck. `tokenize_error_exact`: this fault is the error of the text, there is at most one, and
  a text without one can be cut.

  A front part that has been cut stays cut so in front of a stuck character
  (`tokensFrom_joined_append`), since such a character makes no lexeme longer.
-/
import ArithLang.Proofs.Lexeme
import Mathlib.Data.List.TakeWhile

namespace ArithLang

/-! ## Characters that start nothing -/

/-- No lexeme starts with `c` when `after` stands behind it. -/
structure StartsNothing (c : Char) (after : List Char) : Prop where
  space : isSpace c = false
  digit : c.isDigit = false
  name : isNameChar c = false
  sign : c ∉ ['*', '/', '+', '-', '=', '(', ')', '{']
  /-- A backslash continues a line only in front of its end. -/
  continuation : c = '\\' → ¬ ['\n'] <+: after ∧ ¬ ['\r', '\n'] <+: after

/-- The text `c :: after` starts with no lexeme, for the given cause. -/
inductive Stuck : Char → List Char → Cause → Prop where
  | comment {after : List Char} (h : '}' ∉ after) : Stuck '{' after .unterminatedComment
  | character {c : Char} {after : List Char} (h : StartsNothing c after) :
      Stuck c after (.invalidCharacter c)

theorem signKind?_eq_none_iff {c : Char} :
    signKind? c = none ↔ c ∉ ['*', '/', '+', '-', '=', '(', ')'] := by
  unfold signKind?
  constructor
  · intro h
    repeat' split at h
    all_goals simp_all
  · intro h
    simp only [List.mem_cons, List.not_mem_nil, or_false, not_or] at h
    simp [h]

theorem scanComment_eq_error_iff {cs : List Char} {cause : Cause} :
    scanComment cs = .error cause ↔ cause = .unterminatedComment ∧ '}' ∉ cs := by
  have hopen : (cs.dropWhile fun c => decide (c ≠ '}')) = [] ↔ '}' ∉ cs := by
    rw [List.dropWhile_eq_nil_iff]
    constructor
    · intro h hmem
      exact absurd (h _ hmem) (by decide)
    · intro h c hc
      rw [decide_eq_true_eq]
      intro hbrace
      exact h (hbrace ▸ hc)
  rw [← hopen]
  unfold scanComment
  split
  · next h =>
      rw [h]
      constructor
      · intro he
        cases he
        exact ⟨rfl, rfl⟩
      · intro h'
        rw [h'.1]
  · next h =>
      rw [h]
      constructor
      · intro he
        cases he
      · intro h'
        cases h'.2

theorem scanContinuation_eq_error_iff {cs : List Char} {cause : Cause} :
    scanContinuation cs = .error cause ↔
      cause = .invalidCharacter '\\' ∧ ¬ ['\n'] <+: cs ∧ ¬ ['\r', '\n'] <+: cs := by
  unfold scanContinuation
  split
  · simp
  · simp
  · next hlf hcrlf =>
      have hlf' : ¬ ['\n'] <+: cs := fun h => by
        obtain ⟨rest, h⟩ := h
        exact hlf rest h.symm
      have hcrlf' : ¬ ['\r', '\n'] <+: cs := fun h => by
        obtain ⟨rest, h⟩ := h
        exact hcrlf rest h.symm
      simp [hlf', hcrlf', eq_comm]

/-- Cutting once fails exactly where no lexeme starts. -/
theorem scan_eq_error_iff {c : Char} {cs : List Char} {cause : Cause} :
    scan c cs = .error cause ↔ Stuck c cs cause := by
  constructor
  · intro h
    unfold scan at h
    split at h
    · cases h
    next hspace =>
    split at h
    · cases h
    next hdigit =>
    split at h
    · cases h
    next hname =>
    split at h
    · next hc =>
        obtain ⟨rfl, hopen⟩ := scanComment_eq_error_iff.1 h
        subst hc
        exact .comment hopen
    next hbrace =>
    split at h
    · next hc =>
        obtain ⟨rfl, hcont⟩ := scanContinuation_eq_error_iff.1 h
        subst hc
        exact .character ⟨rfl, rfl, rfl, by decide, fun _ => hcont⟩
    next hback =>
    split at h
    · next hsign =>
        cases h
        have hsign' := signKind?_eq_none_iff.1 hsign
        refine .character ⟨by simpa using hspace, by simpa using hdigit, by simpa using hname, ?_,
          fun hc => absurd hc hback⟩
        simp only [List.mem_cons, List.not_mem_nil, or_false, not_or] at hsign' ⊢
        simp [hsign', hbrace]
    · split at h <;> cases h
  · intro h
    cases h with
    | comment hopen => exact scanComment_eq_error_iff.2 ⟨rfl, hopen⟩
    | character h =>
        by_cases hback : c = '\\'
        · subst hback
          exact scanContinuation_eq_error_iff.2 ⟨rfl, h.continuation rfl⟩
        · have hsign := h.sign
          simp only [List.mem_cons, List.not_mem_nil, or_false, not_or] at hsign
          have hnone : signKind? c = none := signKind?_eq_none_iff.2 (by simp [hsign])
          unfold scan
          rw [if_neg (by simp [h.space]), if_neg (by simp [h.digit]), if_neg (by simp [h.name]),
            if_neg (by simp [hsign]), if_neg hback, hnone]

/-! ## A front part that is cut -/

theorem Lexeme.EndsBefore.of_append {l : Lexeme} {xs ys : List Char}
    (h : l.EndsBefore (xs ++ ys)) : l.EndsBefore xs := by
  intro c hc
  refine h c ?_
  rw [List.head?_append, hc]
  rfl

theorem Lexeme.EndsBefore.append {l : Lexeme} {xs ys : List Char} (h : l.EndsBefore xs)
    (h' : l.EndsBefore ys) : l.EndsBefore (xs ++ ys) := by
  cases xs with
  | nil => exact h'
  | cons c xs => exact h

/-- A character that starts nothing makes no lexeme longer. -/
theorem Stuck.endsBefore {c : Char} {after : List Char} {cause : Cause} (h : Stuck c after cause)
    (l : Lexeme) : l.EndsBefore (c :: after) := by
  have hclass : isSpace c = false ∧ c.isDigit = false ∧ isNameChar c = false ∧ c ≠ '*' := by
    cases h with
    | comment h => decide
    | character h => exact ⟨h.space, h.digit, h.name, fun hc => h.sign (by simp [hc])⟩
  obtain ⟨hspace, hdigit, hname, hstar⟩ := hclass
  intro d hd hg
  obtain rfl : c = d := Option.some.inj hd
  obtain ⟨first, -, hgo⟩ := hg
  simp [hspace, hdigit, hname, hstar] at hgo

/-- The blanks at the front of a text only move its words. -/
theorem tokensFrom_dropWhile_isSpace (offset : Nat) (cs : List Char) :
    tokensFrom offset cs =
      tokensFrom (offset + byteLength (cs.takeWhile isSpace)) (cs.dropWhile isSpace) := by
  cases cs with
  | nil => rfl
  | cons c cs =>
      by_cases hc : isSpace c
      · rw [tokensFrom_of_scan offset (scan_of_isSpace hc), List.takeWhile_cons_of_pos hc,
          List.dropWhile_cons_of_pos hc]
        exact congrFun Except.map_id _
      · rw [List.takeWhile_cons_of_neg hc, List.dropWhile_cons_of_neg hc]
        rfl

theorem tokensFrom_of_isSpace {c : Char} (hc : isSpace c) (offset : Nat) (cs : List Char) :
    tokensFrom offset (c :: cs) = tokensFrom (offset + c.utf8Size) cs := by
  rw [tokensFrom_dropWhile_isSpace, tokensFrom_dropWhile_isSpace (offset + c.utf8Size),
    List.takeWhile_cons_of_pos hc, List.dropWhile_cons_of_pos hc, byteLength_cons, Nat.add_assoc]

theorem tokensFrom_of_blanks {text : List Char} (h : ∀ c ∈ text, isSpace c) (offset : Nat)
    (cs : List Char) :
    tokensFrom offset (text ++ cs) = tokensFrom (offset + byteLength text) cs := by
  induction text generalizing offset with
  | nil => rfl
  | cons c text ih =>
      rw [List.cons_append, tokensFrom_of_isSpace (h c (by simp)),
        ih fun d hd => h d (by simp [hd])]
      rw [byteLength_cons, Nat.add_assoc]

/-- A lexeme that is no word only moves the words behind it. Blanks need not be complete. -/
theorem Lexeme.Valid.tokensFrom_of_kind?_eq_none {l : Lexeme} (h : l.Valid) (hk : l.kind? = none)
    (offset : Nat) (cs : List Char) :
    tokensFrom offset (l.text ++ cs) = tokensFrom (offset + byteLength l.text) cs := by
  have hcut : l.EndsBefore cs →
      tokensFrom offset (l.text ++ cs) = tokensFrom (offset + byteLength l.text) cs := by
    intro he
    rw [h.tokensFrom_append he, Lexeme.word?, hk]
    exact congrFun Except.map_id _
  cases h with
  | comment | continuation | continuationCr =>
      exact hcut (Lexeme.endsBefore_of_head rfl (by decide) cs)
  | blanks hne h => exact tokensFrom_of_blanks h offset cs
  | number hne h | identifier hne h | sign h => cases hk

/-- A text that starts with lexemes is cut into these first, if no word among them goes on behind
    the others. -/
theorem tokensFrom_joined_append {ls : List Lexeme} (h : Tiles ls) {cs : List Char}
    (hend : ∀ l ∈ ls, l.kind? ≠ none → l.EndsBefore cs) (offset : Nat) :
    tokensFrom offset (joined ls ++ cs) =
      (tokensFrom (offset + byteLength (joined ls)) cs).map (words offset ls ++ ·) := by
  induction h generalizing offset with
  | nil => exact (congrFun Except.map_id _).symm
  | @cons l ls hl he hs ih =>
      have ih' := ih (fun l' hl' => hend l' (by simp [hl'])) (offset + byteLength l.text)
      rw [joined_cons, List.append_assoc, byteLength_append, ← Nat.add_assoc, words_cons]
      by_cases hk : l.kind? = none
      · rw [hl.tokensFrom_of_kind?_eq_none hk, ih', Lexeme.word?, hk]
        rfl
      · rw [hl.tokensFrom_append (he.append (hend l (by simp) hk)), ih']
        cases tokensFrom (offset + byteLength l.text + byteLength (joined ls)) cs with
        | error e => rfl
        | ok ts => exact congrArg Except.ok (List.append_assoc _ _ _).symm

/-- Cutting a text fails exactly behind lexemes that tile a front part of it, where what comes
    next is stuck. -/
theorem tokensFrom_eq_error_iff {offset : Nat} {cs : List Char} {e : ParseError} :
    tokensFrom offset cs = .error e ↔
      ∃ ls c after, Tiles ls ∧ cs = joined ls ++ c :: after ∧
        offset + byteLength (joined ls) = e.position ∧ Stuck c after e.cause := by
  constructor
  · intro h
    induction cs using text_induction generalizing offset with
    | nil =>
        rw [tokensFrom_nil] at h
        cases h
    | cons c cs ih =>
        cases hscan : scan c cs with
        | error cause =>
            rw [tokensFrom_of_scan_error offset hscan] at h
            obtain rfl := Except.error.inj h
            exact ⟨[], c, cs, .nil, rfl, rfl, scan_eq_error_iff.1 hscan⟩
        | ok cut =>
            rw [tokensFrom_of_scan offset hscan] at h
            cases hrest : tokensFrom (offset + byteLength cut.text) cut.rest with
            | ok ts =>
                rw [hrest] at h
                cases h
            | error e' =>
                rw [hrest] at h
                obtain rfl := Except.error.inj h
                obtain ⟨ls, d, after, htiles, hcs, hpos, hstuck⟩ := ih cut hscan hrest
                obtain ⟨hv, he, hjoin⟩ := scan_eq_ok_iff.1 hscan
                refine ⟨cut.lexeme :: ls, d, after, .cons hv (hcs ▸ he).of_append htiles, ?_, ?_,
                  hstuck⟩
                · rw [← hjoin, hcs, joined_cons, List.append_assoc]
                  rfl
                · rw [← hpos, joined_cons, byteLength_append, Nat.add_assoc]
                  rfl
  · intro h
    obtain ⟨ls, c, after, htiles, rfl, hpos, hstuck⟩ := h
    rw [tokensFrom_joined_append htiles fun l _ _ => hstuck.endsBefore l, hpos,
      tokensFrom_of_scan_error _ (scan_eq_error_iff.2 hstuck)]
    rfl

/-! ## Whole texts -/

/-- The part of the text in front of the error can be cut into words, and what comes next is
    stuck for the cause of the error. -/
def LexicalFault (source : String) (e : ParseError) : Prop :=
  ∃ before c after, source.toList = before ++ c :: after ∧ byteLength before = e.position ∧
    (∃ ts, tokenize (String.ofList before) = .ok ts) ∧ Stuck c after e.cause

theorem exists_tokenize_ofList_iff {cs : List Char} :
    (∃ ts, tokenize (String.ofList cs) = .ok ts) ↔ ∃ ls, Tiles ls ∧ cs = joined ls := by
  simp only [tokenize_eq_ok_iff, String.toList_ofList]
  constructor
  · intro h
    obtain ⟨ts, ls, htiles, hcs, -⟩ := h
    exact ⟨ls, htiles, hcs⟩
  · intro h
    obtain ⟨ls, htiles, hcs⟩ := h
    exact ⟨_, ls, htiles, hcs, rfl⟩

theorem tokenize_eq_error_iff {source : String} {e : ParseError} :
    tokenize source = .error e ↔ LexicalFault source e := by
  unfold tokenize LexicalFault
  simp only [tokensFrom_eq_error_iff, exists_tokenize_ofList_iff, Nat.zero_add]
  constructor
  · intro h
    obtain ⟨ls, c, after, htiles, hcs, hpos, hstuck⟩ := h
    exact ⟨joined ls, c, after, hcs, hpos, ⟨ls, htiles, rfl⟩, hstuck⟩
  · intro h
    obtain ⟨before, c, after, hcs, hpos, ⟨ls, htiles, rfl⟩, hstuck⟩ := h
    exact ⟨ls, c, after, htiles, hcs, hpos, hstuck⟩

/-- The error of a text is its one place where a front part that can be cut goes on with
    something that no lexeme starts with. A text without such a place can be cut. -/
theorem tokenize_error_exact (source : String) :
    (∀ e, tokenize source = .error e ↔ LexicalFault source e) ∧
      (∀ e e', LexicalFault source e → LexicalFault source e' → e = e') ∧
      ((∃ ts, tokenize source = .ok ts) ↔ ∀ e, ¬ LexicalFault source e) := by
  refine ⟨fun e => tokenize_eq_error_iff, fun e e' h h' => ?_, ?_⟩
  · have he := tokenize_eq_error_iff.2 h
    have he' := tokenize_eq_error_iff.2 h'
    exact Except.error.inj (he.symm.trans he')
  · simp only [← tokenize_eq_error_iff]
    cases htokens : tokenize source with
    | ok ts => simp
    | error e => simp

end ArithLang
