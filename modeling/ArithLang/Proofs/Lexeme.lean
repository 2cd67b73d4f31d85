/-
  What the lexer cuts a text into.

  `Lexeme.Valid` says which texts are lexemes of which kind, and `Lexeme.EndsBefore` that a
  lexeme is as long as the text behind it allows. `scan_eq_ok_iff`: these two are what one cut
  comes to. `Tiles` asks them of all lexemes of a list, each in front of the later ones, and
  `tokensFrom_eq_ok_iff` says that the tokens of a text are the words of such a list.

  A part of a list that tiles does so too, and its words only move with the place it starts at.
-/
import ArithLang.Token.Lexer

namespace ArithLang

/-- A lexeme: its kind, none for what only separates words, and its text. -/
structure Lexeme where
  kind? : Option Kind
  text : List Char

namespace Lexeme

/-- What can be cut off a text as a lexeme of the kind. -/
inductive Valid : Lexeme → Prop where
  | blanks {text : List Char} (hne : text ≠ []) (h : ∀ c ∈ text, isSpace c) : Valid ⟨none, text⟩
  | comment {inside : List Char} (h : '}' ∉ inside) : Valid ⟨none, '{' :: (inside ++ ['}'])⟩
  | continuation : Valid ⟨none, ['\\', '\n']⟩
  | continuationCr : Valid ⟨none, ['\\', '\r', '\n']⟩
  | number {text : List Char} (hne : text ≠ []) (h : ∀ c ∈ text, c.isDigit) :
      Valid ⟨some .number, text⟩
  | identifier {text : List Char} (hne : text ≠ []) (h : ∀ c ∈ text, isNameChar c) :
      Valid ⟨some .identifier, text⟩
  | sign {k : Kind} {text : List Char} (h : k.fixedText? = some (String.ofList text)) :
      Valid ⟨some k, text⟩

/-- The character would make the lexeme longer if it stood behind it. -/
def GoesOn (l : Lexeme) (c : Char) : Prop :=
  ∃ first, l.text.head? = some first ∧
    (isSpace first ∧ isSpace c ∨ first.isDigit ∧ c.isDigit ∨ isNameChar first ∧ isNameChar c ∨
      l.text = ['*'] ∧ c = '*')

/-- The lexeme is complete in front of the text. -/
def EndsBefore (l : Lexeme) (rest : List Char) : Prop :=
  ∀ c, rest.head? = some c → ¬ l.GoesOn c

/-- The lexeme as a word of a text in which it starts at `offset`. -/
def word? (offset : Nat) (l : Lexeme) : Option Token :=
  l.kind?.map fun kind => ⟨kind, String.ofList l.text, ⟨offset, offset + byteLength l.text⟩⟩

end Lexeme

/-- The lexeme that was cut off. -/
def Cut.lexeme (cut : Cut) : Lexeme := ⟨cut.kind?, cut.text⟩

/-! ## Classes of characters -/

theorem not_isSpace_of_isDigit {c : Char} (h : c.isDigit) : isSpace c = false := by
  rw [Bool.eq_false_iff]
  intro hs
  simp only [isSpace, Bool.or_eq_true, decide_eq_true_eq] at hs
  rcases hs with ((((rfl | rfl) | rfl) | rfl) | rfl) | rfl <;> exact absurd h (by decide)

theorem not_isSpace_of_isNameChar {c : Char} (h : isNameChar c) : isSpace c = false := by
  rw [Bool.eq_false_iff]
  intro hs
  simp only [isSpace, Bool.or_eq_true, decide_eq_true_eq] at hs
  rcases hs with ((((rfl | rfl) | rfl) | rfl) | rfl) | rfl <;> exact absurd h (by decide)

theorem not_isDigit_of_isNameChar {c : Char} (h : isNameChar c) : c.isDigit = false := by
  rw [Bool.eq_false_iff]
  intro hd
  simp only [isNameChar, Bool.or_eq_true, decide_eq_true_eq] at h
  rcases h with h | rfl
  · have hlow : 'a'.val ≤ c.val := of_decide_eq_true (Bool.and_eq_true_iff.1 h).1
    have hup : c.val ≤ '9'.val := of_decide_eq_true (Bool.and_eq_true_iff.1 hd).2
    exact absurd (UInt32.le_trans hlow hup) (by decide)
  · exact absurd hd (by decide)

/-- A sign is in none of the classes, and no brace or backslash is a sign. -/
theorem facts_of_signKind? {c : Char} {k : Kind} (h : signKind? c = some k) :
    isSpace c = false ∧ c.isDigit = false ∧ isNameChar c = false ∧ c ≠ '{' ∧ c ≠ '\\' := by
  unfold signKind? at h
  repeat' split at h
  all_goals cases h
  all_goals
    next hc =>
      subst hc
      decide

/-! ## One lexeme -/

/-- A run of a class takes the characters up to the first one outside. -/
theorem Cut.run_eq {kind? : Option Kind} {p : Char → Bool} {c : Char} {text rest : List Char}
    (h : ∀ d ∈ text, p d) (hr : ∀ d, rest.head? = some d → ¬ p d) :
    Cut.run kind? p c (text ++ rest) = ⟨kind?, c :: text, rest⟩ := by
  have htake : rest.takeWhile p = [] := by
    cases rest with
    | nil => rfl
    | cons d rest => rw [List.takeWhile_cons_of_neg (hr d rfl)]
  have hdrop : rest.dropWhile p = rest := by
    cases rest with
    | nil => rfl
    | cons d rest => rw [List.dropWhile_cons_of_neg (hr d rfl)]
  unfold Cut.run
  rw [List.takeWhile_append_of_pos h, List.dropWhile_append_of_pos h, htake, hdrop,
    List.append_nil]

theorem head_dropWhile {p : Char → Bool} {cs : List Char} {d : Char}
    (h : (cs.dropWhile p).head? = some d) : ¬ p d := by
  have := List.head?_dropWhile_not p cs
  rw [h] at this
  simpa using this

namespace Lexeme

variable {l : Lexeme} {first c : Char}

theorem goesOn_of_isSpace (hf : l.text.head? = some first) (h : isSpace first) :
    l.GoesOn c ↔ isSpace c := by
  constructor
  · intro h'
    obtain ⟨d, hd, hg⟩ := h'
    obtain rfl : first = d := Option.some.inj (hf.symm.trans hd)
    rcases hg with hg | hg | hg | hg
    · exact hg.2
    · rw [not_isSpace_of_isDigit hg.1] at h
      cases h
    · rw [not_isSpace_of_isNameChar hg.1] at h
      cases h
    · rw [hg.1] at hf
      cases hf
      exact absurd h (by decide)
  · exact fun hc => ⟨first, hf, .inl ⟨h, hc⟩⟩

theorem goesOn_of_isDigit (hf : l.text.head? = some first) (h : first.isDigit) :
    l.GoesOn c ↔ c.isDigit := by
  constructor
  · intro h'
    obtain ⟨d, hd, hg⟩ := h'
    obtain rfl : first = d := Option.some.inj (hf.symm.trans hd)
    rcases hg with hg | hg | hg | hg
    · rw [not_isSpace_of_isDigit h] at hg
      cases hg.1
    · exact hg.2
    · rw [not_isDigit_of_isNameChar hg.1] at h
      cases h
    · rw [hg.1] at hf
      cases hf
      exact absurd h (by decide)
  · exact fun hc => ⟨first, hf, .inr (.inl ⟨h, hc⟩)⟩

theorem goesOn_of_isNameChar (hf : l.text.head? = some first) (h : isNameChar first) :
    l.GoesOn c ↔ isNameChar c := by
  constructor
  · intro h'
    obtain ⟨d, hd, hg⟩ := h'
    obtain rfl : first = d := Option.some.inj (hf.symm.trans hd)
    rcases hg with hg | hg | hg | hg
    · rw [not_isSpace_of_isNameChar h] at hg
      cases hg.1
    · rw [not_isDigit_of_isNameChar h] at hg
      cases hg.1
    · exact hg.2
    · rw [hg.1] at hf
      cases hf
      exact absurd h (by decide)
  · exact fun hc => ⟨first, hf, .inr (.inr (.inl ⟨h, hc⟩))⟩

/-- A lexeme whose first character is of no class goes on only from `*` to `**`. -/
theorem goesOn_of_no_class {d : Char} (hf : l.text.head? = some d) (hs : isSpace d = false)
    (hd : d.isDigit = false) (hn : isNameChar d = false) :
    l.GoesOn c ↔ l.text = ['*'] ∧ c = '*' := by
  constructor
  · intro h
    obtain ⟨first, hfirst, hg⟩ := h
    obtain rfl : d = first := Option.some.inj (hf.symm.trans hfirst)
    rw [hs, hd, hn] at hg
    simpa using hg
  · exact fun hc => ⟨d, hf, .inr (.inr (.inr hc))⟩

/-- Nothing makes a lexeme longer that starts with a brace or a backslash. -/
theorem endsBefore_of_head (hc : l.text.head? = some c) (h : c = '{' ∨ c = '\\')
    (rest : List Char) : l.EndsBefore rest := by
  have hclass : isSpace c = false ∧ c.isDigit = false ∧ isNameChar c = false := by
    rcases h with rfl | rfl <;> decide
  intro d _ hg
  have htext := ((goesOn_of_no_class hc hclass.1 hclass.2.1 hclass.2.2).1 hg).1
  rw [htext] at hc
  obtain rfl := Option.some.inj hc
  exact absurd h (by decide)

/-- The fixed texts are `**` and the single characters. -/
theorem sign_cases {k : Kind} {text : List Char} (h : k.fixedText? = some (String.ofList text)) :
    k = .starStar ∧ text = ['*', '*'] ∨ ∃ c, text = [c] ∧ signKind? c = some k := by
  have htext : ∀ s, k.fixedText? = some s → text = s.toList := by
    intro s hs
    rw [hs] at h
    rw [Option.some.inj h, String.toList_ofList]
  cases k
  case starStar => exact .inl ⟨rfl, htext _ rfl⟩
  case eof | number | identifier => cases h
  all_goals exact .inr ⟨_, htext _ rfl, rfl⟩

theorem Valid.ne_nil (h : l.Valid) : l.text ≠ [] := by
  cases h with
  | blanks hne h | number hne h | identifier hne h => exact hne
  | comment | continuation | continuationCr => simp
  | sign h =>
      rcases sign_cases h with ⟨-, rfl⟩ | ⟨c, rfl, -⟩ <;> simp

theorem Valid.kind_ne_eof (h : l.Valid) : l.kind? ≠ some .eof := by
  cases h with
  | @sign k text h =>
      intro h'
      cases h'
      cases h
  | _ => simp

theorem valid_number_iff {text : List Char} :
    (Lexeme.mk (some .number) text).Valid ↔ text ≠ [] ∧ ∀ c ∈ text, c.isDigit := by
  constructor
  · intro h
    cases h with
    | number hne h => exact ⟨hne, h⟩
    | sign h => cases h
  · exact fun h => .number h.1 h.2

theorem valid_identifier_iff {text : List Char} :
    (Lexeme.mk (some .identifier) text).Valid ↔ text ≠ [] ∧ ∀ c ∈ text, isNameChar c := by
  constructor
  · intro h
    cases h with
    | identifier hne h => exact ⟨hne, h⟩
    | sign h => cases h
  · exact fun h => .identifier h.1 h.2

/-- There is one way to write a kind with a fixed text. -/
theorem valid_iff_of_fixedText? {k : Kind} {text : List Char} {s : String}
    (hk : k.fixedText? = some s) : (Lexeme.mk (some k) text).Valid ↔ text = s.toList := by
  constructor
  · intro h
    cases h with
    | number hne h | identifier hne h => cases hk
    | sign h => rw [Option.some.inj (hk.symm.trans h), String.toList_ofList]
  · intro h'
    subst h'
    exact .sign (by rw [hk, String.ofList_toList])

end Lexeme

theorem scan_of_signKind? {c : Char} {k : Kind} {rest : List Char} (hk : signKind? c = some k)
    (h : c = '*' → rest.head? ≠ some '*') : scan c rest = .ok ⟨some k, [c], rest⟩ := by
  obtain ⟨hs, hd, hn, hbrace, hback⟩ := facts_of_signKind? hk
  unfold scan
  rw [if_neg (by simp [hs]), if_neg (by simp [hd]), if_neg (by simp [hn]), if_neg hbrace,
    if_neg hback, hk]
  split
  · next heq => cases heq
  · next kind heq =>
      cases heq
      split
      · next rest' =>
          have hc := congrArg String.toList (Option.some.inj (signKind?_eq_some_iff.1 hk))
          simp at hc
          exact absurd rfl (h hc.symm)
      · rfl

theorem scan_of_isSpace {c : Char} {cs : List Char} (h : isSpace c) :
    scan c cs = .ok (.run none isSpace c cs) := by
  unfold scan
  rw [if_pos h]

theorem scan_of_isDigit {c : Char} {cs : List Char} (h : c.isDigit) :
    scan c cs = .ok (.run (some .number) Char.isDigit c cs) := by
  unfold scan
  rw [if_neg (by simp [not_isSpace_of_isDigit h]), if_pos h]

theorem scan_of_isNameChar {c : Char} {cs : List Char} (h : isNameChar c) :
    scan c cs = .ok (.run (some .identifier) isNameChar c cs) := by
  unfold scan
  rw [if_neg (by simp [not_isSpace_of_isNameChar h]),
    if_neg (by simp [not_isDigit_of_isNameChar h]), if_pos h]

namespace Lexeme

section
variable {k : Option Kind} {p : Char → Bool} {c : Char} {text rest : List Char}
  (hgo : ∀ {l : Lexeme} {first c : Char}, l.text.head? = some first → p first →
    (l.GoesOn c ↔ p c))

include hgo

/-- A run of a class that nothing makes longer is cut off whole. -/
theorem scan_run {cs : List Char} (hscan : ∀ {c cs}, p c → scan c cs = .ok (.run k p c cs))
    (hne : text ≠ []) (h : ∀ d ∈ text, p d) (he : (Lexeme.mk k text).EndsBefore rest)
    (hcs : text ++ rest = c :: cs) : scan c cs = .ok ⟨k, text, rest⟩ := by
  obtain ⟨first, text, rfl⟩ := List.exists_cons_of_ne_nil hne
  obtain ⟨rfl, rfl⟩ : first = c ∧ text ++ rest = cs := List.cons.inj hcs
  have hfirst : p first := h first (by simp)
  have hr : ∀ d, rest.head? = some d → ¬ p d := fun d hd hp => he d hd ((hgo rfl hfirst).2 hp)
  rw [hscan hfirst, Cut.run_eq (fun d hd => h d (List.mem_cons_of_mem _ hd)) hr]

/-- A run that was cut off is of one class, and complete. -/
theorem facts_of_run (cs : List Char) (hc : p c) :
    (∀ d ∈ (Cut.run k p c cs).text, p d) ∧
      (Cut.run k p c cs).lexeme.EndsBefore (Cut.run k p c cs).rest := by
  constructor
  · intro d hd
    rcases List.mem_cons.1 hd with rfl | hd
    · exact hc
    · exact List.all_eq_true.1 List.all_takeWhile d hd
  · intro d hd hg
    exact head_dropWhile hd ((hgo rfl hc).1 hg)

end

/-- A complete lexeme in front of a text is what is cut off it. -/
theorem Valid.scan {l : Lexeme} (h : l.Valid) {rest cs : List Char} {c : Char}
    (he : l.EndsBefore rest) (hcs : l.text ++ rest = c :: cs) :
    scan c cs = .ok ⟨l.kind?, l.text, rest⟩ := by
  cases h with
  | blanks hne h => exact scan_run goesOn_of_isSpace scan_of_isSpace hne h he hcs
  | number hne h => exact scan_run goesOn_of_isDigit scan_of_isDigit hne h he hcs
  | identifier hne h => exact scan_run goesOn_of_isNameChar scan_of_isNameChar hne h he hcs
  | @comment inside h =>
      obtain ⟨rfl, rfl⟩ : '{' = c ∧ inside ++ ['}'] ++ rest = cs := List.cons.inj hcs
      have hin : ∀ d ∈ inside, (decide (d ≠ '}')) = true := by
        intro d hd
        rw [decide_eq_true_eq]
        intro h'
        subst h'
        exact h hd
      show scanComment _ = _
      unfold scanComment
      rw [List.append_assoc, List.dropWhile_append_of_pos hin, List.takeWhile_append_of_pos hin]
      simp
  | continuation =>
      obtain ⟨rfl, rfl⟩ := List.cons.inj hcs
      rfl
  | continuationCr =>
      obtain ⟨rfl, rfl⟩ := List.cons.inj hcs
      rfl
  | @sign k text h =>
      rcases sign_cases h with ⟨rfl, rfl⟩ | ⟨d, rfl, hd⟩
      · obtain ⟨rfl, rfl⟩ := List.cons.inj hcs
        rfl
      · obtain ⟨rfl, rfl⟩ : d = c ∧ rest = cs := List.cons.inj hcs
        refine scan_of_signKind? hd fun hstar hhead => ?_
        exact he '*' hhead ⟨d, rfl, .inr (.inr (.inr ⟨by rw [hstar], rfl⟩))⟩

end Lexeme

theorem lexeme_of_scanComment {cs : List Char} {cut : Cut} (h : scanComment cs = .ok cut) :
    cut.lexeme.Valid ∧ cut.lexeme.EndsBefore cut.rest := by
  unfold scanComment at h
  split at h
  · cases h
  · next brace rest hd =>
      cases h
      have hbrace : brace = '}' := by
        have hhead : (cs.dropWhile fun d => decide (d ≠ '}')).head? = some brace := by
          rw [hd]
          rfl
        simpa using head_dropWhile hhead
      have hin : '}' ∉ cs.takeWhile (fun d => decide (d ≠ '}')) := by
        intro hmem
        have := List.all_eq_true.1 List.all_takeWhile _ hmem
        simp at this
      subst hbrace
      refine ⟨.comment hin, fun d _ hg => ?_⟩
      have := ((Lexeme.goesOn_of_no_class (d := '{') rfl rfl rfl rfl).1 hg).1
      cases this

theorem lexeme_of_scanContinuation {cs : List Char} {cut : Cut}
    (h : scanContinuation cs = .ok cut) : cut.lexeme.Valid ∧ cut.lexeme.EndsBefore cut.rest := by
  unfold scanContinuation at h
  split at h
  · cases h
    refine ⟨.continuation, fun d _ hg => ?_⟩
    cases ((Lexeme.goesOn_of_no_class (d := '\\') rfl rfl rfl rfl).1 hg).1
  · cases h
    refine ⟨.continuationCr, fun d _ hg => ?_⟩
    cases ((Lexeme.goesOn_of_no_class (d := '\\') rfl rfl rfl rfl).1 hg).1
  · cases h

/-- What is cut off a text is a complete lexeme. -/
theorem lexeme_of_scan {c : Char} {cs : List Char} {cut : Cut} (h : scan c cs = .ok cut) :
    cut.lexeme.Valid ∧ cut.lexeme.EndsBefore cut.rest := by
  unfold scan at h
  split at h
  · next hc =>
      cases h
      have hf := Lexeme.facts_of_run (k := none) Lexeme.goesOn_of_isSpace cs hc
      exact ⟨.blanks (by simp [Cut.run]) hf.1, hf.2⟩
  split at h
  · next hc =>
      cases h
      have hf := Lexeme.facts_of_run (k := some .number) Lexeme.goesOn_of_isDigit cs hc
      exact ⟨.number (by simp [Cut.run]) hf.1, hf.2⟩
  split at h
  · next hc =>
      cases h
      have hf := Lexeme.facts_of_run (k := some .identifier)
        Lexeme.goesOn_of_isNameChar cs hc
      exact ⟨.identifier (by simp [Cut.run]) hf.1, hf.2⟩
  split at h
  · exact lexeme_of_scanComment h
  split at h
  · exact lexeme_of_scanContinuation h
  split at h
  · cases h
  · next kind hk =>
      split at h
      · cases h
        refine ⟨.sign rfl, fun d _ hg => ?_⟩
        cases ((Lexeme.goesOn_of_no_class (d := '*') rfl rfl rfl rfl).1 hg).1
      · next hstar =>
          cases h
          obtain ⟨hs, hd, hn, -⟩ := facts_of_signKind? hk
          refine ⟨.sign (signKind?_eq_some_iff.1 hk), fun d hd' hg => ?_⟩
          obtain ⟨htext, rfl⟩ := (Lexeme.goesOn_of_no_class rfl hs hd hn).1 hg
          obtain rfl : c = '*' := (List.cons.inj htext).1
          obtain ⟨rest, hcs⟩ := List.head?_eq_some_iff.1 hd'
          exact hstar rest (Option.some.inj hk.symm) hcs

/-- Cutting once takes off the complete lexeme that the text starts with. -/
theorem scan_eq_ok_iff {c : Char} {cs : List Char} {cut : Cut} :
    scan c cs = .ok cut ↔
      cut.lexeme.Valid ∧ cut.lexeme.EndsBefore cut.rest ∧ cut.text ++ cut.rest = c :: cs := by
  constructor
  · intro h
    obtain ⟨hv, he⟩ := lexeme_of_scan h
    exact ⟨hv, he, text_append_rest_of_scan h⟩
  · intro h'
    obtain ⟨hv, he, hcs⟩ := h'
    exact hv.scan he hcs

/-! ## Tilings -/

/-- The text that lexemes make up. -/
def joined (ls : List Lexeme) : List Char := (ls.map Lexeme.text).flatten

/-- The words among lexemes, the first of which starts at `offset`. -/
def words (offset : Nat) : List Lexeme → List Token
  | [] => []
  | l :: ls => (l.word? offset).toList ++ words (offset + byteLength l.text) ls

/-- Lexemes that a text is cut into: all of them valid, and each complete in front of the
    later ones. -/
inductive Tiles : List Lexeme → Prop where
  | nil : Tiles []
  | cons {l : Lexeme} {ls : List Lexeme} (hl : l.Valid) (he : l.EndsBefore (joined ls))
      (hs : Tiles ls) : Tiles (l :: ls)

theorem Tiles.valid_of_mem {ls : List Lexeme} (h : Tiles ls) {l : Lexeme} (hl : l ∈ ls) :
    l.Valid := by
  induction h with
  | nil => cases hl
  | cons hv _ _ ih =>
      rcases List.mem_cons.1 hl with rfl | hl
      · exact hv
      · exact ih hl

@[simp] theorem joined_nil : joined [] = [] := rfl

@[simp] theorem joined_cons (l : Lexeme) (ls : List Lexeme) :
    joined (l :: ls) = l.text ++ joined ls := rfl

@[simp] theorem joined_append (xs ys : List Lexeme) :
    joined (xs ++ ys) = joined xs ++ joined ys := by
  simp [joined]

@[simp] theorem words_nil (offset : Nat) : words offset [] = [] := rfl

theorem words_cons (offset : Nat) (l : Lexeme) (ls : List Lexeme) :
    words offset (l :: ls) = (l.word? offset).toList ++ words (offset + byteLength l.text) ls :=
  rfl

theorem words_append (offset : Nat) (xs ys : List Lexeme) :
    words offset (xs ++ ys) = words offset xs ++ words (offset + byteLength (joined xs)) ys := by
  induction xs generalizing offset with
  | nil => rfl
  | cons l xs ih =>
      rw [List.cons_append, words_cons, words_cons, ih, joined_cons, byteLength_append,
        List.append_assoc, Nat.add_assoc]

/-- To prove something of every text, it is enough to prove it of a text of which it holds
    behind its first lexeme. -/
theorem text_induction {motive : List Char → Prop} (nil : motive [])
    (cons : ∀ c cs, (∀ cut, scan c cs = .ok cut → motive cut.rest) → motive (c :: cs))
    (cs : List Char) : motive cs := by
  induction h : cs.length using Nat.strongRecOn generalizing cs with
  | ind n ih =>
      cases cs with
      | nil => exact nil
      | cons c cs =>
          refine cons c cs fun cut hcut => ih cut.rest.length ?_ cut.rest rfl
          rw [← h]
          exact length_rest_of_scan hcut

/-- A complete lexeme in front of a text is taken off it first. -/
theorem Lexeme.Valid.tokensFrom_append {l : Lexeme} (h : l.Valid) {cs : List Char}
    (he : l.EndsBefore cs) (offset : Nat) :
    tokensFrom offset (l.text ++ cs) =
      (tokensFrom (offset + byteLength l.text) cs).map ((l.word? offset).toList ++ ·) := by
  obtain ⟨c, rest, hcs⟩ := List.exists_cons_of_ne_nil
    (List.append_ne_nil_of_left_ne_nil h.ne_nil cs)
  rw [hcs, tokensFrom_of_scan offset (h.scan he hcs)]
  rfl

/-- The tokens of a text are the words of the lexemes that it is cut into, and the mark of its
    end. -/
theorem tokensFrom_eq_ok_iff {offset : Nat} {cs : List Char} {ts : List Token} :
    tokensFrom offset cs = .ok ts ↔
      ∃ ls, Tiles ls ∧ cs = joined ls ∧
        ts = words offset ls ++ [.eof (offset + byteLength cs)] := by
  constructor
  · intro h
    induction cs using text_induction generalizing offset ts with
    | nil =>
        rw [tokensFrom_nil] at h
        exact ⟨[], .nil, rfl, (Except.ok.inj h).symm⟩
    | cons c cs ih =>
        cases hscan : scan c cs with
        | error cause =>
            rw [tokensFrom_of_scan_error offset hscan] at h
            cases h
        | ok cut =>
            rw [tokensFrom_of_scan offset hscan] at h
            cases hrest : tokensFrom (offset + byteLength cut.text) cut.rest with
            | error e =>
                rw [hrest] at h
                cases h
            | ok ts' =>
                rw [hrest] at h
                obtain ⟨ls, htiles, hcs, hts⟩ := ih cut hscan hrest
                obtain ⟨hv, he, hjoin⟩ := scan_eq_ok_iff.1 hscan
                refine ⟨cut.lexeme :: ls, .cons hv (hcs ▸ he) htiles, ?_, ?_⟩
                · rw [← hjoin, joined_cons, ← hcs]
                  rfl
                · rw [← Except.ok.inj h, hts, ← hjoin, byteLength_append, ← Nat.add_assoc,
                    words_cons, List.append_assoc]
                  rfl
  · intro h'
    obtain ⟨ls, htiles, rfl, rfl⟩ := h'
    induction htiles generalizing offset with
    | nil => exact tokensFrom_nil offset
    | @cons l ls hl he hs ih =>
        rw [joined_cons, hl.tokensFrom_append he, ih, words_cons, byteLength_append,
          List.append_assoc, Nat.add_assoc]
        rfl

/-- As `tokensFrom_eq_ok_iff`, for whole texts. -/
theorem tokenize_eq_ok_iff {source : String} {ts : List Token} :
    tokenize source = .ok ts ↔
      ∃ ls, Tiles ls ∧ source.toList = joined ls ∧
        ts = words 0 ls ++ [.eof source.utf8ByteSize] := by
  unfold tokenize
  rw [tokensFrom_eq_ok_iff, Nat.zero_add, byteLength_toList]

/-! ## Parts of a tiling -/

theorem Tiles.of_append_right {xs ys : List Lexeme} (h : Tiles (xs ++ ys)) : Tiles ys := by
  induction xs with
  | nil => exact h
  | cons l xs ih =>
      cases h with
      | cons hl he hs => exact ih hs

theorem Tiles.of_append_left {xs ys : List Lexeme} (h : Tiles (xs ++ ys)) : Tiles xs := by
  induction xs with
  | nil => exact .nil
  | cons l xs ih =>
      cases h with
      | cons hl he hs =>
          refine .cons hl (fun c hc => he c ?_) (ih hs)
          show (joined (xs ++ ys)).head? = some c
          rw [joined_append, List.head?_append, hc]
          rfl

/-- Where a word stands, the lexemes can be split. -/
theorem words_eq_append_cons {offset : Nat} {ls : List Lexeme} {xs ys : List Token} {t : Token}
    (h : words offset ls = xs ++ t :: ys) :
    ∃ before l after, ls = before ++ l :: after ∧ words offset before = xs ∧
      l.word? (offset + byteLength (joined before)) = some t ∧
      words (offset + byteLength (joined (before ++ [l]))) after = ys := by
  induction ls generalizing offset xs with
  | nil =>
      have hlen := congrArg List.length h
      simp at hlen
  | cons l ls ih =>
      have hlater : ∀ xs', words (offset + byteLength l.text) ls = xs' ++ t :: ys →
          xs = (l.word? offset).toList ++ xs' →
          ∃ before l' after, l :: ls = before ++ l' :: after ∧ words offset before = xs ∧
            l'.word? (offset + byteLength (joined before)) = some t ∧
            words (offset + byteLength (joined (before ++ [l']))) after = ys := by
        intro xs' h' hxs
        obtain ⟨before, l', after, rfl, hx, ht, hy⟩ := ih h'
        refine ⟨l :: before, l', after, rfl, ?_, ?_, ?_⟩
        · rw [words_cons, hx, hxs]
        · rw [joined_cons, byteLength_append, ← Nat.add_assoc, ht]
        · rw [List.cons_append, joined_cons, byteLength_append, ← Nat.add_assoc, hy]
      rw [words_cons] at h
      cases hw : l.word? offset with
      | none =>
          rw [hw] at h hlater
          exact hlater xs h rfl
      | some u =>
          rw [hw] at h hlater
          rcases xs with _ | ⟨x, xs⟩
          · obtain ⟨rfl, rfl⟩ := List.cons.inj h
            exact ⟨[], l, ls, rfl, rfl, hw, by simp⟩
          · obtain ⟨rfl, h'⟩ := List.cons.inj h
            exact hlater xs h' rfl

/-! ## Words -/

/-- The text of the token is written as its kind asks. -/
def Token.Lexical (t : Token) : Prop := (Lexeme.mk (some t.kind) t.text.toList).Valid

theorem Token.Lexical.kind_ne_eof {t : Token} (h : t.Lexical) : t.kind ≠ .eof :=
  fun hk => Lexeme.Valid.kind_ne_eof h (congrArg some hk)

theorem lexical_of_word? {offset : Nat} {l : Lexeme} {t : Token} (hl : l.Valid)
    (ht : l.word? offset = some t) : t.Lexical := by
  obtain ⟨kind?, text⟩ := l
  obtain ⟨kind, rfl, rfl⟩ := Option.map_eq_some_iff.1 ht
  unfold Token.Lexical
  rw [String.toList_ofList]
  exact hl

/-- The words of a tiling are written as their kinds ask. -/
theorem Tiles.lexical {ls : List Lexeme} (h : Tiles ls) {offset : Nat} {t : Token}
    (ht : t ∈ words offset ls) : t.Lexical := by
  induction h generalizing offset with
  | nil => cases ht
  | cons hl he hs ih =>
      rw [words_cons, List.mem_append, Option.mem_toList] at ht
      rcases ht with ht | ht
      · exact lexical_of_word? hl ht
      · exact ih ht

end ArithLang
