/-
  Where the errors of a text stand.

  An error that stops the lexer stands in front of a character that starts no lexeme, and one
  that stops the parser in front of a word or at the end of the text. So an error stands between
  two characters, and no blank comes behind it (`cutBeforeWord_of_parse_error`). On its line it is
  never among the spaces at the front: the line can be cut at the end of these and again at the
  error (`exists_lineCut_of_parse_error`).
-/
import ArithLang.Proofs.LexicalError
import ArithLang.Proofs.Location
import ArithLang.Proofs.Threshold

namespace ArithLang

/-! ## In the text -/

/-- There is no blank in a word. -/
theorem Lexeme.Valid.isSpace_eq_false {l : Lexeme} (h : l.Valid) (hk : l.kind? ≠ none) {c : Char}
    (hc : c ∈ l.text) : isSpace c = false := by
  cases h with
  | blanks | comment | continuation | continuationCr => exact absurd rfl hk
  | number hne h => exact not_isSpace_of_isDigit (h c hc)
  | identifier hne h => exact not_isSpace_of_isNameChar (h c hc)
  | sign h =>
      rcases sign_cases h with ⟨-, rfl⟩ | ⟨d, rfl, hd⟩
      · obtain rfl : c = '*' := by simpa using hc
        rfl
      · obtain rfl := List.mem_singleton.1 hc
        exact (facts_of_signKind? hd).1

/-- A character that starts nothing is no blank. -/
theorem Stuck.isSpace_eq_false {c : Char} {after : List Char} {cause : Cause}
    (h : Stuck c after cause) : isSpace c = false := by
  cases h with
  | comment => rfl
  | character h => exact h.space

/-- The text is cut `pos` bytes into it, and no blank comes behind the cut. -/
def CutBeforeWord (cs : List Char) (pos : Nat) : Prop :=
  ∃ before after, cs = before ++ after ∧ byteLength before = pos ∧
    ∀ c, after.head? = some c → isSpace c = false

/-- What is left of the words starts at such a cut, at the latest at the end of the text. -/
theorem Tiles.cutBeforeWord {ls : List Lexeme} (h : Tiles ls) {used rest : List Token}
    (hwords : words 0 ls = used ++ rest) :
    CutBeforeWord (joined ls) (rest.headD (.eof (byteLength (joined ls)))).span.start := by
  cases rest with
  | nil => exact ⟨joined ls, [], by simp, rfl, nofun⟩
  | cons t rest =>
      obtain ⟨before, l, after, rfl, -, hl, -⟩ := words_eq_append_cons hwords
      obtain ⟨kind, hkind, rfl⟩ := Option.map_eq_some_iff.1 hl
      refine ⟨joined before, joined (l :: after), by simp, (Nat.zero_add _).symm, fun c hc => ?_⟩
      have hvalid : l.Valid := h.valid_of_mem (by simp)
      obtain ⟨d, ds, htext⟩ := List.exists_cons_of_ne_nil hvalid.ne_nil
      rw [joined_cons, htext] at hc
      refine hvalid.isSpace_eq_false (by simp [hkind]) (List.mem_of_head? ?_)
      rw [htext]
      exact hc

theorem cutBeforeWord_of_parse_error {source : String} {o : Options} {e : ParseError}
    (h : parse source o = .error e) : CutBeforeWord source.toList e.position := by
  cases ht : tokenize source with
  | error e' =>
      rw [parse_of_tokenize_error ht] at h
      obtain rfl := Except.error.inj h
      obtain ⟨before, c, after, hsource, hpos, -, hstuck⟩ := tokenize_eq_error_iff.1 ht
      refine ⟨before, c :: after, hsource, hpos, fun d hd => ?_⟩
      obtain rfl := Option.some.inj hd
      exact hstuck.isSpace_eq_false
  | ok ts =>
      rw [parse_of_tokenize ht] at h
      obtain ⟨ls, htiles, hsource, rfl⟩ := tokenize_eq_ok_iff.1 ht
      obtain ⟨f, rest, hf, rfl⟩ := failsBody_of_parseTokens rfl h
      obtain ⟨used, hused⟩ := hf.suffix
      rw [Fault.position_errorAt, hsource, ← byteLength_toList, hsource]
      exact htiles.cutBeforeWord hused.symm

/-! ## On its line -/

/-- The line of the place `pos` bytes into a text, cut at the end of the spaces at its front and
    at the place. Its line feed, if it has one, is the last character of `behind`. -/
structure LineCut (cs : List Char) (pos : Nat) (before spaces between behind after : List Char) :
    Prop where
  text : cs = before ++ (spaces ++ (between ++ (behind ++ after)))
  place : byteLength (before ++ (spaces ++ between)) = pos
  fresh : before = [] ∨ before.getLast? = some '\n'
  spaces : ∀ c ∈ spaces, c = ' '
  first : (between ++ behind).head? ≠ some ' '
  noFeed : '\n' ∉ between
  ends : (∃ line, '\n' ∉ line ∧ behind = line ++ ['\n']) ∨ '\n' ∉ behind ∧ after = []

theorem LineCut.around {cs before spaces between behind after : List Char} {pos : Nat}
    (h : LineCut cs pos before spaces between behind after) :
    ∃ line ending, Around cs pos before line ending after ∧
      line ++ ending = spaces ++ (between ++ behind) := by
  have hplace := h.place
  rw [byteLength_append] at hplace
  -- Both kinds of ending leave a line that is free of line feeds and reaches past the place.
  have haround {line ending : List Char} (hline : '\n' ∉ line)
      (hbehind : behind = line ++ ending) (hends : ending = ['\n'] ∨ ending = [] ∧ after = []) :
      Around cs pos before (spaces ++ between ++ line) ending after := by
    refine ⟨?_, h.fresh, ?_, hends, by omega, ?_⟩
    · rw [h.text, hbehind]
      simp
    · intro hmem
      rw [List.mem_append, List.mem_append] at hmem
      rcases hmem with (hmem | hmem) | hmem
      · exact absurd (h.spaces _ hmem) (by decide)
      · exact h.noFeed hmem
      · exact hline hmem
    · rw [byteLength_append]
      omega
  rcases h.ends with ⟨line, hline, hbehind⟩ | ⟨hbehind, hafter⟩
  · exact ⟨_, _, haround hline hbehind (.inl rfl), by simp [hbehind]⟩
  · exact ⟨_, _, haround hbehind (List.append_nil _).symm (.inr ⟨rfl, hafter⟩), by simp⟩

/-- Of two cuts of a text, the one further on has what is between them in front of it. -/
theorem exists_append_of_byteLength_le {xs ys zs ws : List Char} (h : xs ++ ys = zs ++ ws)
    (hle : byteLength xs ≤ byteLength zs) : ∃ ms, zs = xs ++ ms ∧ ys = ms ++ ws := by
  rcases List.append_eq_append_iff.1 h with ⟨ms, hzs, hys⟩ | ⟨ms, rfl, rfl⟩
  · exact ⟨ms, hzs, hys⟩
  · rw [byteLength_append] at hle
    obtain rfl : ms = [] := byteLength_eq_zero.1 (by omega)
    exact ⟨[], by simp, by simp⟩

/-- Without its leading spaces a text starts with no space, if what follows it does not. -/
theorem head?_dropWhile_append_ne (cs : List Char) {rest : List Char}
    (h : rest.head? ≠ some ' ') : (cs.dropWhile (· = ' ') ++ rest).head? ≠ some ' ' := by
  cases hdrop : cs.dropWhile (· = ' ') with
  | nil => exact h
  | cons d ds =>
      have hd : (cs.dropWhile (· = ' ')).head? = some d := by rw [hdrop]; rfl
      intro hhead
      exact head_dropWhile hd (decide_eq_true (Option.some.inj hhead))

/-- The line around a cut in front of a word is cut there, behind all its leading spaces. -/
theorem Around.exists_lineCut {cs before line ending after : List Char} {pos : Nat}
    (h : Around cs pos before line ending after) (hcut : CutBeforeWord cs pos) :
    ∃ spaces between behind, LineCut cs pos before spaces between behind after := by
  obtain ⟨front, rest, htext, hpos, hword⟩ := hcut
  obtain ⟨left, rfl, hleft⟩ := exists_append_of_byteLength_le (h.text.symm.trans htext)
    (by rw [hpos]; exact h.start_le)
  have hlen := h.le_stop
  rw [byteLength_append] at hpos
  obtain ⟨right, rfl, hright⟩ := exists_append_of_byteLength_le hleft.symm (by omega)
  refine ⟨left.takeWhile (· = ' '), left.dropWhile (· = ' '), right ++ ending, ?_⟩
  have hleft := List.takeWhile_append_dropWhile (p := (· = ' ')) (l := left)
  refine ⟨?_, ?_, h.fresh, ?_, ?_, ?_, ?_⟩
  · rw [← List.append_assoc _ _ (right ++ ending ++ after), hleft, h.text]
    simp
  · rw [hleft, byteLength_append, hpos]
  · intro c hc
    simpa using List.all_eq_true.1 List.all_takeWhile c hc
  · apply head?_dropWhile_append_ne
    intro hhead
    have hblank : rest.head? = some ' ' := by
      rw [hright, ← List.append_assoc, List.head?_append, hhead]
      rfl
    exact absurd (hword ' ' hblank) (by decide)
  · intro hmem
    exact h.noFeed (List.mem_append_left _ ((List.dropWhile_sublist _).mem hmem))
  · have hfree : '\n' ∉ right := fun hmem => h.noFeed (List.mem_append_right _ hmem)
    rcases h.ends with rfl | ⟨rfl, rfl⟩
    · exact .inl ⟨right, hfree, rfl⟩
    · exact .inr ⟨by rwa [List.append_nil], rfl⟩

theorem exists_lineCut_of_parse_error {source : String} {o : Options} {e : ParseError}
    (h : parse source o = .error e) :
    ∃ before spaces between behind after,
      LineCut source.toList e.position before spaces between behind after := by
  have hcut := cutBeforeWord_of_parse_error h
  rcases locate_cases source e.position with ⟨hlt, -⟩ | ⟨before, line, ending, after, hline, -⟩
  · obtain ⟨front, rest, htext, hpos, -⟩ := hcut
    rw [← byteLength_toList, htext, byteLength_append] at hlt
    omega
  · obtain ⟨spaces, between, behind, hline⟩ := hline.exists_lineCut hcut
    exact ⟨before, spaces, between, behind, after, hline⟩

end ArithLang
