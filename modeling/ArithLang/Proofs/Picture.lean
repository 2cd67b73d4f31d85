/-
  The picture of an error of a text.

  An error of a text always has a picture, unless its caret would stand too far out. The picture
  has five lines and no more: neither what an error says (`oneLine_header`) nor the line that is
  shown holds a line feed, and the name of the text is free of them. The place of the error is
  never among the spaces that are not shown, so its byte is found again on the shown line, as far
  behind the gutter as the caret is (`render?_of_parse_error`).
-/
import ArithLang.Proofs.Caret
import ArithLang.Proofs.Expectation

namespace ArithLang

/-! ## Texts on one line -/

/-- There is no line feed in the text. -/
def OneLine (s : String) : Prop := '\n' ∉ s.toList

instance (s : String) : Decidable (OneLine s) := inferInstanceAs (Decidable (_ ∉ _))

@[simp] theorem oneLine_append {s t : String} : OneLine (s ++ t) ↔ OneLine s ∧ OneLine t := by
  simp [OneLine]

@[simp] theorem oneLine_ofList {cs : List Char} : OneLine (String.ofList cs) ↔ '\n' ∉ cs := by
  simp [OneLine]

/-- Numbers are written in digits and letters. -/
theorem exists_digitChar_of_mem_toDigits {b n : Nat} (hb : 1 < b) {c : Char}
    (hc : c ∈ Nat.toDigits b n) : ∃ d, c = Nat.digitChar d := by
  induction n using Nat.strong_induction_on with
  | _ n ih =>
      by_cases hn : n < b
      · rw [Nat.toDigits_of_lt_base hn] at hc
        exact ⟨n, List.mem_singleton.1 hc⟩
      · have hle := Nat.not_lt.1 hn
        rw [Nat.toDigits_of_base_le hb hle, List.mem_append] at hc
        rcases hc with hc | hc
        · exact ih _ (Nat.div_lt_self (by omega) hb) hc
        · exact ⟨_, List.mem_singleton.1 hc⟩

theorem lineFeed_notMem_toDigits {b n : Nat} (hb : 1 < b) : '\n' ∉ Nat.toDigits b n := by
  intro hmem
  obtain ⟨d, hd⟩ := exists_digitChar_of_mem_toDigits hb hmem
  exact Nat.digitChar_ne '\n' (by decide) hd.symm

theorem oneLine_toString (n : Nat) : OneLine (toString n) := by
  rw [Nat.toString_eq_ofList_toDigits, oneLine_ofList]
  exact lineFeed_notMem_toDigits (by decide)

/-- No letter behind a backslash stands for itself alone. -/
theorem shortEscape?_ne {c letter : Char} (h : shortEscape? c = some letter) : letter ≠ '\n' := by
  unfold shortEscape? at h
  repeat' split at h
  all_goals cases h
  all_goals decide

theorem oneLine_asciiEscape (c : Char) : OneLine (asciiEscape c) := by
  unfold asciiEscape
  split
  · next letter hletter =>
      rw [backslashed, oneLine_ofList]
      simp [(shortEscape?_ne hletter).symm]
  · next hnone =>
      have hc : c ≠ '\n' := by
        rintro rfl
        cases hnone
      have hcode : OneLine (codeEscape c) := by
        have hdigits : OneLine (String.ofList (Nat.toDigits 16 c.toNat)) :=
          oneLine_ofList.2 (lineFeed_notMem_toDigits (by decide))
        unfold codeEscape
        rw [oneLine_append, oneLine_append]
        exact ⟨⟨by decide, hdigits⟩, by decide⟩
      split
      · rw [backslashed, oneLine_ofList]
        simp [hc.symm]
      · split
        · simp [OneLine, hc.symm]
        · exact hcode

/-! ## What an error says -/

/-- The texts of the cause are on one line. -/
def Cause.TextsOneLine : Cause → Prop
  | .unexpectedToken expected found => OneLine expected ∧ OneLine found
  | .unexpectedEnd expected => OneLine expected
  | _ => True

theorem oneLine_expectation (mode : Mode) (read : List Token) :
    OneLine (expectation mode read) := by
  unfold expectation
  repeat' split
  all_goals decide

theorem Token.Lexical.oneLine {t : Token} (h : t.Lexical) : OneLine t.text := by
  intro hmem
  have hblank := Lexeme.Valid.isSpace_eq_false h (Option.some_ne_none _) hmem
  exact absurd hblank (by decide)

theorem textsOneLine_of_parse_error {source : String} {o : Options} {e : ParseError}
    (h : parse source o = .error e) : e.cause.TextsOneLine := by
  cases ht : tokenize source with
  | error e' =>
      rw [parse_of_tokenize_error ht] at h
      obtain rfl := Except.error.inj h
      obtain ⟨before, c, after, -, -, -, hstuck⟩ := tokenize_eq_error_iff.1 ht
      cases hcause : e'.cause with
      | unexpectedToken | unexpectedEnd =>
          rw [hcause] at hstuck
          cases hstuck
      | _ => trivial
  | ok ts =>
      rw [parse_of_tokenize ht] at h
      obtain ⟨ls, htiles, -, rfl⟩ := tokenize_eq_ok_iff.1 ht
      obtain ⟨f, rest, hf, rfl⟩ := failsBody_of_parseTokens rfl h
      cases f with
      | tooDeep => trivial
      | missing expected =>
          obtain ⟨used, hused, rfl⟩ := hf.eq_expectation rfl
          have hexpected := oneLine_expectation o.mode used
          cases rest with
          | nil => exact hexpected
          | cons t rest =>
              have hmem : t ∈ words 0 ls := by simp [hused]
              have hlexical : t.Lexical := htiles.lexical hmem
              have hcause : ((Fault.missing (expectation o.mode used)).errorAt o.maxDepth t).cause =
                  .unexpectedToken (expectation o.mode used) t.text := if_neg hlexical.kind_ne_eof
              rw [List.headD_cons, hcause]
              exact ⟨hexpected, hlexical.oneLine⟩

/-! ## The line of an error -/

section
variable {cs before spaces between behind after : List Char} {pos : Nat}

/-- The line feed at the end of a line is white space and not shown. -/
theorem LineCut.lineFeed_notMem_trimEnd (h : LineCut cs pos before spaces between behind after) :
    '\n' ∉ trimEnd (between ++ behind) := by
  have hfree {line : List Char} (hline : '\n' ∉ line) : '\n' ∉ trimEnd (between ++ line) := by
    intro hmem
    rcases List.mem_append.1 (mem_of_mem_trimEnd hmem) with hmem | hmem
    · exact h.noFeed hmem
    · exact hline hmem
  rcases h.ends with ⟨line, hline, rfl⟩ | ⟨hbehind, -⟩
  · rw [← List.append_assoc, trimEnd_append_blank _ (by decide)]
    exact hfree hline
  · exact hfree hbehind

/-- The byte at the place is found on the line behind its leading spaces. -/
theorem LineCut.getElem?_bytes (h : LineCut cs pos before spaces between behind after) :
    (bytes cs)[pos]? = (bytes (between ++ behind))[byteLength between]? := by
  have hfront : cs = (before ++ (spaces ++ between)) ++ (behind ++ after) := by
    rw [h.text]
    simp
  have hhead : (bytes (behind ++ after)).head? = (bytes behind).head? := by
    rcases h.ends with ⟨line, -, rfl⟩ | ⟨-, rfl⟩
    · have hne : bytes (line ++ ['\n']) ≠ [] := by simp [bytes]
      obtain ⟨x, xs, hxs⟩ := List.exists_cons_of_ne_nil hne
      rw [bytes_append (line ++ ['\n']), hxs]
      rfl
    · rw [List.append_nil]
  conv_lhs => rw [← h.place, hfront, getElem?_bytes_append, hhead]
  rw [getElem?_bytes_append]

end

namespace Diagnostic

/-! ## The lines of a picture -/

theorem oneLine_header {cause : Cause} (h : cause.TextsOneLine) : OneLine (header cause) := by
  have hliteral : OneLine "Error: " ∧ OneLine " (" ∧ OneLine ")" := by decide
  have hname : OneLine cause.name := by
    unfold Cause.name
    split <;> decide
  have htip : ∀ tip, cause.tip? = some tip → OneLine tip := by
    intro tip htip
    cases cause with
    | invalidCharacter c =>
        obtain rfl := Option.some.inj htip
        rw [oneLine_append, oneLine_append]
        exact ⟨⟨by decide, oneLine_asciiEscape c⟩, by decide⟩
    | unterminatedComment => cases htip
    | unexpectedToken expected found =>
        obtain rfl := Option.some.inj htip
        simp only [oneLine_append]
        exact ⟨⟨⟨⟨by decide, h.1⟩, by decide⟩, h.2⟩, by decide⟩
    | unexpectedEnd expected =>
        obtain rfl := Option.some.inj htip
        simp only [oneLine_append]
        exact ⟨⟨by decide, h⟩, by decide⟩
    | tooComplex limit =>
        obtain rfl := Option.some.inj htip
        rw [oneLine_append]
        exact ⟨by decide, oneLine_toString limit⟩
  unfold header
  split
  · exact oneLine_append.2 ⟨hliteral.1, hname⟩
  · next tip h' => simp [hliteral, hname, htip tip h']

theorem idxOf?_append_cons {xs : List Char} {c : Char} (h : c ∉ xs) (ys : List Char) :
    (xs ++ c :: ys).idxOf? c = some xs.length := by
  rw [List.idxOf?_eq_some_iff]
  refine ⟨by simp, by simp, fun j hj hc => h ?_⟩
  rw [List.getElem_append_left hj] at hc
  exact hc ▸ List.getElem_mem hj

/-- The bars of the three lines are in one column. -/
theorem idxOf?_bar_excerptLines (number : Nat) (line : List Char) (dashes : Nat) :
    ∀ l ∈ excerptLines number line dashes,
      l.toList.idxOf? '|' = some ((toString number).length + 1) := by
  have hspaces : '|' ∉ List.replicate ((toString number).length + 1) ' ' := by
    intro hmem
    exact absurd (List.eq_of_mem_replicate hmem) (by decide)
  have hnumber : '|' ∉ (toString number).toList ++ [' '] := by
    rw [Nat.toString_eq_ofList_toDigits, String.toList_ofList]
    intro hmem
    rcases List.mem_append.1 hmem with hmem | hmem
    · obtain ⟨d, hd⟩ := exists_digitChar_of_mem_toDigits (by decide) hmem
      exact Nat.digitChar_ne '|' (by decide) hd.symm
    · exact absurd (List.mem_singleton.1 hmem) (by decide)
  have hbar := fun ys => idxOf?_append_cons hspaces ys
  have hlabel := fun ys => idxOf?_append_cons hnumber ys
  simp only [List.length_replicate] at hbar
  simp only [List.length_append, String.length_toList] at hlabel
  simp only [excerptLines, List.forall_mem_cons]
  refine ⟨?_, ?_, ?_, List.forall_mem_nil _⟩
  · simpa using hbar []
  · simpa using hlabel (' ' :: line)
  · simpa using hbar (' ' :: (List.replicate dashes '-' ++ ['^']))

theorem oneLine_excerptLines {line : List Char} (h : '\n' ∉ line) (number dashes : Nat) :
    ∀ l ∈ excerptLines number line dashes, OneLine l := by
  have hfill (n : Nat) {c : Char} (hc : '\n' ≠ c) : '\n' ∉ List.replicate n c :=
    fun hmem => hc (List.eq_of_mem_replicate hmem)
  have hspaces := hfill ((toString number).length + 1) (by decide : '\n' ≠ ' ')
  have hdashes := hfill dashes (by decide : '\n' ≠ '-')
  have hnumber := oneLine_toString number
  have hliteral : OneLine "|" ∧ OneLine " | " ∧ OneLine " " ∧ OneLine "^" := by decide
  simp only [excerptLines, List.forall_mem_cons, oneLine_append, oneLine_ofList, hspaces, hdashes,
    hnumber, hliteral, h, not_false_eq_true, true_and]
  exact List.forall_mem_nil _

theorem drop_indent (line : List Char) : line.drop (indent line) = line.dropWhile (· = ' ') := by
  have hline := List.takeWhile_append_dropWhile (p := (· = ' ')) (l := line)
  calc line.drop (indent line)
      = (line.takeWhile (· = ' ') ++ line.dropWhile (· = ' ')).drop (indent line) := by rw [hline]
    _ = line.dropWhile (· = ' ') := List.drop_left

/-- Behind its leading spaces a line is what is shown of it and white space. -/
theorem shown_append_blanks (line : List Char) :
    ∃ blanks, line.drop (indent line) = shown line ++ blanks ∧
      ∀ c ∈ blanks, isBlank c = true := by
  rw [drop_indent]
  exact trimEnd_append_blanks _

theorem isBlank_getLast?_shown {line : List Char} {c : Char} (h : (shown line).getLast? = some c) :
    isBlank c = false := by
  have hne : shown line ≠ [] := by
    intro hnil
    rw [hnil] at h
    cases h
  rw [List.getLast?_eq_some_getLast hne] at h
  exact Option.some.inj h ▸ getLast_trimEnd _ hne

/-- The error of a text stands between two characters and not among the spaces at the front of its
    line. Unless the caret would stand too far out, there is a picture, of five lines: the name of
    the error and its tip, the name of the text, and three lines with a bar in the same column, the
    middle one with the line of the error from the first character that is no space to the last
    that is no white space. The caret stands as many bytes behind the gutter as the byte at the
    error stands behind those spaces. -/
theorem render?_of_parse_error {source file : String} {o : Options} {e : ParseError}
    (h : parse source o = .error e) (hfile : OneLine file) :
    (∃ before after, source.toList = before ++ after ∧ byteLength before = e.position) ∧
    e.position ≤ source.utf8ByteSize ∧
    ∃ place, locate source e.position = some place ∧ indent place.text ≤ place.column ∧
      (bytes source.toList)[e.position]? =
        (bytes (place.text.drop (indent place.text)))[place.column - indent place.text]? ∧
      (∃ blanks, place.text.drop (indent place.text) = shown place.text ++ blanks ∧
        ∀ c ∈ blanks, isBlank c = true) ∧
      (∀ c, (shown place.text).getLast? = some c → isBlank c = false) ∧
      (place.column - indent place.text + 1 ≤ 65535 →
        ∃ rows, rows = [header e.cause, "-> " ++ file] ++
            excerptLines place.number (shown place.text) (place.column - indent place.text) ∧
          render? e source file = some (String.join (rows.map (· ++ "\n"))) ∧
          (∀ row ∈ rows, OneLine row) ∧
          ∀ row ∈ rows.drop 2, row.toList.idxOf? '|' = some ((toString place.number).length + 1)) := by
  obtain ⟨before, spaces, between, behind, after, hline⟩ := exists_lineCut_of_parse_error h
  have hindent := indent_of_lineCut hline
  have hdrop := hline.takeWhile_eq.2
  refine ⟨⟨before ++ (spaces ++ between), behind ++ after, ?_, hline.place⟩, ?_,
    _, hline.locate_eq, ?_, ?_, shown_append_blanks _, fun c => isBlank_getLast?_shown, ?_⟩
  · rw [hline.text]
    simp
  · rw [← hline.place, ← byteLength_toList, hline.text]
    simp only [byteLength_append]
    omega
  · rw [hindent]
    exact Nat.le_add_right _ _
  · rw [drop_indent, hdrop, hindent, Nat.add_sub_cancel_left]
    exact hline.getElem?_bytes
  · intro hwidth
    refine ⟨_, rfl, (render?_of_locate hline.locate_eq file).trans (if_pos hwidth), ?_, ?_⟩
    · have hshown : '\n' ∉ shown (spaces ++ (between ++ behind)) := by
        unfold shown
        rw [hdrop]
        exact hline.lineFeed_notMem_trimEnd
      have harrow : OneLine ("-> " ++ file) := oneLine_append.2 ⟨by decide, hfile⟩
      intro row hmem
      rcases List.mem_append.1 hmem with hmem | hmem
      · rcases List.mem_cons.1 hmem with rfl | hmem
        · exact oneLine_header (textsOneLine_of_parse_error h)
        · exact List.mem_singleton.1 hmem ▸ harrow
      · exact oneLine_excerptLines hshown _ _ row hmem
    · exact idxOf?_bar_excerptLines _ _ _

/-- The `)` on the third line of its text is too much. The caret stands below it, behind two dashes. -/
theorem render?_of_parse_error_third_line :
    render? ⟨.unexpectedToken "end of input" ")", 10⟩ "\x7b\n\x7d +\n  2 ) \t" "f" =
      some (String.join ["Error: UnexpectedToken (Expected end of input, found `)`)\n", "-> f\n",
        "  |\n", "3 | 2 )\n", "  | --^\n"]) := by
  have h : parse "\x7b\n\x7d +\n  2 ) \t" {} =
      .error ⟨.unexpectedToken "end of input" ")", 10⟩ := by
    decide +kernel
  have hlocate : locate "\x7b\n\x7d +\n  2 ) \t" 10 = some ⟨3, "  2 ) \t".toList, 4⟩ := by
    decide +kernel
  obtain ⟨-, -, place, hplace, -, -, -, -, hpicture⟩ :=
    render?_of_parse_error h (by decide : OneLine "f")
  obtain rfl := Option.some.inj (hplace.symm.trans hlocate)
  obtain ⟨rows, rfl, hrender, -⟩ := hpicture (by decide +kernel)
  rw [hrender]
  decide +kernel

end Diagnostic

end ArithLang
