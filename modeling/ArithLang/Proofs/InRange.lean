/-
  Nothing is looked up that is not there.

  On the way from a text to its program, or to the picture of its error, there are four steps that
  could miss: taking the text from the lexer's place on, looking up the token at the parser's index,
  taking a line from behind its leading spaces on, and filling up the line of the caret, which
  has a largest width. `diagnose?` goes all the way with these steps as they are, by byte offsets
  and by index, and gives nothing where one of them misses.

  The first three never do. The lexer moves on by whole lexemes, and so stands between two
  characters whenever it reads (`Cursor.tokens?_eq`); spaces take one byte each
  (`Diagnostic.cutExcerpt?_eq`); and for the index there is `readByIndex?_eq`. The last one does:
  behind the spaces at its front a line may have any length, and an error may stand anywhere on it
  (`render?_longLine`).
-/
import ArithLang.Proofs.Indexing
import ArithLang.Proofs.Picture
import ArithLang.Text.Cursor

namespace ArithLang

/-! ## Words by byte offset -/

/-- The words from the cursor on, cut off in less than `room` steps. Nothing if more are needed, or
    if the cursor comes to a place where the text cannot be read. -/
def Cursor.tokens? : (room : Nat) → Cursor → Option (Except ParseError (List Token))
  | 0, _ => none
  | room + 1, c =>
      if c.atEnd then some (.ok [.eof c.offset])
      else c.rest?.bind fun rest =>
        match rest.toList with
        | [] => none
        | d :: ds =>
          match scan d ds with
          | .error (.invalidCharacter _) =>
              c.peek?.map fun found => .error ⟨.invalidCharacter found, c.offset⟩
          | .error cause => some (.error ⟨cause, c.offset⟩)
          | .ok cut =>
              ((c.advance (byteLength cut.text)).tokens? room).map
                (Except.map ((cut.word? c.offset).toList ++ ·))

/-- Behind whole characters the words are those of the text that is left. -/
theorem Cursor.tokens?_eq {text : String} {before rest : List Char}
    (h : text.toList = before ++ rest) {room : Nat} (hroom : rest.length < room) :
    (Cursor.mk text (byteLength before)).tokens? room =
      some (tokensFrom (byteLength before) rest) := by
  induction room generalizing before rest with
  | zero => cases hroom
  | succ room ih =>
      have hsize : text.utf8ByteSize = byteLength before + byteLength rest := by
        rw [← byteLength_toList, h, byteLength_append]
      have hdrop : dropBytes? (byteLength before) text.toList = some rest := by
        rw [h, dropBytes?_byteLength_append]
      unfold Cursor.tokens?
      cases rest with
      | nil =>
          have hend : (Cursor.mk text (byteLength before)).atEnd = true := decide_eq_true hsize.le
          rw [if_pos hend, tokensFrom_nil]
      | cons d ds =>
          have hpos := d.utf8Size_pos
          rw [byteLength_cons] at hsize
          have hend : ¬ (Cursor.mk text (byteLength before)).atEnd = true := by
            have hlt : byteLength before < text.utf8ByteSize := by omega
            exact mt of_decide_eq_true (Nat.not_le.2 hlt)
          have hrest : (Cursor.mk text (byteLength before)).rest? =
              some (String.ofList (d :: ds)) := by
            unfold Cursor.rest?
            rw [hdrop]
            rfl
          have hpeek : (Cursor.mk text (byteLength before)).peek? = some d := by
            unfold Cursor.peek?
            rw [hdrop]
            rfl
          rw [if_neg hend, hrest]
          simp only [Option.bind_some, String.toList_ofList]
          cases hscan : scan d ds with
          | error cause =>
              rw [tokensFrom_of_scan_error _ hscan]
              cases scan_eq_error_iff.1 hscan with
              | comment => rfl
              | character =>
                  dsimp only
                  rw [hpeek]
                  rfl
          | ok cut =>
              have hcut := text_append_rest_of_scan hscan
              have hlength := length_rest_of_scan hscan
              have htext : text.toList = (before ++ cut.text) ++ cut.rest := by
                rw [h, List.append_assoc, hcut]
              have hnext := ih htext (Nat.lt_of_lt_of_le hlength (Nat.le_of_lt_succ hroom))
              rw [byteLength_append] at hnext
              dsimp only [Cursor.advance]
              rw [hnext, tokensFrom_of_scan _ hscan]
              rfl

/-- The words of a text, by byte offset. -/
def tokenizeByOffset? (source : String) : Option (Except ParseError (List Token)) :=
  (Cursor.ofText source).tokens? (source.length + 1)

theorem tokenizeByOffset?_eq (source : String) :
    tokenizeByOffset? source = some (tokenize source) :=
  @Cursor.tokens?_eq source [] _ rfl _ (Nat.lt_succ_self _)

namespace Diagnostic

/-! ## Pictures by byte offset -/

/-- The lines of a picture that show a place, with as many bytes of the line left off as there are
    spaces at its front. Nothing if that is inside a character, or if the caret would stand too
    far out. -/
def cutExcerpt? (place : Location) : Option (List String) :=
  (dropBytes? (indent place.text) place.text).bind fun line =>
    let dashes := place.column - indent place.text
    if dashes + 1 ≤ maxCaretWidth then
      some (excerptLines place.number (trimEnd line) dashes)
    else none

/-- The picture of an error in a text that is called `file`, by byte offset. -/
def cutRender? (error : ParseError) (source file : String) : Option String := do
  let heading := [header error.cause, "-> " ++ file]
  let lines ←
    match locate source error.position with
    | none => some heading
    | some place => (cutExcerpt? place).map (heading ++ ·)
  return String.join (lines.map (· ++ "\n"))

/-- Spaces take one byte each. -/
theorem dropBytes?_indent (line : List Char) :
    dropBytes? (indent line) line = some (line.dropWhile (· = ' ')) := by
  refine dropBytes?_eq_some_iff.2 ⟨line.takeWhile (· = ' '), ?_, ?_⟩
  · exact List.takeWhile_append_dropWhile.symm
  · refine byteLength_eq_length_iff.2 fun c hc => ?_
    rw [of_decide_eq_true (List.all_eq_true.1 List.all_takeWhile c hc)]
    decide

theorem cutExcerpt?_eq (place : Location) : cutExcerpt? place = excerpt? place := by
  unfold cutExcerpt?
  rw [dropBytes?_indent, excerpt?_eq]
  rfl

theorem cutRender?_eq (error : ParseError) (source file : String) :
    cutRender? error source file = render? error source file := by
  unfold cutRender? render?
  cases locate source error.position with
  | none => rfl
  | some place => simp only [cutExcerpt?_eq]

/-! ## All the way -/

/-- The program of a text, or the picture of its error, looked up by byte offset and by index.
    Nothing if a step on the way misses. -/
def diagnose? (source file : String) (o : Options) : Option (Except String Program) :=
  (tokenizeByOffset? source).bind fun
    | .error e => (cutRender? e source file).map .error
    | .ok tokens => (readByIndex? tokens o).bind fun
      | .error e => (cutRender? e source file).map .error
      | .ok p => some (.ok p)

theorem diagnose?_eq (source file : String) (o : Options) :
    diagnose? source file o =
      match parse source o with
      | .error e => (render? e source file).map .error
      | .ok p => some (.ok p) := by
  unfold diagnose?
  simp only [tokenizeByOffset?_eq, readByIndex?_eq, cutRender?_eq, Option.bind_some]
  cases ht : tokenize source with
  | error e => rw [parse_of_tokenize_error ht]
  | ok tokens => rw [parse_of_tokenize ht]

/-! ## A line that is too long -/

/-- `n` digits, and behind them a character that starts nothing. -/
def longLine (n : Nat) : String := String.ofList (List.replicate n '9' ++ ['&'])

theorem byteLength_replicate_nine (n : Nat) : byteLength (List.replicate n '9') = n := by
  have hascii : ∀ c ∈ List.replicate n '9', c.val ≤ 127 := by
    intro c hc
    rw [List.eq_of_mem_replicate hc]
    decide
  rw [byteLength_eq_length_iff.2 hascii, List.length_replicate]

theorem parse_longLine {n : Nat} (hn : n ≠ 0) (o : Options) :
    parse (longLine n) o = .error ⟨.invalidCharacter '&', n⟩ := by
  apply parse_of_tokenize_error
  have hvalid : (Lexeme.mk (some .number) (List.replicate n '9')).Valid := by
    refine .number (mt (List.replicate_eq_nil_iff '9').1 hn) fun c hc => ?_
    rw [List.eq_of_mem_replicate hc]
    decide
  have htiles : Tiles [⟨some .number, List.replicate n '9'⟩] := .cons hvalid nofun .nil
  have hstarts : StartsNothing '&' [] := ⟨by decide, by decide, by decide, by decide, by decide⟩
  refine tokenize_eq_error_iff.2 ⟨List.replicate n '9', '&', [], String.toList_ofList,
    byteLength_replicate_nine n, ?_, .character hstarts⟩
  exact exists_tokenize_ofList_iff.2 ⟨_, htiles, (List.append_nil _).symm⟩

theorem lineCut_longLine (n : Nat) :
    LineCut (longLine n).toList n [] [] (List.replicate n '9') ['&'] [] where
  text := String.toList_ofList
  place := byteLength_replicate_nine n
  fresh := .inl rfl
  spaces := nofun
  first := by cases n <;> simp [List.replicate_succ]
  noFeed := fun hmem => absurd (List.eq_of_mem_replicate hmem) (by decide)
  ends := .inr ⟨by decide, rfl⟩

/-- There is a picture for up to 65534 digits, and none for more. -/
theorem render?_longLine (n : Nat) (file : String) :
    render? ⟨.invalidCharacter '&', n⟩ (longLine n) file = none ↔ 65535 ≤ n := by
  have hline := lineCut_longLine n
  rw [render?_eq_none_iff hline.locate_eq, indent_of_lineCut hline, Nat.add_sub_cancel_left,
    byteLength_replicate_nine]
  exact Nat.lt_succ_iff

/-- On the way from a text to its program no step misses, and on the way to the picture of its error
    none but the last: there is no picture exactly if, behind the spaces at the front of the line
    of the error, the caret would stand too far out. -/
theorem diagnose?_cases (source file : String) (o : Options) :
    (∀ p, parse source o = .ok p → diagnose? source file o = some (.ok p)) ∧
    ∀ e, parse source o = .error e →
      (∃ place, locate source e.position = some place ∧
        (render? e source file = none ↔ 65535 < place.column - indent place.text + 1)) ∧
      (render? e source file = none ↔ diagnose? source file o = none) ∧
      ∀ picture, render? e source file = some picture ↔
        diagnose? source file o = some (.error picture) := by
  refine ⟨fun p hp => by rw [diagnose?_eq, hp], fun e he => ?_⟩
  have hpicture : diagnose? source file o = (render? e source file).map .error := by
    rw [diagnose?_eq, he]
  rw [hpicture]
  refine ⟨?_, Option.map_eq_none_iff.symm, fun picture => ?_⟩
  · obtain ⟨before, spaces, between, behind, after, hline⟩ := exists_lineCut_of_parse_error he
    exact ⟨_, hline.locate_eq, render?_eq_none_iff hline.locate_eq file⟩
  · cases render? e source file <;> simp

/-- Behind 65535 digits there is no picture, and behind one there is. -/
theorem diagnose?_cases_longLine :
    diagnose? (longLine 65535) "f" {} = none ∧
      diagnose? (longLine 1) "f" {} = some (.error (String.join
        ["Error: InvalidCharacter (Character `&` is not part of the language)\n", "-> f\n", "  |\n",
          "1 | 9&\n", "  | -^\n"])) := by
  have hlong := parse_longLine (by decide : 65535 ≠ 0) {}
  have hshort := parse_longLine (by decide : 1 ≠ 0) {}
  have hpicture : render? ⟨.invalidCharacter '&', 1⟩ (longLine 1) "f" = some (String.join
      ["Error: InvalidCharacter (Character `&` is not part of the language)\n", "-> f\n", "  |\n",
        "1 | 9&\n", "  | -^\n"]) := by
    decide +kernel
  obtain ⟨-, hnone, -⟩ := (diagnose?_cases (longLine 65535) "f" {}).2 _ hlong
  obtain ⟨-, -, hsome⟩ := (diagnose?_cases (longLine 1) "f" {}).2 _ hshort
  exact ⟨hnone.1 ((render?_longLine 65535 "f").2 (Nat.le_refl _)), (hsome _).1 hpicture⟩

/-- Not every error of a text has a picture. -/
theorem not_isSome_render? :
    ¬ ∀ (source file : String) (o : Options) (e : ParseError),
      parse source o = .error e → (render? e source file).isSome := by
  intro hall
  have hsome := hall _ "f" {} _ (parse_longLine (by decide : 65535 ≠ 0) {})
  rw [(render?_longLine 65535 "f").2 (Nat.le_refl _)] at hsome
  cases hsome

end Diagnostic

end ArithLang
