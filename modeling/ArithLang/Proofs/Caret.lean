/-
  Where the caret of a picture stands.

  The caret stands behind one dash for each byte between the leading spaces of its line and the
  place of the error (`dashes_eq_byteLength`). What it is to point at stands behind as many
  characters of the same line, and the parts in front of both, the gutter and the number of the
  line, are of one length. So the caret is under the place exactly when all these characters
  take one byte each. A comment may hold others, and then the caret is too far to the right
  (`dashes_ne_length`).
-/
import ArithLang.Diagnostic
import ArithLang.Proofs.ErrorPlace

namespace ArithLang

/-! ## Characters of one byte -/

theorem length_le_byteLength (cs : List Char) : cs.length ≤ byteLength cs := by
  induction cs with
  | nil => exact Nat.le_refl 0
  | cons c cs ih =>
      have := c.utf8Size_pos
      rw [List.length_cons, byteLength_cons]
      omega

/-- A text has as many bytes as characters exactly when it is ASCII. -/
theorem byteLength_eq_length_iff {cs : List Char} :
    byteLength cs = cs.length ↔ ∀ c ∈ cs, c.val ≤ 127 := by
  induction cs with
  | nil => simp
  | cons c cs ih =>
      have := c.utf8Size_pos
      have := length_le_byteLength cs
      rw [List.forall_mem_cons, ← ih, ← Char.utf8Size_eq_one_iff, byteLength_cons,
        List.length_cons]
      omega

/-! ## The line that is shown -/

section
variable {source : String} {pos : Nat} {before spaces between behind after : List Char}

theorem LineCut.byteLength_spaces {cs : List Char}
    (h : LineCut cs pos before spaces between behind after) :
    byteLength spaces = spaces.length := by
  refine byteLength_eq_length_iff.2 fun c hc => ?_
  rw [h.spaces c hc]
  decide

theorem LineCut.locate_eq (h : LineCut source.toList pos before spaces between behind after) :
    locate source pos = some ⟨1 + before.count '\n', spaces ++ (between ++ behind),
      spaces.length + byteLength between⟩ := by
  obtain ⟨line, ending, hline, htext⟩ := h.around
  have hcolumn : pos - byteLength before = spaces.length + byteLength between := by
    rw [← h.place, byteLength_append, byteLength_append, h.byteLength_spaces]
    omega
  rw [hline.locate_eq, htext, hcolumn]

/-- The spaces at the front of the line are the leading ones, and no others. -/
theorem LineCut.takeWhile_eq {cs : List Char}
    (h : LineCut cs pos before spaces between behind after) :
    (spaces ++ (between ++ behind)).takeWhile (· = ' ') = spaces ∧
      (spaces ++ (between ++ behind)).dropWhile (· = ' ') = between ++ behind := by
  have hspaces : ∀ c ∈ spaces, decide (c = ' ') = true :=
    fun c hc => decide_eq_true (h.spaces c hc)
  rw [List.takeWhile_append_of_pos hspaces, List.dropWhile_append_of_pos hspaces]
  have hfirst := h.first
  cases hrest : between ++ behind with
  | nil => simp
  | cons c rest =>
      rw [hrest] at hfirst
      have hc : c ≠ ' ' := fun hc => hfirst (congrArg some hc)
      simp [hc]

end

/-! ## The picture -/

namespace Diagnostic

/-- What stands in front of a line that is shown. -/
def label (number : Nat) : String := toString number ++ " | "

/-- What stands in front of the dashes below that line. -/
def gutter (number : Nat) : String := padLeft ((toString number).length + 2) ' ' "|" ++ " "

theorem length_gutter (number : Nat) : (gutter number).length = (label number).length := by
  have hbar : "|".length = 1 := rfl
  have hspaced : " | ".length = 3 := rfl
  have hspace : " ".length = 1 := rfl
  simp only [gutter, label, padLeft, String.length_append, String.length_ofList,
    List.length_replicate]
  omega

theorem padLeft_bar (n : Nat) :
    padLeft (n + 2) ' ' "|" = String.ofList (List.replicate (n + 1) ' ') ++ "|" := rfl

/-- The lines that show a place: between a bar and the caret, both behind a gutter, the line with its
    number. -/
def excerptLines (number : Nat) (line : List Char) (dashes : Nat) : List String :=
  let bar := String.ofList (List.replicate ((toString number).length + 1) ' ') ++ "|"
  [bar, toString number ++ " | " ++ String.ofList line,
    bar ++ " " ++ (String.ofList (List.replicate dashes '-') ++ "^")]

theorem excerpt?_eq (place : Location) :
    excerpt? place =
      if place.column - indent place.text + 1 ≤ maxCaretWidth then
        some (excerptLines place.number (shown place.text) (place.column - indent place.text))
      else none := rfl

theorem render?_of_locate {source : String} {error : ParseError} {place : Location}
    (h : locate source error.position = some place) (file : String) :
    render? error source file =
      if place.column - indent place.text + 1 ≤ maxCaretWidth then
        some (String.join (([header error.cause, "-> " ++ file] ++
          excerptLines place.number (shown place.text) (place.column - indent place.text)).map
            (· ++ "\n")))
      else none := by
  unfold render?
  rw [h]
  show (excerpt? place).map _ >>= _ = _
  rw [excerpt?_eq]
  split <;> rfl

/-- There is no picture of a place exactly if its caret would stand too far out. -/
theorem render?_eq_none_iff {source : String} {error : ParseError} {place : Location}
    (h : locate source error.position = some place) (file : String) :
    render? error source file = none ↔ maxCaretWidth < place.column - indent place.text + 1 := by
  rw [render?_of_locate h, ← Nat.not_le]
  exact ite_eq_right_iff.trans (forall_congr' fun _ => iff_of_false nofun id)

theorem indent_of_lineCut {cs before spaces between behind after : List Char} {pos : Nat}
    (h : LineCut cs pos before spaces between behind after) :
    indent (spaces ++ (between ++ behind)) = spaces.length := by
  unfold indent
  rw [h.takeWhile_eq.1]

/-- The dashes right in front of the caret that ends a picture. -/
def dashes (picture : String) : Nat :=
  ((picture.toList.reverse.drop 2).takeWhile (· = '-')).length

theorem dashes_append (front : String) (number n : Nat) :
    dashes (front ++ (gutter number ++ String.ofList (List.replicate n '-') ++ "^\n")) = n := by
  simp [dashes, gutter]

/-- The last two lines of a picture show the line of the error, and below it the caret. -/
theorem render?_eq_of_lineCut {source file picture : String} {error : ParseError}
    {before spaces between behind after : List Char}
    (h : LineCut source.toList error.position before spaces between behind after)
    (hp : render? error source file = some picture) :
    ∃ front, picture = front ++
      (label (1 + before.count '\n') ++ String.ofList (trimEnd (between ++ behind)) ++ "\n") ++
      (gutter (1 + before.count '\n') ++
        String.ofList (List.replicate (byteLength between) '-') ++ "^\n") := by
  have hshown : shown (spaces ++ (between ++ behind)) = trimEnd (between ++ behind) :=
    congrArg trimEnd h.takeWhile_eq.2
  rw [render?_of_locate h.locate_eq, indent_of_lineCut h, hshown, Nat.add_sub_cancel_left] at hp
  split at hp
  · obtain rfl := Option.some.inj hp
    refine ⟨header error.cause ++ "\n" ++ ("-> " ++ file ++ "\n") ++
      (padLeft ((toString (1 + before.count '\n')).length + 2) ' ' "|" ++ "\n"), ?_⟩
    simp [String.join, excerptLines, gutter, label, padLeft_bar, String.append_assoc]
  · cases hp

/-- The dashes of the picture of an error are the bytes between the leading spaces of its line
    and its place. They are as many as the characters there, so that the caret is in the column
    of the error, exactly when each of these takes one byte. -/
theorem dashes_eq_byteLength {source file picture : String} {o : Options} {e : ParseError}
    (h : parse source o = .error e) (hp : render? e source file = some picture) :
    (∃ before spaces between behind after,
      LineCut source.toList e.position before spaces between behind after) ∧
    ∀ before spaces between behind after,
      LineCut source.toList e.position before spaces between behind after →
        dashes picture = byteLength between ∧
        (dashes picture = between.length ↔ ∀ c ∈ between, c.val ≤ 127) ∧
        ∃ front number, number = 1 + before.count '\n' ∧
          (gutter number).length = (label number).length ∧
          picture = front ++
            (label number ++ String.ofList (trimEnd (between ++ behind)) ++ "\n") ++
            (gutter number ++ String.ofList (List.replicate (dashes picture) '-') ++ "^\n") := by
  refine ⟨exists_lineCut_of_parse_error h, fun before spaces between behind after hline => ?_⟩
  obtain ⟨front, hpicture⟩ := render?_eq_of_lineCut hline hp
  have hdashes : dashes picture = byteLength between := by
    rw [hpicture, dashes_append]
  rw [hdashes, byteLength_eq_length_iff]
  exact ⟨rfl, Iff.rfl, front, _, rfl, length_gutter _, hpicture⟩

/-- The `&` in `{é}&` stands behind three characters of four bytes. -/
theorem lineCut_comment : LineCut "{é}&".toList 4 [] [] ['{', 'é', '}'] ['&'] [] where
  text := by decide +kernel
  place := by decide
  fresh := .inl rfl
  spaces := nofun
  first := by decide
  noFeed := by decide
  ends := .inr ⟨by decide, rfl⟩

theorem parse_comment : parse "{é}&" {} = .error ⟨.invalidCharacter '&', 4⟩ := by
  decide +kernel

theorem dashes_eq_byteLength_of_comment :
    ∃ e picture, parse "{é}&" {} = .error e ∧ render? e "{é}&" "f" = some picture ∧
      dashes picture = byteLength ['{', 'é', '}'] := by
  have hp : (render? ⟨.invalidCharacter '&', 4⟩ "{é}&" "f").isSome := by decide +kernel
  obtain ⟨picture, hp⟩ := Option.isSome_iff_exists.1 hp
  obtain ⟨-, hdashes⟩ := dashes_eq_byteLength parse_comment hp
  exact ⟨_, picture, parse_comment, hp, (hdashes _ _ _ _ _ lineCut_comment).1⟩

/-- The dashes are not always as many as the characters. -/
theorem dashes_ne_length :
    ¬ ∀ (source file picture : String) (o : Options) (e : ParseError)
        (before spaces between behind after : List Char),
      parse source o = .error e → render? e source file = some picture →
      LineCut source.toList e.position before spaces between behind after →
      dashes picture = between.length := by
  intro hall
  have hp : ∃ picture, render? ⟨.invalidCharacter '&', 4⟩ "{é}&" "f" = some picture ∧
      dashes picture = 4 := ⟨_, rfl, by decide +kernel⟩
  obtain ⟨picture, hp, hdashes⟩ := hp
  have heq := hall _ _ _ _ _ _ _ _ _ _ parse_comment hp lineCut_comment
  rw [hdashes] at heq
  exact absurd heq (by decide)

end Diagnostic

end ArithLang
