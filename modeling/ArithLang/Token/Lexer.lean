/-
  Cutting a text into words.

  `scan` takes the longest lexeme off the front of a text: a word, or something that
  stands between words (blanks, a line continuation, a comment). `tokensFrom` takes
  lexemes off until nothing is left and keeps the words, with their byte spans.

  A cut loses nothing (`text_append_rest_of_scan`) and always takes something
  (`text_ne_nil_of_scan`), so cutting comes to an end.
-/
import ArithLang.Text.Bytes
import ArithLang.ParseError
import ArithLang.Token

namespace ArithLang

/-! ## Classes of characters -/

/-- The blanks of the language, all of them ASCII. -/
def isSpace (c : Char) : Bool :=
  c = '\t' || c = '\n' || c = '\x0b' || c = '\x0c' || c = '\r' || c = ' '

/-- The characters of identifiers. -/
def isNameChar (c : Char) : Bool := c.isLower || c = '_'

/-- The kind of the word that is written with the single character `c`. -/
def signKind? (c : Char) : Option Kind :=
  if c = '*' then some .star
  else if c = '/' then some .slash
  else if c = '+' then some .plus
  else if c = '-' then some .dash
  else if c = '=' then some .assignment
  else if c = '(' then some .openParen
  else if c = ')' then some .closeParen
  else none

/-- Signs are the kinds whose fixed text is a single character. -/
theorem signKind?_eq_some_iff {c : Char} {k : Kind} :
    signKind? c = some k ↔ k.fixedText? = some (String.singleton c) := by
  constructor
  · intro h
    unfold signKind? at h
    repeat' split at h
    all_goals cases h
    all_goals next hc => subst hc; rfl
  · intro h
    cases k
    all_goals simp only [Kind.fixedText?, reduceCtorEq, Option.some.injEq] at h
    all_goals
      have hc := congrArg String.toList h
      simp at hc
    all_goals subst hc; rfl

/-! ## One lexeme -/

/-- A lexeme cut off the front of a text: its kind, none for what only separates
    words, its text, and the rest. -/
structure Cut where
  kind? : Option Kind
  text : List Char
  rest : List Char
deriving DecidableEq

namespace Cut

/-- `c` and all characters of class `p` right behind it. -/
def run (kind? : Option Kind) (p : Char → Bool) (c : Char) (cs : List Char) : Cut :=
  ⟨kind?, c :: cs.takeWhile p, cs.dropWhile p⟩

/-- The word that was cut off, if it was one, from a text that starts at `offset`. -/
def word? (offset : Nat) (cut : Cut) : Option Token :=
  cut.kind?.map fun kind =>
    ⟨kind, String.ofList cut.text, ⟨offset, offset + byteLength cut.text⟩⟩

end Cut

/-- The comment whose brace has been read already and is followed by `cs`. -/
def scanComment (cs : List Char) : Except Cause Cut :=
  match cs.dropWhile (· ≠ '}') with
  | [] => .error .unterminatedComment
  | brace :: rest => .ok ⟨none, '{' :: (cs.takeWhile (· ≠ '}') ++ [brace]), rest⟩

/-- The line continuation whose backslash has been read already and is followed by
    `cs`. -/
def scanContinuation (cs : List Char) : Except Cause Cut :=
  match cs with
  | '\n' :: rest => .ok ⟨none, ['\\', '\n'], rest⟩
  | '\r' :: '\n' :: rest => .ok ⟨none, ['\\', '\r', '\n'], rest⟩
  | _ => .error (.invalidCharacter '\\')

/-- The longest lexeme at the front of the text `c :: cs`. -/
def scan (c : Char) (cs : List Char) : Except Cause Cut :=
  if isSpace c then .ok (.run none isSpace c cs)
  else if c.isDigit then .ok (.run (some .number) Char.isDigit c cs)
  else if isNameChar c then .ok (.run (some .identifier) isNameChar c cs)
  else if c = '{' then scanComment cs
  else if c = '\\' then scanContinuation cs
  else match signKind? c with
    | none => .error (.invalidCharacter c)
    | some kind =>
      match kind, cs with
      | .star, '*' :: rest => .ok ⟨some .starStar, ['*', '*'], rest⟩
      | kind, rest => .ok ⟨some kind, [c], rest⟩

theorem text_append_rest_of_scanComment {cs : List Char} {cut : Cut}
    (h : scanComment cs = .ok cut) : cut.text ++ cut.rest = '{' :: cs := by
  have hcs := List.takeWhile_append_dropWhile (p := (· ≠ '}')) (l := cs)
  unfold scanComment at h
  split at h
  · cases h
  · next brace rest hd =>
      cases h
      rw [hd] at hcs
      simpa using hcs

theorem text_append_rest_of_scanContinuation {cs : List Char} {cut : Cut}
    (h : scanContinuation cs = .ok cut) : cut.text ++ cut.rest = '\\' :: cs := by
  unfold scanContinuation at h
  split at h <;> cases h <;> rfl

/-- A lexeme and the rest are the text that was cut. -/
theorem text_append_rest_of_scan {c : Char} {cs : List Char} {cut : Cut}
    (h : scan c cs = .ok cut) : cut.text ++ cut.rest = c :: cs := by
  unfold scan at h
  split at h
  · cases h; simp [Cut.run]
  split at h
  · cases h; simp [Cut.run]
  split at h
  · cases h; simp [Cut.run]
  split at h
  · next hc => rw [hc]; exact text_append_rest_of_scanComment h
  split at h
  · next hc => rw [hc]; exact text_append_rest_of_scanContinuation h
  split at h
  · cases h
  · next kind hk =>
      split at h
      · have hc := signKind?_eq_some_iff.1 hk
        have hc := congrArg String.toList (Option.some.inj hc)
        simp at hc
        cases h
        simp [← hc]
      · cases h; rfl

theorem text_ne_nil_of_scan {c : Char} {cs : List Char} {cut : Cut}
    (h : scan c cs = .ok cut) : cut.text ≠ [] := by
  unfold scan at h
  split at h
  · cases h; simp [Cut.run]
  split at h
  · cases h; simp [Cut.run]
  split at h
  · cases h; simp [Cut.run]
  split at h
  · unfold scanComment at h; split at h <;> cases h; simp
  split at h
  · unfold scanContinuation at h; split at h <;> cases h <;> simp
  split at h
  · cases h
  · split at h <;> cases h <;> simp

theorem length_rest_of_scan {c : Char} {cs : List Char} {cut : Cut}
    (h : scan c cs = .ok cut) : cut.rest.length < (c :: cs).length := by
  have hne := List.length_pos_iff.2 (text_ne_nil_of_scan h)
  have hlen := congrArg List.length (text_append_rest_of_scan h)
  rw [List.length_append] at hlen
  omega

/-! ## All words -/

/-- The words of a text that starts at `offset`, and a last token for its end. -/
@[semireducible] def tokensFrom (offset : Nat) : List Char → Except ParseError (List Token)
  | [] => .ok [.eof offset]
  | c :: cs =>
      match h : scan c cs with
      | .error cause => .error ⟨cause, offset⟩
      | .ok cut =>
        have : cut.rest.length < cs.length + 1 := length_rest_of_scan h
        match tokensFrom (offset + byteLength cut.text) cut.rest with
        | .error e => .error e
        | .ok ts => .ok ((cut.word? offset).toList ++ ts)
termination_by cs => cs.length

/-- The words of a text, or the first place that cannot be read. -/
def tokenize (source : String) : Except ParseError (List Token) :=
  tokensFrom 0 source.toList

theorem tokensFrom_nil (offset : Nat) : tokensFrom offset [] = .ok [.eof offset] := by
  rw [tokensFrom]

theorem tokensFrom_of_scan_error {c : Char} {cs : List Char} {cause : Cause} (offset : Nat)
    (h : scan c cs = .error cause) : tokensFrom offset (c :: cs) = .error ⟨cause, offset⟩ := by
  rw [tokensFrom]
  split
  · next h' => rw [h] at h'; cases h'; rfl
  · next h' => rw [h] at h'; cases h'

theorem tokensFrom_of_scan {c : Char} {cs : List Char} {cut : Cut} (offset : Nat)
    (h : scan c cs = .ok cut) :
    tokensFrom offset (c :: cs) =
      (tokensFrom (offset + byteLength cut.text) cut.rest).map
        ((cut.word? offset).toList ++ ·) := by
  rw [tokensFrom]
  split
  · next h' => rw [h] at h'; cases h'
  · next h' =>
      rw [h] at h'; cases h'
      split <;> next ht => rw [ht]; rfl

end ArithLang
