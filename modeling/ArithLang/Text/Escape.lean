/-
  Writing characters so that every one of them can be seen.

  Two ways. `quoteChar` and `quoteText` put a character or a text between marks and
  write out what is not visible there. `asciiEscape` brings one character into
  printable ASCII, without marks.
-/
import ArithLang.Text.Printable
import ArithLang.Text.Grapheme

namespace ArithLang

/-- A character by its code point in lower-case hexadecimal: U+301 is `\u{301}`. -/
def codeEscape (c : Char) : String :=
  "\\u\x7b" ++ String.ofList (Nat.toDigits 16 c.toNat) ++ "\x7d"

/-- The character after the backslash, for those that both ways write with a letter
    or twice. -/
def shortEscape? (c : Char) : Option Char :=
  if c = '\t' then some 't'
  else if c = '\r' then some 'r'
  else if c = '\n' then some 'n'
  else if c = '\\' then some '\\'
  else none

/-- `letter` behind a backslash. -/
def backslashed (letter : Char) : String := String.ofList ['\\', letter]

/-- `c` as it stands between two `mark`s. -/
def quotedIn (mark c : Char) : String :=
  if c = '\x00' then backslashed '0'
  else match shortEscape? c with
    | some letter => backslashed letter
    | none =>
      if c = mark then backslashed c
      else if extendsGrapheme c || !isPrintable c then codeEscape c
      else c.toString

/-- A character between single quotes. -/
def quoteChar (c : Char) : String := "'" ++ quotedIn '\'' c ++ "'"

/-- A text between double quotes. -/
def quoteText (s : String) : String := "\"" ++ String.join (s.toList.map (quotedIn '"')) ++ "\""

/-- `c` in printable ASCII, both kinds of quotes behind a backslash. -/
def asciiEscape (c : Char) : String :=
  match shortEscape? c with
  | some letter => backslashed letter
  | none =>
    if c = '\'' || c = '"' then backslashed c
    else if 0x20 ≤ c.toNat && c.toNat ≤ 0x7E then c.toString
    else codeEscape c

end ArithLang
