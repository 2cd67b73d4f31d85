/-
  Pictures of errors.

  A picture names the error, shows the line it is on, and puts a caret under the place.
  The line is shown without the spaces in front of it and without the white space at its
  end; behind the gutter the caret stands after as many dashes as there are bytes between
  those spaces and the place.
-/
import ArithLang.ParseError
import ArithLang.Text.Blank
import ArithLang.Text.Line

namespace ArithLang.Diagnostic

/-- The widest column for a caret, itself included. -/
def maxCaretWidth : Nat := 65535

/-- `s` behind as many `fill` as bring it to `width` characters. -/
def padLeft (width : Nat) (fill : Char) (s : String) : String :=
  String.ofList (List.replicate (width - s.length) fill) ++ s

/-- The name of the error and its tip. -/
def header (cause : Cause) : String :=
  match cause.tip? with
  | none => "Error: " ++ cause.name
  | some tip => "Error: " ++ cause.name ++ " (" ++ tip ++ ")"

/-- The number of spaces at the front of a line. -/
def indent (line : List Char) : Nat := (line.takeWhile (· = ' ')).length

/-- A line without the spaces at its front and the white space at its end. -/
def shown (line : List Char) : List Char := trimEnd (line.dropWhile (· = ' '))

/-- The lines of a picture that show a place. There is no picture of a place whose caret
    would stand too far out. -/
def excerpt? (place : Location) : Option (List String) :=
  let number := toString place.number
  let gutter := padLeft (number.length + 2) ' ' "|"
  let width := place.column - indent place.text + 1
  if width ≤ maxCaretWidth then
    some [
      gutter,
      number ++ " | " ++ String.ofList (shown place.text),
      gutter ++ " " ++ padLeft width '-' "^"]
  else none

/-- The picture of an error in a text that is called `file`. A place past the end of the
    text is named and not shown. -/
def render? (error : ParseError) (source file : String) : Option String := do
  let heading := [header error.cause, "-> " ++ file]
  let lines ←
    match locate source error.position with
    | none => some heading
    | some place => (excerpt? place).map (heading ++ ·)
  return String.join (lines.map (· ++ "\n"))

end ArithLang.Diagnostic
