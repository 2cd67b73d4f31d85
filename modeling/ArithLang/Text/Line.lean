/-
  Lines of a text and places in them.

  A line keeps the line feed that ends it. A text always has a last line, without a
  line feed and possibly empty. Put together again the lines are the text
  (`flatten_lines`).
-/
import ArithLang.Text.Bytes

namespace ArithLang

/-- Puts a character in front of the first of some lines; a line feed is a line of
    its own there, in front of all of them. -/
def consLine (c : Char) (ls : List (List Char)) : List (List Char) :=
  if c = '\n' then [c] :: ls
  else match ls with
    | [] => [[c]]
    | l :: ls => (c :: l) :: ls

/-- The lines of a text. -/
def lines (cs : List Char) : List (List Char) := cs.foldr consLine [[]]

@[simp] theorem lines_nil : lines [] = [[]] := rfl

@[simp] theorem lines_cons (c : Char) (cs : List Char) :
    lines (c :: cs) = consLine c (lines cs) := rfl

theorem consLine_ne_nil (c : Char) (ls : List (List Char)) : consLine c ls ≠ [] := by
  unfold consLine
  split
  · simp
  · split <;> simp

theorem flatten_consLine (c : Char) (ls : List (List Char)) :
    (consLine c ls).flatten = c :: ls.flatten := by
  unfold consLine
  split
  · simp
  · split <;> simp

/-- Nothing is lost in cutting a text into lines. -/
@[simp] theorem flatten_lines (cs : List Char) : (lines cs).flatten = cs := by
  induction cs with
  | nil => rfl
  | cons c cs ih => rw [lines_cons, flatten_consLine, ih]

/-- A place in a text: the line, counted from one, what stands on it, and the bytes
    on it before the place. -/
structure Location where
  number : Nat
  text : List Char
  column : Nat
deriving DecidableEq

/-- The place `pos` bytes into some lines, the first of which has the given number.
    Of two lines that meet at the place, the later one has it. -/
def locateIn (number pos : Nat) : List (List Char) → Option Location
  | [] => none
  | [l] => if pos ≤ byteLength l then some ⟨number, l, pos⟩ else none
  | l :: ls =>
      if pos < byteLength l then some ⟨number, l, pos⟩
      else locateIn (number + 1) (pos - byteLength l) ls

/-- The place `pos` bytes into a text; none past its end. -/
def locate (source : String) (pos : Nat) : Option Location :=
  locateIn 1 pos (lines source.toList)

end ArithLang
