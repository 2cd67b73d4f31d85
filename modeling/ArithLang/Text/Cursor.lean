/-
  A place in a text that moves by bytes.

  The place is free: moving never checks it. Only reading does, and reading fails
  when the place is past the end or inside a character (`rest?_eq_none_iff`).
-/
import ArithLang.Text.Bytes

namespace ArithLang

/-- A text and a byte offset, not necessarily a place where reading is possible. -/
structure Cursor where
  text : String
  offset : Nat

namespace Cursor

/-- The cursor in front of `text`. -/
def ofText (text : String) : Cursor := ⟨text, 0⟩

/-- The cursor `n` bytes further on. -/
def advance (n : Nat) (c : Cursor) : Cursor := { c with offset := c.offset + n }

/-- Is nothing left to read? -/
def atEnd (c : Cursor) : Bool := c.text.utf8ByteSize ≤ c.offset

/-- The text from the cursor on, when the cursor stands between two characters. -/
def rest? (c : Cursor) : Option String :=
  (dropBytes? c.offset c.text.toList).map String.ofList

/-- The character at the cursor, NUL at the very end. -/
def peek? (c : Cursor) : Option Char :=
  (dropBytes? c.offset c.text.toList).map (·.headD '\x00')

theorem rest?_eq_none_iff {c : Cursor} :
    c.rest? = none ↔ ∀ taken rest, c.text.toList = taken ++ rest → byteLength taken ≠ c.offset := by
  unfold rest?
  rw [Option.map_eq_none_iff, Option.eq_none_iff_forall_ne_some]
  constructor
  · intro h taken rest e ht
    exact h rest (dropBytes?_eq_some_iff.2 ⟨taken, e, ht⟩)
  · intro h rest hr
    obtain ⟨taken, e, ht⟩ := dropBytes?_eq_some_iff.1 hr
    exact h taken rest e ht

end Cursor

end ArithLang
