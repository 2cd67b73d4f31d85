/-
  White space, by the Unicode property White_Space.

  `trimEnd` leaves off the white space at the end of a text. What it keeps does not
  end in white space (`getLast_trimEnd`), and what it drops is nothing else
  (`trimEnd_append_blanks`).
-/
import ArithLang.Text.CharRange

namespace ArithLang

/-- The code points with the property White_Space. -/
def blankRanges : List CharRange :=
  [⟨0x9, 0xD⟩, ⟨0x20, 0x20⟩, ⟨0x85, 0x85⟩, ⟨0xA0, 0xA0⟩, ⟨0x1680, 0x1680⟩, ⟨0x2000, 0x200A⟩,
   ⟨0x2028, 0x2029⟩, ⟨0x202F, 0x202F⟩, ⟨0x205F, 0x205F⟩, ⟨0x3000, 0x3000⟩]

/-- Does `c` have the property White_Space? -/
def isBlank (c : Char) : Bool := CharRange.any blankRanges c

/-- A text without the white space at its end. -/
def trimEnd (cs : List Char) : List Char := (cs.reverse.dropWhile isBlank).reverse

theorem getLast_trimEnd (cs : List Char) (h : trimEnd cs ≠ []) :
    isBlank ((trimEnd cs).getLast h) = false := by
  unfold trimEnd at h ⊢
  have h' : cs.reverse.dropWhile isBlank ≠ [] := by simpa using h
  rw [List.getLast_reverse]
  simpa using List.head_dropWhile_not isBlank h'

/-- A text is its trimmed form followed by white space. -/
theorem trimEnd_append_blanks (cs : List Char) :
    ∃ blanks, cs = trimEnd cs ++ blanks ∧ ∀ c ∈ blanks, isBlank c = true := by
  refine ⟨(cs.reverse.takeWhile isBlank).reverse, ?_, ?_⟩
  · have := List.takeWhile_append_dropWhile (p := isBlank) (l := cs.reverse)
    have h := congrArg List.reverse this
    rw [List.reverse_append, List.reverse_reverse] at h
    exact h.symm
  · intro c hc
    exact List.all_eq_true.1 List.all_takeWhile c (List.mem_reverse.1 hc)

theorem trimEnd_append_blank (cs : List Char) {c : Char} (hc : isBlank c = true) :
    trimEnd (cs ++ [c]) = trimEnd cs := by
  unfold trimEnd
  rw [List.reverse_append, List.reverse_singleton, List.singleton_append,
    List.dropWhile_cons_of_pos hc]

theorem mem_of_mem_trimEnd {cs : List Char} {c : Char} (h : c ∈ trimEnd cs) : c ∈ cs := by
  obtain ⟨blanks, hcs, -⟩ := trimEnd_append_blanks cs
  rw [hcs]
  exact List.mem_append_left blanks h

end ArithLang
