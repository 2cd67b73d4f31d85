/-
  Byte lengths and byte offsets of texts.

  Texts are lists of characters; offsets count the bytes of their UTF-8 form.
  `dropBytes?` leaves off an exact number of bytes and fails when that number is
  no boundary between two characters (`dropBytes?_eq_some_iff`).
-/

namespace ArithLang

/-- The number of bytes that `cs` takes in UTF-8. -/
def byteLength (cs : List Char) : Nat := cs.foldr (fun c n => c.utf8Size + n) 0

@[simp] theorem byteLength_nil : byteLength [] = 0 := rfl

@[simp] theorem byteLength_cons (c : Char) (cs : List Char) :
    byteLength (c :: cs) = c.utf8Size + byteLength cs := rfl

@[simp] theorem byteLength_append (xs ys : List Char) :
    byteLength (xs ++ ys) = byteLength xs + byteLength ys := by
  induction xs with
  | nil => simp
  | cons c xs ih => simp [ih, Nat.add_assoc]

/-- The bytes of a string's characters are the bytes of the string. -/
@[simp] theorem byteLength_toList (s : String) : byteLength s.toList = s.utf8ByteSize := by
  have h : ∀ cs : List Char, (String.ofList cs).utf8ByteSize = byteLength cs := by
    intro cs
    induction cs with
    | nil => rfl
    | cons c cs ih => simp [ih]
  rw [← h, String.ofList_toList]

theorem byteLength_eq_zero {cs : List Char} : byteLength cs = 0 ↔ cs = [] := by
  cases cs with
  | nil => simp
  | cons c cs =>
      have := c.utf8Size_pos
      simp; omega

/-- What is left of `cs` after its first `n` bytes; none when `n` is past the end
    or inside a character. -/
def dropBytes? (n : Nat) : List Char → Option (List Char)
  | [] => if n = 0 then some [] else none
  | c :: cs =>
      if n = 0 then some (c :: cs)
      else if c.utf8Size ≤ n then dropBytes? (n - c.utf8Size) cs
      else none

theorem dropBytes?_byteLength_append (xs ys : List Char) :
    dropBytes? (byteLength xs) (xs ++ ys) = some ys := by
  induction xs with
  | nil => cases ys <;> simp [dropBytes?]
  | cons c xs ih =>
      have := c.utf8Size_pos
      simp [dropBytes?, ih]
      omega

/-- Dropping succeeds exactly at the boundaries between characters. -/
theorem dropBytes?_eq_some_iff {n : Nat} {cs rest : List Char} :
    dropBytes? n cs = some rest ↔ ∃ taken, cs = taken ++ rest ∧ byteLength taken = n := by
  constructor
  · intro h
    induction cs generalizing n with
    | nil =>
        simp only [dropBytes?] at h
        split at h
        · next hn => cases h; exact ⟨[], rfl, hn.symm⟩
        · cases h
    | cons c cs ih =>
        simp only [dropBytes?] at h
        split at h
        · next hn => cases h; exact ⟨[], rfl, hn.symm⟩
        · split at h
          · next hc =>
              obtain ⟨taken, rfl, ht⟩ := ih h
              exact ⟨c :: taken, rfl, by simp [ht]; omega⟩
          · cases h
  · rintro ⟨taken, rfl, rfl⟩
    exact dropBytes?_byteLength_append taken rest

end ArithLang
