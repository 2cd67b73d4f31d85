/-
  Where a place in a text is.

  `locate` goes by lines. Each of them runs up to its line feed, and the last one to the end of the
  text (`lined_lines`), so what is found is the line that a text can be cut around at the place
  (`locate_cases`).

  Offsets count bytes. A line feed is a byte in UTF-8, and no other character has that byte, so
  the line can also be told from the bytes alone: it starts behind the last line feed in front of
  the place, and stops behind the first one at the place or later. `locate_exact` says so of
  every offset, those inside a character and those past the end included.
-/
import ArithLang.Proofs.Slice
import ArithLang.Text.Line

namespace ArithLang

/-! ## Lines -/

/-- Each line ends with its only line feed, and the last one has none. -/
inductive Lined : List (List Char) → Prop where
  | last {l : List Char} (h : '\n' ∉ l) : Lined [l]
  | cons {l : List Char} {ls : List (List Char)} (h : '\n' ∉ l) (hs : Lined ls) :
      Lined ((l ++ ['\n']) :: ls)

theorem lined_consLine {ls : List (List Char)} (h : Lined ls) (c : Char) :
    Lined (consLine c ls) := by
  unfold consLine
  by_cases hc : c = '\n'
  · rw [if_pos hc, hc]
    exact .cons List.not_mem_nil h
  · rw [if_neg hc]
    have hmem {l : List Char} (hl : '\n' ∉ l) : '\n' ∉ c :: l := by
      simp [hl, Ne.symm hc]
    cases h with
    | last hl => exact .last (hmem hl)
    | cons hl hs => exact .cons (hmem hl) hs

theorem lined_lines (cs : List Char) : Lined (lines cs) := by
  induction cs with
  | nil => exact .last List.not_mem_nil
  | cons c cs ih => exact lined_consLine ih c

/-- The text is cut around the line of the place `pos` bytes into it: `line` stands there up to its
    ending, which is a line feed, or nothing at the end of the text. -/
structure Around (cs : List Char) (pos : Nat) (before line ending after : List Char) : Prop where
  text : cs = before ++ (line ++ (ending ++ after))
  fresh : before = [] ∨ before.getLast? = some '\n'
  noFeed : '\n' ∉ line
  ends : ending = ['\n'] ∨ ending = [] ∧ after = []
  start_le : byteLength before ≤ pos
  le_stop : pos ≤ byteLength before + byteLength line

/-- One more line in front of a text moves the place on by its bytes. -/
theorem Around.prepend {cs before line ending after front : List Char} {pos : Nat}
    (h : Around cs pos before line ending after) (hfront : front.getLast? = some '\n') :
    Around (front ++ cs) (pos + byteLength front) (front ++ before) line ending after where
  text := by rw [h.text, List.append_assoc]
  fresh := by
    right
    rcases h.fresh with rfl | hlast
    · rwa [List.append_nil]
    · rw [List.getLast?_append, hlast]
      rfl
  noFeed := h.noFeed
  ends := h.ends
  start_le := by
    have := h.start_le
    rw [byteLength_append]
    omega
  le_stop := by
    have := h.le_stop
    rw [byteLength_append]
    omega

theorem byteLength_lineFeed : byteLength ['\n'] = 1 := rfl

/-- In front of other lines, a line has the places in front of its end. -/
theorem Lined.locateIn_cons {ls : List (List Char)} (h : Lined ls) (number pos : Nat)
    (l : List Char) :
    locateIn number pos (l :: ls) =
      if pos < byteLength l then some ⟨number, l, pos⟩
      else locateIn (number + 1) (pos - byteLength l) ls := by
  cases h <;> rfl

/-- A place past the end is not found, and any other on the line around it. -/
theorem locateIn_cases {ls : List (List Char)} (h : Lined ls) (number pos : Nat) :
    (byteLength ls.flatten < pos ∧ locateIn number pos ls = none) ∨
      ∃ before line ending after, Around ls.flatten pos before line ending after ∧
        locateIn number pos ls =
          some ⟨number + before.count '\n', line ++ ending, pos - byteLength before⟩ := by
  induction h generalizing number pos with
  | @last l hl =>
      rw [locateIn, List.flatten_singleton]
      by_cases hpos : pos ≤ byteLength l
      · rw [if_pos hpos]
        refine .inr ⟨[], l, [], [], ⟨by simp, .inl rfl, hl, .inr ⟨rfl, rfl⟩, Nat.zero_le _, ?_⟩, ?_⟩
        · simpa using hpos
        · simp
      · rw [if_neg hpos]
        exact .inl ⟨Nat.lt_of_not_le hpos, rfl⟩
  | @cons l ls hl hs ih =>
      have hlength : byteLength (l ++ ['\n']) = byteLength l + 1 := byteLength_append l ['\n']
      rw [hs.locateIn_cons, List.flatten_cons]
      by_cases hpos : pos < byteLength (l ++ ['\n'])
      · rw [if_pos hpos]
        refine .inr ⟨[], l, ['\n'], ls.flatten,
          ⟨by simp, .inl rfl, hl, .inl rfl, Nat.zero_le _, ?_⟩, by simp⟩
        rw [byteLength_nil]
        omega
      · -- The place is on a later line, as many bytes further back.
        rw [if_neg hpos]
        have hback : pos - byteLength (l ++ ['\n']) + byteLength (l ++ ['\n']) = pos := by omega
        rcases ih (number + 1) (pos - byteLength (l ++ ['\n'])) with
          ⟨hlt, hnone⟩ | ⟨before, line, ending, after, haround, hsome⟩
        · refine .inl ⟨?_, hnone⟩
          rw [byteLength_append (l ++ ['\n'])]
          omega
        · have hcount : (l ++ ['\n'] ++ before).count '\n' = 1 + before.count '\n' := by
            rw [List.count_append, List.count_append, List.count_eq_zero.2 hl]
            rfl
          have haround' := haround.prepend (List.getLast?_concat : (l ++ ['\n']).getLast? = _)
          rw [hback] at haround'
          refine .inr ⟨_, line, ending, after, haround', ?_⟩
          rw [hsome, hcount, byteLength_append (l ++ ['\n']), Nat.add_assoc, Nat.sub_sub]

theorem locate_cases (source : String) (pos : Nat) :
    (source.utf8ByteSize < pos ∧ locate source pos = none) ∨
      ∃ before line ending after, Around source.toList pos before line ending after ∧
        locate source pos =
          some ⟨1 + before.count '\n', line ++ ending, pos - byteLength before⟩ := by
  have h := locateIn_cases (lined_lines source.toList) 1 pos
  rwa [flatten_lines, byteLength_toList] at h

/-! ## Bytes -/

/-- The UTF-8 form of a text. -/
def bytes (cs : List Char) : List UInt8 := cs.flatMap String.utf8EncodeChar

/-- The byte of a line feed. -/
def lineFeed : UInt8 := 10

@[simp] theorem bytes_append (xs ys : List Char) : bytes (xs ++ ys) = bytes xs ++ bytes ys :=
  List.flatMap_append

@[simp] theorem length_bytes (cs : List Char) : (bytes cs).length = byteLength cs := by
  induction cs with
  | nil => rfl
  | cons c cs ih =>
      rw [bytes, List.flatMap_cons, List.length_append, String.length_utf8EncodeChar]
      exact congrArg (c.utf8Size + ·) ih

theorem bytes_toList (source : String) : bytes source.toList = source.toUTF8.data.toList := by
  rw [String.toUTF8, ← String.utf8Encode_toList, List.utf8Encode, List.data_toByteArray]
  rfl

theorem getElem?_bytes_append (xs ys : List Char) :
    (bytes (xs ++ ys))[byteLength xs]? = (bytes ys).head? := by
  rw [bytes_append, List.getElem?_append_right (by simp), length_bytes, Nat.sub_self,
    List.head?_eq_getElem?]

/-- The byte right in front of what stands behind a line feed. -/
theorem getElem?_bytes_lineFeed (front after : List Char) :
    (bytes (front ++ '\n' :: after))[byteLength front]? = some lineFeed :=
  getElem?_bytes_append front ('\n' :: after)

/-- No character but the line feed has its byte: those of more than one byte have none below 128. -/
theorem lineFeed_mem_utf8EncodeChar {c : Char} :
    lineFeed ∈ String.utf8EncodeChar c ↔ c = '\n' := by
  have hbyte {n : Nat} (hn : n < 256) : lineFeed = UInt8.ofNat n ↔ n = 10 := by
    rw [← UInt8.toNat_inj, UInt8.toNat_ofNat_of_lt' hn, eq_comm]
    rfl
  have hchar : c = '\n' ↔ c.val.toNat = 10 := by
    rw [← Char.val_inj, ← UInt32.toNat_inj]
    rfl
  rw [hchar]
  unfold String.utf8EncodeChar
  dsimp only
  split
  · rw [List.mem_singleton, hbyte (by omega)]
  · split
    · simp only [List.mem_cons, List.not_mem_nil, or_false]
      rw [hbyte (by omega), hbyte (by omega)]
      omega
    · split
      · simp only [List.mem_cons, List.not_mem_nil, or_false]
        rw [hbyte (by omega), hbyte (by omega), hbyte (by omega)]
        omega
      · simp only [List.mem_cons, List.not_mem_nil, or_false]
        rw [hbyte (by omega), hbyte (by omega), hbyte (by omega), hbyte (by omega)]
        omega

theorem lineFeed_mem_bytes {cs : List Char} : lineFeed ∈ bytes cs ↔ '\n' ∈ cs := by
  simp [bytes, lineFeed_mem_utf8EncodeChar]

theorem count_bytes (cs : List Char) : (bytes cs).count lineFeed = cs.count '\n' := by
  induction cs with
  | nil => rfl
  | cons c cs ih =>
      show (String.utf8EncodeChar c ++ bytes cs).count lineFeed = _
      rw [List.count_append, ih]
      by_cases hc : c = '\n'
      · rw [hc, List.count_cons_self, Nat.add_comm]
        rfl
      · rw [List.count_cons_of_ne hc, List.count_eq_zero.2 (mt lineFeed_mem_utf8EncodeChar.1 hc),
          Nat.zero_add]

/-! ## The line in the bytes -/

/-- Just behind the last line feed in front of `pos`, or at the very start. -/
structure IsLineStart (bs : List UInt8) (pos start : Nat) : Prop where
  le : start ≤ pos
  behind : 0 < start → bs[start - 1]? = some lineFeed
  last : ∀ i, start ≤ i → i < pos → bs[i]? ≠ some lineFeed

/-- Just behind the first line feed at `pos` or later, or at the very end. -/
structure IsLineStop (bs : List UInt8) (pos stop : Nat) : Prop where
  le : pos ≤ stop
  behind : stop = bs.length ∨ pos < stop ∧ bs[stop - 1]? = some lineFeed
  first : ∀ i, pos ≤ i → i + 1 < stop → bs[i]? ≠ some lineFeed

theorem IsLineStart.unique {bs : List UInt8} {pos start start' : Nat}
    (h : IsLineStart bs pos start) (h' : IsLineStart bs pos start') : start = start' := by
  have hle {m n : Nat} (hm : IsLineStart bs pos m) (hn : IsLineStart bs pos n) : n ≤ m := by
    have := hn.le
    apply Nat.le_of_not_lt
    intro hlt
    exact hm.last (n - 1) (by omega) (by omega) (hn.behind (by omega))
  exact Nat.le_antisymm (hle h' h) (hle h h')

theorem IsLineStop.le_length {bs : List UInt8} {pos stop : Nat} (h : IsLineStop bs pos stop) :
    stop ≤ bs.length := by
  rcases h.behind with rfl | ⟨-, hfeed⟩
  · exact Nat.le_refl _
  · obtain ⟨hlt, -⟩ := List.getElem?_eq_some_iff.1 hfeed
    omega

theorem IsLineStop.unique {bs : List UInt8} {pos stop stop' : Nat}
    (h : IsLineStop bs pos stop) (h' : IsLineStop bs pos stop') : stop = stop' := by
  have hle {m n : Nat} (hm : IsLineStop bs pos m) (hn : IsLineStop bs pos n) : n ≤ m := by
    rcases hm.behind with rfl | ⟨hlt, hfeed⟩
    · exact hn.le_length
    · apply Nat.le_of_not_lt
      intro hmn
      exact hn.first (m - 1) (by omega) (by omega) hfeed
  exact Nat.le_antisymm (hle h' h) (hle h h')

namespace Around

variable {cs before line ending after : List Char} {pos : Nat}

theorem bytes_eq (h : Around cs pos before line ending after) :
    bytes cs = bytes before ++ (bytes line ++ (bytes ending ++ bytes after)) := by
  rw [h.text]
  simp

/-- No byte of the line itself is one of a line feed. -/
theorem getElem?_ne (h : Around cs pos before line ending after) {i : Nat}
    (hstart : byteLength before ≤ i) (hstop : i < byteLength before + byteLength line) :
    (bytes cs)[i]? ≠ some lineFeed := by
  intro hi
  rw [h.bytes_eq, List.getElem?_append_right (by simpa using hstart),
    List.getElem?_append_left (by simp; omega)] at hi
  exact h.noFeed (lineFeed_mem_bytes.1 (List.mem_of_getElem? hi))

theorem isLineStart (h : Around cs pos before line ending after) :
    IsLineStart (bytes cs) pos (byteLength before) where
  le := h.start_le
  behind := by
    intro hpos
    rcases h.fresh with rfl | hlast
    · exact absurd hpos (Nat.lt_irrefl 0)
    · obtain ⟨front, rfl⟩ := List.getLast?_eq_some_iff.1 hlast
      rw [h.text, List.append_assoc, byteLength_append, byteLength_lineFeed, Nat.add_sub_cancel]
      exact getElem?_bytes_lineFeed front _
  last := by
    intro i hstart hi
    have := h.le_stop
    exact h.getElem?_ne hstart (by omega)

theorem isLineStop (h : Around cs pos before line ending after) :
    IsLineStop (bytes cs) pos (byteLength (before ++ (line ++ ending))) where
  le := by
    have := h.le_stop
    simp only [byteLength_append]
    omega
  behind := by
    rcases h.ends with rfl | ⟨rfl, rfl⟩
    · right
      have hlength : byteLength (before ++ (line ++ ['\n'])) = byteLength (before ++ line) + 1 := by
        simp only [byteLength_append, byteLength_lineFeed]
        omega
      have hstop := h.le_stop
      rw [← byteLength_append] at hstop
      rw [hlength, h.text, ← List.append_assoc]
      exact ⟨by omega, getElem?_bytes_lineFeed (before ++ line) after⟩
    · left
      rw [h.text]
      simp
  first := by
    intro i hi hstop
    have hstart := h.start_le
    apply h.getElem?_ne (by omega)
    rw [byteLength_append, byteLength_append] at hstop
    rcases h.ends with rfl | ⟨rfl, rfl⟩
    · rw [byteLength_lineFeed] at hstop
      omega
    · rw [byteLength_nil] at hstop
      omega

theorem count_take (h : Around cs pos before line ending after) :
    ((bytes cs).take pos).count lineFeed = before.count '\n' := by
  have hline : ((bytes line).take (pos - byteLength before)).count lineFeed = 0 := by
    apply List.count_eq_zero.2
    intro hmem
    exact h.noFeed (lineFeed_mem_bytes.1 (List.mem_of_mem_take hmem))
  have hstart := h.start_le
  have hstop := h.le_stop
  have htake : (bytes cs).take pos = bytes before ++ (bytes line).take (pos - byteLength before) := by
    rw [h.bytes_eq, List.take_append, List.take_of_length_le (by rwa [length_bytes]), length_bytes,
      List.take_append_of_le_length (by rw [length_bytes]; omega)]
  rw [htake, List.count_append, hline, count_bytes, Nat.add_zero]

end Around

/-- What a place found `pos` bytes into a text is to say. -/
def Location.Exact (source : String) (pos : Nat) (place : Location) : Prop :=
  ∃ start stop, IsLineStart source.toUTF8.data.toList pos start ∧
    IsLineStop source.toUTF8.data.toList pos stop ∧
    place.number = 1 + (source.toUTF8.data.toList.take pos).count lineFeed ∧
    Span.slice? ⟨start, stop⟩ source = some (String.ofList place.text) ∧
    place.column = pos - start

theorem Location.Exact.unique {source : String} {pos : Nat} {place place' : Location}
    (h : place.Exact source pos) (h' : place'.Exact source pos) : place = place' := by
  obtain ⟨start, stop, hstart, hstop, hnumber, htext, hcolumn⟩ := h
  obtain ⟨start', stop', hstart', hstop', hnumber', htext', hcolumn'⟩ := h'
  obtain rfl := hstart.unique hstart'
  obtain rfl := hstop.unique hstop'
  obtain ⟨number, text, column⟩ := place
  obtain ⟨number', text', column'⟩ := place'
  obtain rfl := String.ofList_injective (Option.some.inj (htext.symm.trans htext'))
  simp_all

/-- The line around a place says what the place is to say. -/
theorem Around.exact {source : String} {pos : Nat} {before line ending after : List Char}
    (h : Around source.toList pos before line ending after) :
    Location.Exact source pos
      ⟨1 + before.count '\n', line ++ ending, pos - byteLength before⟩ := by
  refine ⟨byteLength before, byteLength (before ++ (line ++ ending)), ?_, ?_, ?_, ?_, rfl⟩
  · rw [← bytes_toList]
    exact h.isLineStart
  · rw [← bytes_toList]
    exact h.isLineStop
  · rw [← bytes_toList, h.count_take]
  · refine Span.slice?_eq_some_iff.2 ⟨before, after, ?_, rfl, ?_⟩
    · rw [h.text]
      simp
    · rw [← byteLength_toList]
      simp

theorem Around.le_utf8ByteSize {source : String} {pos : Nat}
    {before line ending after : List Char}
    (h : Around source.toList pos before line ending after) : pos ≤ source.utf8ByteSize := by
  have := h.le_stop
  rw [← byteLength_toList, h.text]
  simp only [byteLength_append]
  omega

/-- However a text is cut around the line of a place, that line is found. -/
theorem Around.locate_eq {source : String} {pos : Nat} {before line ending after : List Char}
    (h : Around source.toList pos before line ending after) :
    locate source pos =
      some ⟨1 + before.count '\n', line ++ ending, pos - byteLength before⟩ := by
  rcases locate_cases source pos with ⟨hlt, -⟩ | ⟨_, _, _, _, h', hsome⟩
  · exact absurd h.le_utf8ByteSize (by omega)
  · rw [hsome, h'.exact.unique h.exact]

/-- The place found `pos` bytes into a text. None is found past the end, and anywhere else the
    number of its line, the text of it and the column are what the line feeds among the bytes say. -/
theorem locate_exact (source : String) (pos : Nat) :
    (locate source pos = none ↔ source.utf8ByteSize < pos) ∧
      ∀ place, locate source pos = some place ↔
        pos ≤ source.utf8ByteSize ∧ place.Exact source pos := by
  rcases locate_cases source pos with ⟨hlt, hnone⟩ | ⟨before, line, ending, after, h, hsome⟩
  · rw [hnone]
    refine ⟨iff_of_true rfl hlt, fun place => iff_of_false nofun ?_⟩
    intro h
    exact absurd h.1 (by omega)
  · have hle := h.le_utf8ByteSize
    rw [hsome]
    refine ⟨iff_of_false nofun (by omega), fun place => ?_⟩
    rw [Option.some.injEq]
    constructor
    · intro hplace
      rw [← hplace]
      exact ⟨hle, h.exact⟩
    · intro hplace
      exact h.exact.unique hplace.2

/-- A place inside a character is on the line of that character. -/
example : locate "a\né" 3 = some ⟨2, ['é'], 1⟩ := by decide +kernel

end ArithLang
