/-
  A place found by one scan.

  `locate` goes down the lines of a text, and asks each of them for what is left of the offset. A
  place can also be found in one scan over the pieces between line feeds, with the offset that a
  piece starts at and its number running along (`scanPieces`). There is no piece behind a line
  feed at the end of a text, so the very end of the text is on no piece; it is found by the last line
  feed, in one of three ways (`scanLocate`).

  `locate_eq_scanLocate`: both find the same place, at every offset of every text. In front of
  the end the scan stops at the piece that is the line (`scanPieces_of_lt`); at the end it has
  counted all pieces, and they are as many as the line feeds, or one more (`length_pieces`).
-/
import ArithLang.Proofs.Location

namespace ArithLang

/-! ## The scan -/

/-- The pieces of a text up to its line feeds, and what stands behind the last of them unless
    that is nothing. -/
def pieces (cs : List Char) : List (List Char) := cs.foldr consLine []

/-- Looks for the piece that the place `pos` is on. The first piece starts at `start` and has the
    given number. Without such a piece the result is the number behind the last one. -/
def scanPieces (pos : Nat) : (start number : Nat) → List (List Char) → Location ⊕ Nat
  | _, number, [] => .inr number
  | start, number, l :: ls =>
      let stop := start + byteLength l
      if start ≤ pos ∧ pos < stop then .inl ⟨number, l, pos - start⟩
      else scanPieces pos stop (number + 1) ls

/-- What stands in front of the last line feed of a text, and behind it. -/
def cutAtLastFeed? : List Char → Option (List Char × List Char)
  | [] => none
  | c :: cs =>
      match cutAtLastFeed? cs with
      | some (before, last) => some (c :: before, last)
      | none => if c = '\n' then some ([], cs) else none

/-- The place `pos` bytes into a text, by one scan. -/
def scanLocate (source : String) (pos : Nat) : Option Location :=
  if source.utf8ByteSize < pos then none
  else
    match scanPieces pos 0 1 (pieces source.toList) with
    | .inl place => some place
    | .inr number =>
        match cutAtLastFeed? source.toList with
        | some (_, last) =>
            if source.toList.getLast? = some '\n' then some ⟨number, [], 0⟩
            else some ⟨number - 1, last, byteLength last⟩
        | none => some ⟨1, source.toList, source.utf8ByteSize⟩

/-! ## Pieces -/

theorem pieces_feed (cs : List Char) : pieces ('\n' :: cs) = ['\n'] :: pieces cs := rfl

theorem pieces_cons_of_eq_cons {c : Char} {cs l : List Char} {ls : List (List Char)}
    (hc : c ≠ '\n') (h : pieces cs = l :: ls) : pieces (c :: cs) = (c :: l) :: ls := by
  show consLine c (pieces cs) = _
  rw [h]
  exact if_neg hc

theorem exists_pieces_eq_cons (c : Char) (cs : List Char) : ∃ l ls, pieces (c :: cs) = l :: ls :=
  List.exists_cons_of_ne_nil (consLine_ne_nil c (pieces cs))

/-- Nothing is lost in cutting a text into pieces. -/
theorem flatten_pieces (cs : List Char) : (pieces cs).flatten = cs := by
  induction cs with
  | nil => rfl
  | cons c cs ih =>
      show (consLine c (pieces cs)).flatten = c :: cs
      rw [flatten_consLine, ih]

theorem pieces_of_not_mem {l : List Char} (h : '\n' ∉ l) (hne : l ≠ []) : pieces l = [l] := by
  induction l with
  | nil => exact absurd rfl hne
  | cons c cs ih =>
      obtain ⟨hc, hcs⟩ := not_or.1 (mt List.mem_cons.2 h)
      cases cs with
      | nil => exact if_neg (Ne.symm hc)
      | cons d ds => exact pieces_cons_of_eq_cons (Ne.symm hc) (ih hcs (List.cons_ne_nil d ds))

theorem pieces_append_feed {l : List Char} (h : '\n' ∉ l) (cs : List Char) :
    pieces (l ++ ['\n'] ++ cs) = (l ++ ['\n']) :: pieces cs := by
  induction l with
  | nil => exact pieces_feed cs
  | cons c l ih =>
      obtain ⟨hc, hl⟩ := not_or.1 (mt List.mem_cons.2 h)
      exact pieces_cons_of_eq_cons (Ne.symm hc) (ih hl)

/-- Every line feed ends a piece, and only a text that ends otherwise has one more. -/
theorem length_pieces (cs : List Char) :
    (pieces cs).length =
      cs.count '\n' + if cs = [] ∨ cs.getLast? = some '\n' then 0 else 1 := by
  induction cs with
  | nil => rfl
  | cons c cs ih =>
      cases cs with
      | nil => by_cases hc : c = '\n' <;> simp [pieces, consLine, hc]
      | cons d ds =>
          have hlast : (c :: d :: ds).getLast? = (d :: ds).getLast? := List.getLast?_cons_cons
          simp only [hlast, List.cons_ne_nil, false_or] at ih ⊢
          by_cases hc : c = '\n'
          · rw [hc, pieces_feed, List.length_cons, ih, List.count_cons_self]
            omega
          · obtain ⟨l, ls, hpieces⟩ := exists_pieces_eq_cons d ds
            rw [pieces_cons_of_eq_cons hc hpieces, List.count_cons_of_ne hc, ← ih, hpieces]
            rfl

/-! ## What the scan comes to -/

/-- The scan passes by all pieces that stop in front of the place. -/
theorem scanPieces_of_le {pos start : Nat} {ps : List (List Char)}
    (h : start + byteLength ps.flatten ≤ pos) (number : Nat) :
    scanPieces pos start number ps = .inr (number + ps.length) := by
  induction ps generalizing start number with
  | nil => rfl
  | cons p ps ih =>
      rw [List.flatten_cons, byteLength_append] at h
      rw [scanPieces, if_neg (by omega), ih (by omega), List.length_cons]
      congr 1
      omega

/-- In front of the end, the scan stops at the line that the place is on. -/
theorem scanPieces_of_lt {ls : List (List Char)} (h : Lined ls) {pos start : Nat}
    (hstart : start ≤ pos) (hlt : pos < start + byteLength ls.flatten) (number : Nat) :
    ∃ place, locateIn number (pos - start) ls = some place ∧
      scanPieces pos start number (pieces ls.flatten) = .inl place := by
  induction h generalizing start number with
  | @last l hl =>
      rw [List.flatten_singleton] at hlt ⊢
      have hne : l ≠ [] := by
        rintro rfl
        rw [byteLength_nil] at hlt
        omega
      refine ⟨⟨number, l, pos - start⟩, ?_, ?_⟩
      · rw [locateIn, if_pos (by omega)]
      · rw [pieces_of_not_mem hl hne, scanPieces, if_pos ⟨hstart, hlt⟩]
  | @cons l ls hl hs ih =>
      rw [List.flatten_cons] at hlt ⊢
      rw [byteLength_append] at hlt
      rw [hs.locateIn_cons, pieces_append_feed hl, scanPieces]
      by_cases hpos : pos < start + byteLength (l ++ ['\n'])
      · rw [if_pos (by omega), if_pos ⟨hstart, hpos⟩]
        exact ⟨_, rfl, rfl⟩
      · rw [if_neg (by omega), if_neg (by omega), Nat.sub_sub]
        exact ih (by omega) (by omega) (number + 1)

/-! ## The end of a text -/

theorem not_mem_of_cutAtLastFeed? {cs : List Char} (h : cutAtLastFeed? cs = none) :
    '\n' ∉ cs := by
  induction cs with
  | nil => exact List.not_mem_nil
  | cons c cs ih =>
      unfold cutAtLastFeed? at h
      split at h
      · cases h
      · next hcs =>
          split at h
          · cases h
          · next hc => exact fun hmem => (List.mem_cons.1 hmem).elim (Ne.symm hc) (ih hcs)

theorem eq_of_cutAtLastFeed? {cs before last : List Char}
    (h : cutAtLastFeed? cs = some (before, last)) :
    cs = before ++ ['\n'] ++ last ∧ '\n' ∉ last := by
  induction cs generalizing before with
  | nil => cases h
  | cons c cs ih =>
      unfold cutAtLastFeed? at h
      split at h
      · next hcs =>
          cases h
          obtain ⟨htext, hlast⟩ := ih hcs
          exact ⟨by rw [htext]; rfl, hlast⟩
      · next hcs =>
          split at h
          · next hc =>
              cases h
              exact ⟨by rw [hc]; rfl, not_mem_of_cutAtLastFeed? hcs⟩
          · cases h

/-- The end of a text is on its last line, which stands behind a line feed or is the only one. -/
theorem around_end {cs before last : List Char} (htext : cs = before ++ last)
    (hfresh : before = [] ∨ before.getLast? = some '\n') (hlast : '\n' ∉ last) :
    Around cs (byteLength cs) before last [] [] where
  text := by simpa using htext
  fresh := hfresh
  noFeed := hlast
  ends := .inr ⟨rfl, rfl⟩
  start_le := by
    rw [htext, byteLength_append]
    omega
  le_stop := Nat.le_of_eq (by rw [htext, byteLength_append])

/-- At the very end of a text, the scan has counted all its pieces, and the last line feed tells
    what is there. -/
theorem locate_end (source : String) :
    locate source source.utf8ByteSize = scanLocate source source.utf8ByteSize := by
  have hsize : byteLength source.toList = source.utf8ByteSize := byteLength_toList source
  have hscan : scanPieces source.utf8ByteSize 0 1 (pieces source.toList) =
      .inr (1 + (pieces source.toList).length) := by
    apply scanPieces_of_le
    have hlength : byteLength (pieces source.toList).flatten = source.utf8ByteSize := by
      rw [flatten_pieces, hsize]
    omega
  unfold scanLocate
  rw [if_neg (Nat.lt_irrefl _), hscan, length_pieces]
  cases hcut : cutAtLastFeed? source.toList with
  | none =>
      have haround := around_end (List.nil_append _).symm (.inl rfl) (not_mem_of_cutAtLastFeed? hcut)
      rw [hsize] at haround
      rw [haround.locate_eq]
      simp
  | some cut =>
      obtain ⟨before, last⟩ := cut
      obtain ⟨htext, hlast⟩ := eq_of_cutAtLastFeed? hcut
      by_cases hend : source.toList.getLast? = some '\n'
      · have haround := around_end (List.append_nil _).symm (.inr hend) List.not_mem_nil
        rw [hsize] at haround
        rw [haround.locate_eq]
        simp [hend, hsize]
      · have haround := around_end htext (.inr List.getLast?_concat) hlast
        rw [hsize] at haround
        have hpieces : ¬ (source.toList = [] ∨ source.toList.getLast? = some '\n') := by
          rintro (hnil | hlast')
          · rw [htext] at hnil
            simp at hnil
          · exact hend hlast'
        have hcount : source.toList.count '\n' = (before ++ ['\n']).count '\n' := by
          rw [htext, List.count_append, List.count_eq_zero.2 hlast, Nat.add_zero]
        have hcolumn : source.utf8ByteSize - byteLength (before ++ ['\n']) = byteLength last := by
          rw [← hsize, htext, byteLength_append (before ++ ['\n']), Nat.add_sub_cancel_left]
        rw [haround.locate_eq, if_neg hpieces, hcount, hcolumn, List.append_nil]
        dsimp only
        rw [if_neg hend, ← Nat.add_assoc, Nat.add_sub_cancel]

/-- Both ways to look for a place come to the same, at every offset of every text. -/
theorem locate_eq_scanLocate (source : String) (pos : Nat) :
    locate source pos = scanLocate source pos := by
  have hsize : byteLength (lines source.toList).flatten = source.utf8ByteSize := by
    rw [flatten_lines, byteLength_toList]
  rcases Nat.lt_trichotomy pos source.utf8ByteSize with hlt | rfl | hgt
  · obtain ⟨place, hplace, hscan⟩ := scanPieces_of_lt (lined_lines source.toList) (Nat.zero_le pos)
      (by omega) 1
    rw [flatten_lines] at hscan
    unfold scanLocate
    rw [if_neg (by omega), hscan]
    exact hplace
  · exact locate_end source
  · unfold scanLocate
    rw [if_pos hgt]
    rcases locate_cases source pos with ⟨-, hnone⟩ | ⟨_, _, _, _, haround, -⟩
    · exact hnone
    · exact absurd haround.le_utf8ByteSize (by omega)

/-- Behind a line feed at the end of a text, the scan has counted the lines in front. -/
example : scanLocate "a\nb\n" 4 = some ⟨3, [], 0⟩ := by decide +kernel

end ArithLang
