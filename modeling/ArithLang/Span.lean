/-
  Stretches of a text, by byte offset.

  A `Span` runs from `start` up to but not including `stop`. Nothing forces the
  two into order: a span is what somebody recorded, and `cover` joins two of
  them by taking the first one's start and the second one's stop.
-/

namespace ArithLang

/-- The bytes from `start` up to `stop`. -/
structure Span where
  start : Nat
  stop : Nat
deriving DecidableEq

namespace Span

/-- The empty span at `offset`. -/
def point (offset : Nat) : Span := ⟨offset, offset⟩

/-- The span from the start of `first` to the stop of `last`. -/
def cover (first last : Span) : Span := ⟨first.start, last.stop⟩

/-- The span `n` bytes further on. -/
def shift (n : Nat) (s : Span) : Span := ⟨s.start + n, s.stop + n⟩

@[simp] theorem start_point (offset : Nat) : (point offset).start = offset := rfl

@[simp] theorem stop_point (offset : Nat) : (point offset).stop = offset := rfl

@[simp] theorem start_cover (a b : Span) : (cover a b).start = a.start := rfl

@[simp] theorem stop_cover (a b : Span) : (cover a b).stop = b.stop := rfl

@[simp] theorem shift_zero (s : Span) : s.shift 0 = s := rfl

theorem shift_cover (n : Nat) (a b : Span) :
    (cover a b).shift n = cover (a.shift n) (b.shift n) := rfl

theorem shift_inj {n : Nat} {a b : Span} : a.shift n = b.shift n ↔ a = b := by
  obtain ⟨start, stop⟩ := a
  obtain ⟨start', stop'⟩ := b
  simp [shift]

theorem shift_shift (m n : Nat) (s : Span) : (s.shift m).shift n = s.shift (m + n) := by
  simp [shift, Nat.add_assoc]

end Span

end ArithLang
