/-
  Tokens still to be read.

  A `Stream` holds the tokens ahead and, behind them, a final one of kind `eof` that is
  never used up: where nothing is pending the final token is the current one, and
  moving on stays there. Tokens of kind `eof` may be pending as well.
-/
import ArithLang.Token

namespace ArithLang

/-- Tokens ahead, closed by a final one that marks the end. -/
structure Stream where
  pending : List Token
  final : Token
  kind_final : final.kind = .eof

namespace Stream

/-- A stream of the given tokens. If the last of them does not mark the end, a token
    that does is put behind it, where the last one stops. -/
def ofList (ts : List Token) : Stream :=
  match ts.getLast? with
  | none => ⟨[], .eof 0, rfl⟩
  | some last =>
      if h : last.kind = .eof then ⟨ts.dropLast, last, h⟩
      else ⟨ts, .eof last.span.stop, rfl⟩

/-- The tokens ahead, the final one included. -/
def toList (s : Stream) : List Token := s.pending ++ [s.final]

/-- The token ahead. -/
def current (s : Stream) : Token := s.pending.headD s.final

/-- The kind of the token `n` places behind the current one; past the final token it is
    `eof` too. Any number is a number of places: they are not counted in machine words, and
    none of them wraps around to an earlier token. -/
def peek (n : Nat) (s : Stream) : Kind := (s.pending[n]?.map Token.kind).getD .eof

/-- The stream behind the current token. -/
def next (s : Stream) : Stream := { s with pending := s.pending.tail }

@[simp] theorem current_nil (t : Token) (h : t.kind = .eof) : (mk [] t h).current = t := rfl

@[simp] theorem current_cons (x : Token) (xs : List Token) (t : Token) (h : t.kind = .eof) :
    (mk (x :: xs) t h).current = x := rfl

@[simp] theorem final_next (s : Stream) : s.next.final = s.final := rfl

@[simp] theorem pending_next (s : Stream) : s.next.pending = s.pending.tail := rfl

theorem peek_zero (s : Stream) : s.peek 0 = s.current.kind := by
  obtain ⟨pending, final, h⟩ := s
  cases pending <;> simp [peek, current, h]

/-- A list that ends with an end mark is the stream's own list. -/
theorem toList_ofList {ts : List Token} {last : Token} (h : ts.getLast? = some last)
    (hk : last.kind = .eof) : (ofList ts).toList = ts := by
  simp only [ofList, h, hk, dite_true, toList]
  obtain ⟨ys, rfl⟩ := List.getLast?_eq_some_iff.1 h
  simp

theorem ofList_append_final {ts : List Token} {final : Token} (h : final.kind = .eof) :
    ofList (ts ++ [final]) = ⟨ts, final, h⟩ := by
  simp [ofList, h]

end Stream

end ArithLang
