/-
  The log as it is written out.

  `Proofs/Trace` says which notes are taken while a text is read. Here they are lines, a severity
  and a text, and every text is spelled out: `Expr.lines` and `Stmt.lines` are the lines of a tree,
  from the words that its parts start with, and `ErrorText` is how the last line puts the error of
  a reading that fails. The error may quote a word, in which nothing has to be escaped
  (`quoteText_of_lexical`).

  `Expr.lines_eq_folds`: the lines of an expression follow its left edge, first those of the
  node at the end of it and then those of the right operands, from the innermost operator out.
  `read_lines`: the lines of a text are those of its program.
-/
import ArithLang.Proofs.Threshold
import ArithLang.Proofs.Trace

namespace ArithLang

/-! ## Lines of a tree -/

/-- The floor of the right operand of an operator, by name. -/
def BinaryOp.rightFloorName (powers : Associativity) : BinaryOp → String
  | .add | .subtract => "Multiplicative"
  | .multiply | .divide => "Exponent"
  | .power =>
      match powers with
      | .left => "Unary"
      | .right => "Exponent"

theorem BinaryOp.name_rightFloor (powers : Associativity) (op : BinaryOp) :
    (op.rightFloor powers).name = op.rightFloorName powers := by
  cases powers <;> cases op <;> rfl

namespace Expr

/-- The word that the expression starts with, as the log shows it. -/
def firstWord : Expr → String
  | number text _ => "Number (" ++ text ++ ")"
  | identifier text _ => "Identifier (" ++ text ++ ")"
  | unary .plus _ _ => "Plus"
  | unary .minus _ _ => "Dash"
  | binary _ left _ _ => left.firstWord
  | group _ _ => "OpenParen"

/-- The line of an expression that is read at the floor of the given name. -/
def line (floor : String) (e : Expr) : String × String :=
  ("TRACE", "parse_expr(" ++ floor ++ "): next token = " ++ e.firstWord)

/-- The lines inside the expression, from left to right. -/
def innerLines (powers : Associativity) : Expr → List (String × String)
  | number _ _ => []
  | identifier _ _ => []
  | unary _ x _ => x.line "Unary" :: x.innerLines powers
  | binary op left right _ =>
      left.innerLines powers ++
        right.line (op.rightFloorName powers) :: right.innerLines powers
  | group x _ => x.line "Default" :: x.innerLines powers

/-- The lines of the expression when it is read at the floor of the given name. -/
def lines (powers : Associativity) (floor : String) (e : Expr) : List (String × String) :=
  e.line floor :: e.innerLines powers

/-- The node at the end of the left edge, the first below the operators. -/
def leftmost : Expr → Expr
  | binary _ left _ _ => left.leftmost
  | e => e

/-- The operators on the left edge with their right operands, the innermost first. -/
def folds : Expr → List (BinaryOp × Expr)
  | binary op left right _ => left.folds ++ [(op, right)]
  | _ => []

/-- The lines inside the node at the end of a left edge. -/
def leafLines (powers : Associativity) : Expr → List (String × String)
  | unary _ x _ => x.lines powers "Unary"
  | group x _ => x.lines powers "Default"
  | _ => []

/-- First come the lines inside the node at the end of the left edge, and then the lines of the
    right operands, from the innermost operator out. -/
theorem lines_eq_folds (powers : Associativity) (floor : String) (e : Expr) :
    e.lines powers floor =
      ("TRACE", "parse_expr(" ++ floor ++ "): next token = " ++ e.firstWord) ::
        (e.leftmost.leafLines powers ++
          e.folds.flatMap fun fold => fold.2.lines powers (fold.1.rightFloorName powers)) := by
  have hinner : e.innerLines powers = e.leftmost.leafLines powers ++
      e.folds.flatMap fun fold => fold.2.lines powers (fold.1.rightFloorName powers) := by
    induction e with
    | binary op left right s ihl ihr =>
        rw [innerLines, leftmost, folds, ihl, List.flatMap_append, List.flatMap_singleton, lines,
          List.append_assoc]
    | number | identifier | unary | group => exact (List.append_nil _).symm
  rw [lines, line, hinner]

theorem render_firstToken (e : Expr) : e.firstToken.render = e.firstWord := by
  induction e with
  | number text s =>
      show "Number" ++ " (" ++ text ++ ")" = "Number (" ++ text ++ ")"
      rw [show "Number" ++ " (" = "Number (" by decide]
  | identifier text s =>
      show "Identifier" ++ " (" ++ text ++ ")" = "Identifier (" ++ text ++ ")"
      rw [show "Identifier" ++ " (" = "Identifier (" by decide]
  | unary op x s ih => cases op <;> rfl
  | binary op left right s ihl ihr => exact ihl
  | group x s ih => rfl

theorem line_expression (floor : Level) (e : Expr) :
    (Record.expression floor e.firstToken).line = e.line floor.name := by
  rw [line, ← e.render_firstToken]
  rfl

theorem map_line_calls (powers : Associativity) (e : Expr) :
    (e.calls powers).map Record.line = e.innerLines powers := by
  induction e with
  | number | identifier => rfl
  | unary op x s ih => rw [calls, innerLines, List.map_cons, x.line_expression, ih, Level.name]
  | binary op left right s ihl ihr =>
      rw [calls, innerLines, List.map_append, List.map_cons, right.line_expression, ihl, ihr,
        op.name_rightFloor]
  | group x s ih => rw [calls, innerLines, List.map_cons, x.line_expression, ih, Level.name]

theorem map_line_trace (powers : Associativity) (floor : Level) (e : Expr) :
    (e.trace powers floor).map Record.line = e.lines powers floor.name := by
  rw [trace, lines, List.map_cons, e.line_expression, e.map_line_calls]

end Expr

namespace Stmt

/-- The word that the statement starts with, as the log shows it. -/
def firstWord : Stmt → String
  | assignment target _ _ _ => "Identifier (" ++ target ++ ")"
  | expression e _ => e.firstWord

/-- The lines of the statement. -/
def lines (powers : Associativity) (st : Stmt) : List (String × String) :=
  ("TRACE", "parse_stmt: next token = " ++ st.firstWord) :: st.expr.lines powers "Default"

theorem render_firstToken (st : Stmt) : st.firstToken.render = st.firstWord := by
  cases st with
  | assignment target s v s' => exact Expr.render_firstToken (.identifier target s)
  | expression e s => exact e.render_firstToken

theorem map_line_trace (powers : Associativity) (st : Stmt) :
    (st.trace powers).map Record.line = st.lines powers := by
  rw [trace, lines, List.map_cons, st.expr.map_line_trace, ← st.render_firstToken]
  rfl

end Stmt

/-! ## Words between quotes -/

/-- A character of printable ASCII that needs no backslash in front of it. -/
def IsPlain (c : Char) : Prop := 0x20 ≤ c.toNat ∧ c.toNat < 0x7F ∧ c ≠ '"' ∧ c ≠ '\\'

instance : DecidablePred IsPlain := fun _ => inferInstanceAs (Decidable (_ ∧ _))

theorem extendsGrapheme_of_lt {c : Char} (h : c.toNat < 0x7F) : extendsGrapheme c = false := by
  have hranges : ∀ r ∈ graphemeExtendRanges, 0x7F ≤ r.first := by decide +kernel
  rw [Bool.eq_false_iff, extendsGrapheme, Ne, CharRange.any_eq_true_iff]
  rintro ⟨r, hr, hfirst, -⟩
  have := hranges r hr
  omega

theorem isPrintable_of_ascii {c : Char} (h : 0x20 ≤ c.toNat) (h' : c.toNat < 0x7F) :
    isPrintable c = true := by
  have hranges : ∀ r ∈ unprintableRanges, r.last < 0x20 ∨ 0x7F ≤ r.first := by decide +kernel
  rw [isPrintable, Bool.not_eq_true', Bool.eq_false_iff, Ne, CharRange.any_eq_true_iff]
  rintro ⟨r, hr, hfirst, hlast⟩
  have := hranges r hr
  omega

/-- A plain character stands for itself between double quotes. -/
theorem quotedIn_of_plain {c : Char} (h : IsPlain c) : quotedIn '"' c = c.toString := by
  obtain ⟨hlow, hup, hquote, hback⟩ := h
  have hne {d : Char} (hd : d.toNat < 0x20) : c ≠ d := by
    rintro rfl
    omega
  have hshort : shortEscape? c = none := by
    unfold shortEscape?
    rw [if_neg (hne (by decide)), if_neg (hne (by decide)), if_neg (hne (by decide)),
      if_neg hback]
  unfold quotedIn
  rw [if_neg (hne (by decide)), hshort]
  simp [hquote, extendsGrapheme_of_lt hup, isPrintable_of_ascii hlow hup]

theorem quoteText_of_plain {s : String} (h : ∀ c ∈ s.toList, IsPlain c) :
    quoteText s = "\"" ++ s ++ "\"" := by
  have hmap : s.toList.map (quotedIn '"') = s.toList.map fun c => c.toString :=
    List.map_congr_left fun c hc => quotedIn_of_plain (h c hc)
  have hjoin : String.join (s.toList.map fun c => c.toString) = s := by
    apply String.toList_injective
    rw [String.toList_join, List.flatMap_map]
    simp
  rw [quoteText, hmap, hjoin]

theorem isPlain_of_isDigit {c : Char} (h : c.isDigit) : IsPlain c := by
  have hlow : 48 ≤ c.toNat := of_decide_eq_true (Bool.and_eq_true_iff.1 h).1
  have hup : c.toNat ≤ 57 := of_decide_eq_true (Bool.and_eq_true_iff.1 h).2
  refine ⟨by omega, by omega, ?_, ?_⟩
  all_goals
    rintro rfl
    exact absurd h (by decide)

theorem isPlain_of_isNameChar {c : Char} (h : isNameChar c) : IsPlain c := by
  unfold isNameChar at h
  rcases Bool.or_eq_true_iff.1 h with hlower | hscore
  · have hlow : 97 ≤ c.toNat := of_decide_eq_true (Bool.and_eq_true_iff.1 hlower).1
    have hup : c.toNat ≤ 122 := of_decide_eq_true (Bool.and_eq_true_iff.1 hlower).2
    refine ⟨by omega, by omega, ?_, ?_⟩
    all_goals
      rintro rfl
      exact absurd h (by decide)
  · rw [of_decide_eq_true hscore]
    decide

theorem isPlain_of_fixedText? {k : Kind} {text : String} (h : k.fixedText? = some text) :
    ∀ c ∈ text.toList, IsPlain c := by
  have hall : (text.toList.all fun c => IsPlain c) = true := by
    cases k <;> cases h <;> decide
  exact fun c hc => of_decide_eq_true (List.all_eq_true.1 hall c hc)

/-- Nothing has to be escaped in a word of a text. -/
theorem quoteText_of_lexical {t : Token} (h : t.Lexical) :
    quoteText t.text = "\"" ++ t.text ++ "\"" := by
  obtain ⟨kind, text, span⟩ := t
  apply quoteText_of_plain
  unfold Token.Lexical at h
  intro c hc
  cases hk : kind.fixedText? with
  | some fixed =>
      rw [(Lexeme.valid_iff_of_fixedText? hk).1 h] at hc
      exact isPlain_of_fixedText? hk c hc
  | none =>
      cases kind <;> cases hk
      · exact absurd rfl (Lexeme.Valid.kind_ne_eof h)
      · exact isPlain_of_isDigit ((Lexeme.valid_number_iff.1 h).2 c hc)
      · exact isPlain_of_isNameChar ((Lexeme.valid_identifier_iff.1 h).2 c hc)

/-! ## Lines of a reading -/

/-- A line about something that is about to be read. -/
inductive TraceLine : String × String → Prop
  | statement (word : String) : TraceLine ("TRACE", "parse_stmt: next token = " ++ word)
  | expression (floor word : String) :
      TraceLine ("TRACE", "parse_expr(" ++ floor ++ "): next token = " ++ word)

theorem Record.traceLine {r : Record} (h : r.severity = .trace) : TraceLine r.line := by
  cases r with
  | tokenized | failed => cases h
  | statement next => exact .statement next.render
  | expression floor next => exact .expression floor.name next.render

/-- How an error of reading tokens is put. -/
inductive ErrorText : ParseError → String → Prop
  | token (expected found : String) (position : Nat) :
      ErrorText ⟨.unexpectedToken expected found, position⟩
        ("unexpected token: expected " ++ expected ++ ", found \"" ++ found ++ "\" at position " ++
          toString position)
  | ending (expected : String) (position : Nat) :
      ErrorText ⟨.unexpectedEnd expected, position⟩
        ("unexpected end of input: expected " ++ expected ++ " at position " ++ toString position)
  | nesting (limit position : Nat) :
      ErrorText ⟨.tooComplex limit, position⟩
        ("input too complex: nesting exceeds " ++ toString limit ++ " at position " ++
          toString position)

theorem append_quoted_append (before found behind : String) :
    before ++ ", found " ++ ("\"" ++ found ++ "\"") ++ " at position " ++ behind =
      before ++ ", found \"" ++ found ++ "\" at position " ++ behind := by
  apply String.toList_injective
  simp

/-- How the error of a fault is put that is met in front of the end mark or of a word. -/
theorem errorText_of_fault {t : Token} (h : t.kind = .eof ∨ t.Lexical) (limit : Nat) (f : Fault) :
    ErrorText (f.errorAt limit t) (f.errorAt limit t).message := by
  cases f with
  | tooDeep => exact .nesting limit t.span.start
  | missing expected =>
      by_cases hk : t.kind = .eof
      · rw [Fault.errorAt, if_pos hk]
        exact .ending expected t.span.start
      · rw [Fault.errorAt, if_neg hk]
        show ErrorText _ ("unexpected token: expected " ++ expected ++ ", found " ++
          quoteText t.text ++ " at position " ++ toString t.span.start)
        rw [quoteText_of_lexical (h.resolve_left hk), append_quoted_append]
        exact .token expected t.text t.span.start

/-- The error of a text that was cut into words but could not be read. -/
theorem errorText_of_parse {source : String} {ts : List Token} {o : Options} {e : ParseError}
    (hts : tokenize source = .ok ts) (h : parseTokens ts o = .error e) :
    ErrorText e e.message := by
  obtain ⟨ls, htiles, -, rfl⟩ := tokenize_eq_ok_iff.1 hts
  obtain ⟨f, rest, hf, rfl⟩ := failsBody_of_parseTokens rfl h
  apply errorText_of_fault
  cases rest with
  | nil => exact .inl rfl
  | cons t rest => exact .inr (htiles.lexical (hf.suffix.subset List.mem_cons_self))

/-- The log of a text as it is written out. Where the text is read, the first line says how many
    tokens were cut from how many bytes, the end mark counted, and the others are those of the
    statements one after the other. Where it cannot be cut, nothing is written, and where it
    cannot be read, the last line and no other is of the error. -/
theorem read_lines (source : String) (o : Options) :
    (∀ p, parse source o = .ok p → ∃ ts, tokenize source = .ok ts ∧
      (read source o).lines =
        ("DEBUG", "tokenized " ++ toString ts.length ++ " tokens from " ++
          toString source.utf8ByteSize ++ " bytes") :: p.body.flatMap (Stmt.lines o.powers)) ∧
    (∀ e, tokenize source = .error e → (read source o).lines = []) ∧
    ∀ ts e, tokenize source = .ok ts → parse source o = .error e →
      ∃ traces text, (∀ line ∈ traces, TraceLine line) ∧ ErrorText e text ∧
        (read source o).lines =
          ("DEBUG", "tokenized " ++ toString ts.length ++ " tokens from " ++
            toString source.utf8ByteSize ++ " bytes") ::
              (traces ++ [("DEBUG", "parse failed: " ++ text)]) := by
  obtain ⟨hok, hcut, herror⟩ := read_log source o
  refine ⟨fun p hp => ?_, fun e he => ?_, fun ts e hts he => ?_⟩
  · obtain ⟨ts, hts, hlog⟩ := hok p hp
    refine ⟨ts, hts, ?_⟩
    rw [Reading.lines, hlog, List.map_cons, List.map_flatMap]
    simp only [Stmt.map_line_trace]
    rfl
  · rw [Reading.lines, hcut e he, List.map_nil]
  · obtain ⟨traces, htraces, hlog⟩ := herror ts e hts he
    rw [parse_of_tokenize hts] at he
    refine ⟨traces.map Record.line, e.message, ?_, errorText_of_parse hts he, ?_⟩
    · intro line hline
      obtain ⟨r, hr, rfl⟩ := List.mem_map.1 hline
      exact Record.traceLine (htraces r hr)
    · rw [Reading.lines, hlog, List.map_cons, List.map_append]
      rfl

/-- In `x=-1**y` the sign's operand is read at a sign's floor, and with powers that group to the
    right the exponent at their own. -/
theorem read_lines_power :
    (read "x=-1**y" { powers := .right }).lines =
      [("DEBUG", "tokenized 7 tokens from 7 bytes"),
        ("TRACE", "parse_stmt: next token = Identifier (x)"),
        ("TRACE", "parse_expr(Default): next token = Dash"),
        ("TRACE", "parse_expr(Unary): next token = Number (1)"),
        ("TRACE", "parse_expr(Exponent): next token = Identifier (y)")] := by
  have hp : parse "x=-1**y" { powers := .right } =
      .ok ⟨[.assignment "x" ⟨0, 1⟩ (.binary .power (.unary .minus (.number "1" ⟨3, 4⟩) ⟨2, 4⟩)
        (.identifier "y" ⟨6, 7⟩) ⟨2, 7⟩) ⟨0, 7⟩], ⟨0, 7⟩⟩ := by
    decide +kernel
  have hcount : (tokenize "x=-1**y").map List.length = .ok 7 := by decide +kernel
  obtain ⟨ts, hts, hlines⟩ := (read_lines _ _).1 _ hp
  rw [hts] at hcount
  rw [hlines, Except.ok.inj hcount]
  decide +kernel

/-- A reading that fails: the traces up to the missing operand, and the error. -/
example :
    (read "7+" {}).lines =
      [("DEBUG", "tokenized 3 tokens from 2 bytes"),
        ("TRACE", "parse_stmt: next token = Number (7)"),
        ("TRACE", "parse_expr(Default): next token = Number (7)"),
        ("TRACE", "parse_expr(Multiplicative): next token = EOF"),
        ("DEBUG", "parse failed: unexpected end of input: expected expression at position 2")] := by
  decide +kernel

end ArithLang
