/-
  Tokens are read up to the first end mark.

  An end mark may stand anywhere among the tokens. No rule of reading takes one: it starts nothing,
  goes on with nothing, and where a statement is looked at two tokens ahead, the first of them is a
  name. So a derivation stays one when an end mark and anything else is put behind its tokens
  (`ReadsBody.before_mark`, `FailsBody.before_mark`), and what stands behind an end mark has no
  part in the result (`parseTokens_append_mark`).

  Tokens without an end mark get one where the last of them stops. Of where an end mark stands, the
  result shows only where the program ends, and the place of an error that is reported there
  (`parseTokens_change_mark`).
-/
import ArithLang.Proofs.Correspondence
import ArithLang.Proofs.Placement
import ArithLang.Proofs.Session

namespace ArithLang

variable {b : BinaryOp → Binding} {mark : Token}

/-! ## An end mark behind the tokens of a derivation -/

section
variable (hmark : mark.kind = .eof) (behind : List Token)
include hmark

theorem frontKind_append_mark (ts : List Token) :
    frontKind (ts ++ mark :: behind) = frontKind ts := by
  cases ts with
  | nil => exact hmark
  | cons t ts => rfl

theorem stops_append_mark {floor : Level} {ts : List Token} :
    Stops b floor (ts ++ mark :: behind) ↔ Stops b floor ts := by
  unfold Stops
  rw [frontKind_append_mark hmark]

theorem assigns_append_mark {ts : List Token} : Assigns (ts ++ mark :: behind) ↔ Assigns ts := by
  unfold Assigns
  rw [frontKind_append_mark hmark]
  cases ts with
  | nil => exact iff_of_false (fun h => nomatch h.1) fun h => nomatch h.1
  | cons t ts => rw [List.cons_append, List.tail_cons, List.tail_cons, frontKind_append_mark hmark]

variable {k : Nat} {ts rest : List Token}

theorem Reads.before_mark {floor : Level} {task : Task} {e : Expr}
    (h : Reads b k floor task ts e rest) :
    Reads b k floor task (ts ++ mark :: behind) e (rest ++ mark :: behind) := by
  induction h with
  | literal he => exact .literal he
  | sign ht hx ih => exact .sign ht ih
  | group ho hx hc ih => exact .group ho ih hc
  | join ht hf hr ih => exact .join ht hf ih
  | stop h => exact .stop ((stops_append_mark hmark behind).2 h)
  | go hs h ihs ih => exact .go ihs ih

theorem Fails.before_mark {floor : Level} {task : Task} {f : Fault}
    (h : Fails b k floor task ts f rest) :
    Fails b k floor task (ts ++ mark :: behind) f (rest ++ mark :: behind) := by
  induction h with
  | noRoom => exact .noRoom
  | noFold h => exact .noFold (mt (stops_append_mark hmark behind).1 h)
  | noStart h => exact .noStart (by rwa [frontKind_append_mark hmark])
  | sign ht h ih => exact .sign ht ih
  | group ho h ih => exact .group ho ih
  | unclosed ho hx hc =>
      exact .unclosed ho (hx.before_mark hmark behind) (by rwa [frontKind_append_mark hmark])
  | operand ht hf h ih => exact .operand ht hf ih
  | first hs ih => exact .first ih
  | later hs h ih => exact .later (hs.before_mark hmark behind) ih

theorem ReadsStmt.before_mark {st : Stmt} (h : ReadsStmt b k ts st rest) :
    ReadsStmt b k (ts ++ mark :: behind) st (rest ++ mark :: behind) := by
  cases h with
  | assignment hn he h => exact .assignment hn he (h.before_mark hmark behind)
  | expression hn h =>
      exact .expression (mt (assigns_append_mark hmark behind).1 hn) (h.before_mark hmark behind)

theorem FailsStmt.before_mark {f : Fault} (h : FailsStmt b k ts f rest) :
    FailsStmt b k (ts ++ mark :: behind) f (rest ++ mark :: behind) := by
  cases h with
  | assignment hn he h => exact .assignment hn he (h.before_mark hmark behind)
  | expression hn h =>
      exact .expression (mt (assigns_append_mark hmark behind).1 hn) (h.before_mark hmark behind)

theorem ReadsBody.before_mark {mode : Mode} {sts : List Stmt} (h : ReadsBody b mode k ts sts rest) :
    ReadsBody b mode k (ts ++ mark :: behind) sts (rest ++ mark :: behind) := by
  induction h with
  | single h he =>
      exact .single (h.before_mark hmark behind) (by rwa [frontKind_append_mark hmark])
  | done he => exact .done (by rwa [frontKind_append_mark hmark])
  | more hne h hs ih =>
      exact .more (by rwa [frontKind_append_mark hmark]) (h.before_mark hmark behind) ih

theorem FailsBody.before_mark {mode : Mode} {f : Fault} (h : FailsBody b mode k ts f rest) :
    FailsBody b mode k (ts ++ mark :: behind) f (rest ++ mark :: behind) := by
  induction h with
  | single h => exact .single (h.before_mark hmark behind)
  | leftover h hne =>
      exact .leftover (h.before_mark hmark behind) (by rwa [frontKind_append_mark hmark])
  | first hne h =>
      exact .first (by rwa [frontKind_append_mark hmark]) (h.before_mark hmark behind)
  | later hne h hs ih =>
      exact .later (by rwa [frontKind_append_mark hmark]) (h.before_mark hmark behind) ih

end

/-! ## Lists that are closed -/

theorem Stream.ofList_toList (s : Stream) : ofList s.toList = s :=
  ofList_append_final s.kind_final

/-- The end mark that is put behind tokens makes no difference if it stands there already. -/
theorem parseTokens_closed (ts : List Token) (o : Options) :
    parseTokens (closed ts) o = parseTokens ts o := by
  have hstream : Stream.ofList (closed ts) = Stream.ofList ts := by
    rw [← toList_ofList_eq_closed, Stream.ofList_toList]
  unfold parseTokens readTokens State.ofTokens
  rw [hstream]

/-- Where the last of the tokens stops, zero if there is none. -/
def lastStop (ts : List Token) : Nat := (ts.getLast?.map fun t => t.span.stop).getD 0

theorem closed_of_no_mark {ts : List Token} (h : ∀ t ∈ ts, t.kind ≠ .eof) :
    closed ts = ts ++ [.eof (lastStop ts)] := by
  unfold closed lastStop
  cases hlast : ts.getLast? with
  | none => rw [List.getLast?_eq_none_iff.1 hlast]; rfl
  | some last => exact if_neg (h last (List.mem_of_getLast? hlast))

/-- Behind an end mark that is not the last token, closing adds a last one or finds it there. -/
theorem exists_closed_append_mark (ts : List Token) (mark : Token) {behind : List Token}
    (hne : behind ≠ []) :
    ∃ mid fin, fin.kind = .eof ∧
      closed (ts ++ mark :: behind) = ts ++ mark :: mid ++ [fin] := by
  obtain ⟨mid, last, rfl⟩ := (List.eq_nil_or_concat behind).resolve_left hne
  have hlist : ts ++ mark :: mid.concat last = ts ++ mark :: mid ++ [last] := by simp
  unfold closed
  rw [hlist, List.getLast?_concat]
  by_cases hk : last.kind = .eof
  · exact ⟨mid, last, hk, if_pos hk⟩
  · refine ⟨mid ++ [last], .eof last.span.stop, rfl, (if_neg hk).trans ?_⟩
    simp

/-! ## What shows of an end mark -/

/-- What stands behind an end mark has no part in what the tokens are read as. -/
theorem parseTokens_append_mark (hmark : mark.kind = .eof) (ts behind : List Token) (o : Options) :
    parseTokens (ts ++ mark :: behind) o = parseTokens (ts ++ [mark]) o := by
  by_cases hne : behind = []
  · rw [hne]
  obtain ⟨mid, fin, hfin, hclosed⟩ := exists_closed_append_mark ts mark hne
  rw [← parseTokens_closed, hclosed]
  -- The tokens that are left over behind the end mark start with it, or with what is in front of it.
  have hfront : ∀ rest : List Token, (rest ++ mark :: mid).headD fin = rest.headD mark := by
    intro rest
    cases rest <;> rfl
  rcases parseTokens_cases hmark ts o with ⟨sts, rest, h, hok⟩ | ⟨f, rest, h, herror⟩
  · rw [hok]
    exact (parseTokens_eq_ok_iff hfin).2 ⟨_, h.before_mark hmark mid, by rw [hfront]⟩
  · rw [herror]
    exact (parseTokens_eq_error_iff hfin).2 ⟨f, _, h.before_mark hmark mid, by rw [hfront]⟩

/-- Of the end mark that a fault is met at, its error only shows the place. -/
theorem Fault.errorAt_mark {fin fin' : Token} (hfin : fin.kind = .eof) (hfin' : fin'.kind = .eof)
    (limit : Nat) (f : Fault) :
    f.errorAt limit fin' = ⟨(f.errorAt limit fin).cause, fin'.span.start⟩ := by
  cases f <;> simp [Fault.errorAt, hfin, hfin']

/-- The cause tells whether something else was found or the end. -/
theorem Fault.kind_of_cause (limit : Nat) (t : Token) (f : Fault) :
    (∀ expected, (f.errorAt limit t).cause = .unexpectedEnd expected → t.kind = .eof) ∧
      ∀ expected found, (f.errorAt limit t).cause = .unexpectedToken expected found →
        t.kind ≠ .eof := by
  cases f with
  | tooDeep => exact ⟨nofun, nofun⟩
  | missing what =>
      by_cases hk : t.kind = .eof <;> simp [Fault.errorAt, hk]

section
variable {fin fin' : Token} (hfin : fin.kind = .eof) (hfin' : fin'.kind = .eof) {ts : List Token}
  (hts : ∀ t ∈ ts, t.kind ≠ .eof) {o : Options}
include hfin hts

/-- An error is reported at the end mark if the cursor stops there, in front of no token. -/
theorem stopIndex_of_error {e : ParseError} (h : parseTokens (ts ++ [fin]) o = .error e) :
    ∃ f rest, FailsBody (BinaryOp.binding o.powers) o.mode o.maxDepth ts f rest ∧
      e = f.errorAt o.maxDepth (rest.headD fin) ∧
      (stopIndex (ts ++ [fin]) o = ts.length ↔ rest = []) ∧
      ((rest.headD fin).kind = .eof ↔ rest = []) := by
  rcases parseTokens_stop_cases hfin ts o with ⟨sts, rest, -, hok, -⟩ | ⟨f, rest, hf, herror, hstop⟩
  · cases hok.symm.trans h
  · refine ⟨f, rest, hf, Except.error.inj (h.symm.trans herror), ?_, ?_⟩
    · have hle := hf.suffix.length_le
      rw [hstop, ← List.length_eq_zero_iff]
      omega
    · cases rest with
      | nil => exact iff_of_true hfin rfl
      | cons t rest =>
          refine iff_of_false (hts t ?_) (List.cons_ne_nil t rest)
          exact hf.suffix.mem List.mem_cons_self

include hfin'

/-- Another end mark changes where the program ends, and the place of an error that is reported at
    the end mark. -/
theorem parseTokens_change_mark :
    (∀ p, parseTokens (ts ++ [fin]) o = .ok p → p.span = ⟨0, fin.span.start⟩ ∧
      parseTokens (ts ++ [fin']) o = .ok ⟨p.body, ⟨0, fin'.span.start⟩⟩) ∧
    ∀ e, parseTokens (ts ++ [fin]) o = .error e →
      parseTokens (ts ++ [fin']) o = .error
        ⟨e.cause, if stopIndex (ts ++ [fin]) o = ts.length then fin'.span.start else e.position⟩ := by
  constructor
  · intro p hp
    obtain ⟨rest, h, hspan⟩ := (parseTokens_eq_ok_iff hfin).1 hp
    obtain rfl := h.rest_eq_nil hts
    exact ⟨hspan, (parseTokens_eq_ok_iff hfin').2 ⟨[], h, rfl⟩⟩
  · intro e he
    obtain ⟨f, rest, hf, rfl, hstop, -⟩ := stopIndex_of_error hfin hts he
    refine (parseTokens_eq_error_iff hfin').2 ⟨f, rest, hf, ?_⟩
    cases rest with
    | nil =>
        rw [if_pos (hstop.2 rfl)]
        exact (Fault.errorAt_mark hfin hfin' o.maxDepth f).symm
    | cons t rest => rw [if_neg (mt hstop.1 (List.cons_ne_nil t rest))]; rfl

end

/-! ## Texts -/

/-- The tokens of a text are its words, all of which start in front of its end, and an end mark. -/
theorem words_of_tokenize {source : String} {us : List Token} (h : tokenize source = .ok us) :
    ∃ ts, us = ts ++ [.eof source.utf8ByteSize] ∧
      ∀ t ∈ ts, t.kind ≠ .eof ∧ t.span.start < source.utf8ByteSize := by
  obtain ⟨ls, htiles, hsource, rfl⟩ := tokenize_eq_ok_iff.1 h
  have htile := tileFrom_zero_iff.2 ⟨ls, htiles, hsource, rfl⟩
  refine ⟨words 0 ls, rfl, fun t ht => ⟨htiles.kind_ne_eof 0 t ht, ?_⟩⟩
  exact Nat.lt_of_lt_of_le (htile.nonempty t ht) (Span.stop_le_of_slice? (htile.text t ht))

/-- An error is reported at the end mark of a text exactly if it stands at the end of the text, as
    every unexpected end does and no unexpected token. -/
theorem reportedAtEnd_of_parseTokens {ts : List Token} {stop : Nat} {o : Options} {e : ParseError}
    (hts : ∀ t ∈ ts, t.kind ≠ .eof ∧ t.span.start < stop)
    (h : parseTokens (ts ++ [.eof stop]) o = .error e) :
    (stopIndex (ts ++ [.eof stop]) o = ts.length ↔ e.position = stop) ∧
      (∀ expected, e.cause = .unexpectedEnd expected → e.position = stop) ∧
      ∀ expected found, e.cause = .unexpectedToken expected found → e.position < stop := by
  obtain ⟨f, rest, hf, rfl, hstop, hkind⟩ := stopIndex_of_error rfl (fun t ht => (hts t ht).1) h
  have hcause := f.kind_of_cause o.maxDepth (rest.headD (.eof stop))
  rw [hstop, Fault.position_errorAt]
  cases rest with
  | nil =>
      refine ⟨iff_of_true rfl rfl, fun _ _ => rfl, fun expected found hc => ?_⟩
      exact absurd rfl (hcause.2 expected found hc)
  | cons t rest =>
      have hmem : t ∈ ts := hf.suffix.mem List.mem_cons_self
      have hlt : t.span.start < stop := (hts t hmem).2
      refine ⟨iff_of_false (List.cons_ne_nil t rest) (Nat.ne_of_lt hlt), fun expected hc => ?_,
        fun _ _ _ => hlt⟩
      exact absurd (hcause.1 expected hc) (hts t hmem).1

/-- Tokens are read up to the first end mark. With one among them, what stands behind the first
    has no part in the result; without any, the result is that with one behind them, where the
    last of them stops. So the words of a text are read alike without the mark of its end, up to
    the end of the program and the place of an error that is reported there: these are where the
    last word stops, and no longer where the text does. -/
theorem parseTokens_up_to_mark (o : Options) :
    (∀ ts mark behind, (∀ t ∈ ts, t.kind ≠ .eof) → mark.kind = .eof →
      parseTokens (ts ++ mark :: behind) o = parseTokens (ts ++ [mark]) o) ∧
    (∀ ts, (∀ t ∈ ts, t.kind ≠ .eof) →
      parseTokens ts o = parseTokens (ts ++ [.eof (lastStop ts)]) o) ∧
    ∀ source us, tokenize source = .ok us →
      (∀ p, parseTokens us o = .ok p → p.span = ⟨0, source.utf8ByteSize⟩ ∧
        parseTokens us.dropLast o = .ok ⟨p.body, ⟨0, lastStop us.dropLast⟩⟩) ∧
      ∀ e, parseTokens us o = .error e →
        (stopIndex us o = us.length - 1 ↔ e.position = source.utf8ByteSize) ∧
        (∀ expected, e.cause = .unexpectedEnd expected → e.position = source.utf8ByteSize) ∧
        (∀ expected found, e.cause = .unexpectedToken expected found →
          e.position < source.utf8ByteSize) ∧
        parseTokens us.dropLast o = .error ⟨e.cause,
          if e.position = source.utf8ByteSize then lastStop us.dropLast else e.position⟩ := by
  have hopen : ∀ ts : List Token, (∀ t ∈ ts, t.kind ≠ .eof) →
      parseTokens ts o = parseTokens (ts ++ [.eof (lastStop ts)]) o := by
    intro ts hts
    rw [← closed_of_no_mark hts, parseTokens_closed]
  refine ⟨fun ts mark behind _ hmark => parseTokens_append_mark hmark ts behind o, hopen, ?_⟩
  intro source us hus
  obtain ⟨ts, rfl, hts⟩ := words_of_tokenize hus
  have hkind : ∀ t ∈ ts, t.kind ≠ .eof := fun t ht => (hts t ht).1
  have hend : (Token.eof (lastStop ts)).kind = .eof := rfl
  obtain ⟨hok, herror⟩ := @parseTokens_change_mark (.eof source.utf8ByteSize) _ rfl hend ts hkind o
  rw [List.dropLast_concat, hopen ts hkind]
  refine ⟨hok, fun e he => ?_⟩
  obtain ⟨hstop, hunexpected, hfound⟩ := reportedAtEnd_of_parseTokens hts he
  have hlength : (ts ++ [Token.eof source.utf8ByteSize]).length - 1 = ts.length := by simp
  rw [hlength]
  refine ⟨hstop, hunexpected, hfound, ?_⟩
  have herr := herror e he
  simp only [hstop] at herr
  exact herr

/-- What stands behind the first of two end marks is not read. Without the mark of its end, `1 `
    ends with its digit, and `1 + ` misses an operand where its operator stops. -/
theorem parseTokens_up_to_mark_one :
    parseTokens ([⟨.number, "1", ⟨4, 5⟩⟩] ++ .eof 9 :: [⟨.plus, "+", ⟨7, 8⟩⟩, .eof 2]) {} =
        parseTokens ([⟨.number, "1", ⟨4, 5⟩⟩] ++ [.eof 9]) {} ∧
      parseTokens [⟨.number, "1", ⟨4, 5⟩⟩] {} =
        parseTokens [⟨.number, "1", ⟨4, 5⟩⟩, .eof 5] {} ∧
      parseTokens [⟨.number, "1", ⟨0, 1⟩⟩] {} =
        .ok ⟨[.expression (.number "1" ⟨0, 1⟩) ⟨0, 1⟩], ⟨0, 1⟩⟩ ∧
      parseTokens [⟨.number, "1", ⟨0, 1⟩⟩, ⟨.plus, "+", ⟨2, 3⟩⟩] {} =
        .error ⟨.unexpectedEnd "expression", 3⟩ := by
  have hone : ∀ t ∈ [(⟨.number, "1", ⟨4, 5⟩⟩ : Token)], t.kind ≠ .eof := by decide
  have hends : tokenize "1 " = .ok [⟨.number, "1", ⟨0, 1⟩⟩, .eof 2] := by decide +kernel
  have hok : parseTokens [⟨.number, "1", ⟨0, 1⟩⟩, .eof 2] {} =
      .ok ⟨[.expression (.number "1" ⟨0, 1⟩) ⟨0, 1⟩], ⟨0, 2⟩⟩ := by decide +kernel
  have hmisses : tokenize "1 + " =
      .ok [⟨.number, "1", ⟨0, 1⟩⟩, ⟨.plus, "+", ⟨2, 3⟩⟩, .eof 4] := by decide +kernel
  have herror : parseTokens [⟨.number, "1", ⟨0, 1⟩⟩, ⟨.plus, "+", ⟨2, 3⟩⟩, .eof 4] {} =
      .error ⟨.unexpectedEnd "expression", 4⟩ := by decide +kernel
  obtain ⟨hmark, hnone, htext⟩ := parseTokens_up_to_mark {}
  exact ⟨hmark _ _ _ hone rfl, hnone _ hone, ((htext _ _ hends).1 _ hok).2,
    ((htext _ _ hmisses).2 _ herror).2.2.2⟩

end ArithLang
