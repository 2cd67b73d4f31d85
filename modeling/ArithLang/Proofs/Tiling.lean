/-
  The tokens of a text as a tiling of it.

  A `Gap` is a text of blanks, line continuations and comments. `TileFrom source start words`
  says by byte offsets how words and gaps take turns in a text: every word is the text under
  its span, written as its kind asks and as long as the character behind it allows, and between
  any two of them, in front of the first and behind the last there is a gap.

  `tokenize_eq_ok_iff_tileFrom`: the tokens of a text are the words that tile it, and the mark of
  its end. The lexemes of `Tiles` are in between: a gap in front of lexemes can be cut into
  lexemes too (`Gap.exists_prepends`), and its words are those of the lexemes behind it.
-/
import ArithLang.Proofs.Slice

namespace ArithLang

/-! ## Gaps -/

/-- A text that only separates words: blanks, line continuations and comments in a row. -/
inductive Gap : List Char → Prop where
  | nil : Gap []
  | space {c : Char} {cs : List Char} (hc : isSpace c) (h : Gap cs) : Gap (c :: cs)
  | continuation {cs : List Char} (h : Gap cs) : Gap ('\\' :: '\n' :: cs)
  | continuationCr {cs : List Char} (h : Gap cs) : Gap ('\\' :: '\r' :: '\n' :: cs)
  | comment {inside cs : List Char} (hin : '}' ∉ inside) (h : Gap cs) :
      Gap ('{' :: (inside ++ '}' :: cs))

theorem Gap.append {xs ys : List Char} (h : Gap xs) (h' : Gap ys) : Gap (xs ++ ys) := by
  induction h with
  | nil => exact h'
  | space hc h ih => exact .space hc ih
  | continuation h ih => exact .continuation ih
  | continuationCr h ih => exact .continuationCr ih
  | comment hin h ih =>
      rw [List.cons_append, List.append_assoc, List.cons_append]
      exact .comment hin ih

theorem gap_of_isSpace {cs : List Char} (h : ∀ c ∈ cs, isSpace c) : Gap cs := by
  induction cs with
  | nil => exact .nil
  | cons c cs ih => exact .space (h c (by simp)) (ih fun d hd => h d (by simp [hd]))

/-- A lexeme that is no word is a gap. -/
theorem Lexeme.Valid.gap {l : Lexeme} (h : l.Valid) (hk : l.kind? = none) : Gap l.text := by
  cases h with
  | blanks hne h => exact gap_of_isSpace h
  | comment h => exact .comment h .nil
  | continuation => exact .continuation .nil
  | continuationCr => exact .continuationCr .nil
  | number hne h | identifier hne h | sign h => cases hk

/-- A lexeme that starts with a blank is a run of them. -/
theorem Lexeme.Valid.of_isSpace {l : Lexeme} (h : l.Valid) {c : Char}
    (hc : l.text.head? = some c) (hs : isSpace c) : l.kind? = none ∧ ∀ d ∈ l.text, isSpace d := by
  cases h with
  | blanks hne h => exact ⟨rfl, h⟩
  | comment | continuation | continuationCr =>
      obtain rfl := Option.some.inj hc
      exact absurd hs (by decide)
  | number hne h =>
      rw [not_isSpace_of_isDigit (h c (List.mem_of_head? hc))] at hs
      cases hs
  | identifier hne h =>
      rw [not_isSpace_of_isNameChar (h c (List.mem_of_head? hc))] at hs
      cases hs
  | sign h =>
      rcases sign_cases h with ⟨-, rfl⟩ | ⟨d, rfl, hd⟩
      · obtain rfl := Option.some.inj hc
        exact absurd hs (by decide)
      · obtain rfl := Option.some.inj hc
        rw [(facts_of_signKind? hd).1] at hs
        cases hs

/-- The lexemes `ls'` cut the text `gap` in front of the lexemes `ls`, and none of it is a word. -/
structure Prepends (gap : List Char) (ls ls' : List Lexeme) : Prop where
  tiles : Tiles ls'
  joined : ArithLang.joined ls' = gap ++ ArithLang.joined ls
  words : ∀ offset, ArithLang.words offset ls' = ArithLang.words (offset + byteLength gap) ls

/-- A blank in front of lexemes joins the blanks that they start with. -/
theorem Tiles.exists_prepends_space {ls : List Lexeme} (h : Tiles ls) {c : Char} (hc : isSpace c) :
    ∃ ls', Prepends [c] ls ls' := by
  by_cases hhead : ∃ d, (joined ls).head? = some d ∧ isSpace d
  · obtain ⟨d, hd, hs⟩ := hhead
    cases h with
    | nil => cases hd
    | @cons l ls hl he hls =>
        have hd' : l.text.head? = some d := by
          obtain ⟨e, text, htext⟩ := List.exists_cons_of_ne_nil hl.ne_nil
          rw [joined_cons, htext] at hd
          rw [htext]
          exact hd
        obtain ⟨hkind, hspaces⟩ := hl.of_isSpace hd' hs
        obtain ⟨kind?, text⟩ := l
        obtain rfl : kind? = none := hkind
        refine ⟨⟨none, c :: text⟩ :: ls, .cons (.blanks (by simp) ?_) ?_ hls, rfl, fun n => ?_⟩
        · intro e he'
          rcases List.mem_cons.1 he' with rfl | he'
          · exact hc
          · exact hspaces e he'
        · intro e he' hg
          refine he e he' ((Lexeme.goesOn_of_isSpace hd' hs).2 ?_)
          exact (Lexeme.goesOn_of_isSpace rfl hc).1 hg
        · show words (n + byteLength (c :: text)) ls =
            words (n + byteLength [c] + byteLength text) ls
          simp [Nat.add_assoc]
  · refine ⟨⟨none, [c]⟩ :: ls, ?_, rfl, fun _ => rfl⟩
    refine .cons (.blanks (by simp) (by simpa using hc)) (fun d hd hg => ?_) h
    exact hhead ⟨d, hd, (Lexeme.goesOn_of_isSpace rfl hc).1 hg⟩

/-- A comment or a line continuation in front of lexemes is a lexeme of its own. -/
theorem Prepends.separator {gap text : List Char} {ls ls' : List Lexeme} (h : Prepends gap ls ls')
    (hv : (Lexeme.mk none text).Valid) {c : Char} (hc : text.head? = some c)
    (hhead : c = '{' ∨ c = '\\') : Prepends (text ++ gap) ls (⟨none, text⟩ :: ls') where
  tiles := .cons hv (Lexeme.endsBefore_of_head hc hhead _) h.tiles
  joined := by rw [joined_cons, h.joined, List.append_assoc]
  words n := by
    show ArithLang.words (n + byteLength text) ls' = _
    rw [h.words, byteLength_append, Nat.add_assoc]

/-- A gap in front of lexemes can be cut into lexemes as well, and has no words. -/
theorem Gap.exists_prepends {gap : List Char} (hg : Gap gap) {ls : List Lexeme} (h : Tiles ls) :
    ∃ ls', Prepends gap ls ls' := by
  induction hg with
  | nil => exact ⟨ls, h, rfl, fun _ => rfl⟩
  | @space c cs hc _ ih =>
      obtain ⟨ls₁, h₁⟩ := ih
      obtain ⟨ls₂, h₂⟩ := h₁.tiles.exists_prepends_space hc
      refine ⟨ls₂, h₂.tiles, by rw [h₂.joined, h₁.joined]; rfl, fun n => ?_⟩
      rw [h₂.words, h₁.words]
      simp [Nat.add_assoc]
  | continuation _ ih =>
      obtain ⟨ls₁, h₁⟩ := ih
      exact ⟨_, h₁.separator .continuation rfl (.inr rfl)⟩
  | continuationCr _ ih =>
      obtain ⟨ls₁, h₁⟩ := ih
      exact ⟨_, h₁.separator .continuationCr rfl (.inr rfl)⟩
  | @comment inside cs hin _ ih =>
      obtain ⟨ls₁, h₁⟩ := ih
      have h₂ := h₁.separator (.comment hin) rfl (.inl rfl)
      rw [List.cons_append, List.append_assoc, List.singleton_append] at h₂
      exact ⟨_, h₂⟩

/-! ## Words -/

/-- The character would make the word longer if it stood behind it. -/
def Token.GoesOn (t : Token) (c : Char) : Prop :=
  t.kind = .number ∧ c.isDigit ∨ t.kind = .identifier ∧ isNameChar c ∨ t.kind = .star ∧ c = '*'

/-- The lexeme that the token is read from. -/
def Token.lexeme (t : Token) : Lexeme := ⟨some t.kind, t.text.toList⟩

/-- A word goes on as its lexeme does. -/
theorem Token.Lexical.goesOn_iff {t : Token} (h : t.Lexical) {c : Char} :
    t.lexeme.GoesOn c ↔ t.GoesOn c := by
  obtain ⟨kind, text, span⟩ := t
  unfold Token.Lexical at h
  unfold Token.lexeme Token.GoesOn
  generalize text.toList = cs at h ⊢
  cases h with
  | number hne h =>
      obtain ⟨d, cs, rfl⟩ := List.exists_cons_of_ne_nil hne
      rw [Lexeme.goesOn_of_isDigit rfl (h d (by simp))]
      simp
  | identifier hne h =>
      obtain ⟨d, cs, rfl⟩ := List.exists_cons_of_ne_nil hne
      rw [Lexeme.goesOn_of_isNameChar rfl (h d (by simp))]
      simp
  | sign h =>
      rcases Lexeme.sign_cases h with ⟨rfl, rfl⟩ | ⟨d, rfl, hd⟩
      · rw [Lexeme.goesOn_of_no_class (d := '*') rfl rfl rfl rfl]
        simp
      · obtain ⟨hs, hdigit, hn, -⟩ := facts_of_signKind? hd
        rw [Lexeme.goesOn_of_no_class rfl hs hdigit hn]
        have hstar : [d] = ['*'] ↔ kind = .star := by
          constructor
          · intro hd'
            obtain rfl := (List.cons.inj hd').1
            exact (Option.some.inj hd).symm
          · intro hk
            subst hk
            have hd' := congrArg String.toList (Option.some.inj (signKind?_eq_some_iff.1 hd))
            simpa using hd'.symm
        have hkind : kind ≠ .number ∧ kind ≠ .identifier := by
          constructor <;> (intro hk; subst hk; cases h)
        simp [hstar, hkind]

/-- Words with gaps around them make up the text `cs`, which starts at a byte offset. -/
inductive LaidOut : Nat → List Char → List Token → Prop where
  | nil {start : Nat} {cs : List Char} (h : Gap cs) : LaidOut start cs []
  | cons {start : Nat} {gap rest : List Char} {t : Token} {ts : List Token} (hg : Gap gap)
      (ht : t.Lexical)
      (hstart : t.span.start = start + byteLength gap)
      (hstop : t.span.stop = t.span.start + byteLength t.text.toList)
      (he : ∀ c, rest.head? = some c → ¬ t.GoesOn c) (h : LaidOut t.span.stop rest ts) :
      LaidOut start (gap ++ (t.text.toList ++ rest)) (t :: ts)

theorem LaidOut.gap_append {start : Nat} {gap cs : List Char} {ts : List Token} (hg : Gap gap)
    (h : LaidOut (start + byteLength gap) cs ts) : LaidOut start (gap ++ cs) ts := by
  cases h with
  | nil h => exact .nil (hg.append h)
  | cons hg' ht hstart hstop he h =>
      rw [← List.append_assoc]
      refine .cons (hg.append hg') ht ?_ hstop he h
      rw [hstart, byteLength_append, Nat.add_assoc]

/-- The words of lexemes that tile a text are laid out in it. -/
theorem Tiles.laidOut {ls : List Lexeme} (h : Tiles ls) (start : Nat) :
    LaidOut start (joined ls) (words start ls) := by
  induction h generalizing start with
  | nil => exact .nil .nil
  | @cons l ls hl he hs ih =>
      obtain ⟨kind?, text⟩ := l
      cases kind? with
      | none => exact .gap_append (hl.gap rfl) (ih _)
      | some kind =>
          let t : Token := ⟨kind, String.ofList text, ⟨start, start + byteLength text⟩⟩
          have htext : t.text.toList = text := String.toList_ofList
          have ht : t.Lexical := by
            unfold Token.Lexical
            rwa [htext]
          have hlexeme : t.lexeme = ⟨some kind, text⟩ := congrArg (Lexeme.mk (some kind)) htext
          show LaidOut start ([] ++ (text ++ joined ls)) (t :: words t.span.stop ls)
          rw [← htext]
          refine .cons .nil ht rfl (by rw [htext]) (fun c hc hg => ?_) (ih _)
          exact he c hc (hlexeme ▸ ht.goesOn_iff.2 hg)

/-- A text in which words are laid out is tiled by lexemes with these words. -/
theorem LaidOut.exists_tiles {start : Nat} {cs : List Char} {ts : List Token}
    (h : LaidOut start cs ts) : ∃ ls, Tiles ls ∧ cs = joined ls ∧ ts = words start ls := by
  induction h with
  | nil hg =>
      obtain ⟨ls, h⟩ := hg.exists_prepends .nil
      exact ⟨ls, h.tiles, by rw [h.joined]; simp, (h.words _).symm⟩
  | @cons start gap rest t ts hg ht hstart hstop he _ ih =>
      obtain ⟨ls, htiles, rfl, rfl⟩ := ih
      have hword : Tiles (t.lexeme :: ls) :=
        .cons ht (fun c hc hgo => he c hc (ht.goesOn_iff.1 hgo)) htiles
      obtain ⟨ls', h⟩ := hg.exists_prepends hword
      refine ⟨ls', h.tiles, h.joined.symm, ?_⟩
      obtain ⟨kind, text, ⟨first, last⟩⟩ := t
      obtain rfl : first = start + byteLength gap := hstart
      obtain rfl : last = start + byteLength gap + byteLength text.toList := hstop
      rw [h.words, words_cons]
      simp [Token.lexeme, Lexeme.word?]

theorem laidOut_iff {start : Nat} {cs : List Char} {ts : List Token} :
    LaidOut start cs ts ↔ ∃ ls, Tiles ls ∧ cs = joined ls ∧ ts = words start ls := by
  constructor
  · exact LaidOut.exists_tiles
  · intro h
    obtain ⟨ls, htiles, rfl, rfl⟩ := h
    exact htiles.laidOut start

/-! ## Tilings by byte offsets -/

/-- The character that starts at a byte offset of the text. -/
def charAt? (source : String) (offset : Nat) : Option Char :=
  (dropBytes? offset source.toList).bind List.head?

/-- The stretches from `start` to `stop` that the words leave free, in order. -/
def gapSpans (start stop : Nat) : List Token → List Span
  | [] => [⟨start, stop⟩]
  | t :: ts => ⟨start, t.span.start⟩ :: gapSpans t.span.stop stop ts

/-- The words and the gaps around them make up the text from the byte offset `start` on, and no
    word is shorter than it could be. -/
structure TileFrom (source : String) (start : Nat) (words : List Token) : Prop where
  /-- Every word is written as its kind asks. -/
  lexical : ∀ t ∈ words, t.Lexical
  /-- Every word is the text under its span. -/
  text : ∀ t ∈ words, t.span.slice? source = some t.text
  nonempty : ∀ t ∈ words, t.span.start < t.span.stop
  ordered : words.Pairwise fun t u => t.span.stop ≤ u.span.start
  /-- What the words leave free are gaps. -/
  gaps : ∀ s ∈ gapSpans start source.utf8ByteSize words,
    ∃ text, s.slice? source = some text ∧ Gap text.toList
  /-- No word goes on with the character behind it. -/
  complete : ∀ t ∈ words, ∀ c, charAt? source t.span.stop = some c → ¬ t.GoesOn c

section
variable {source : String} {before cs : List Char} {ts : List Token} {t : Token}

theorem charAt?_of_append (h : source.toList = before ++ cs) :
    charAt? source (byteLength before) = cs.head? := by
  unfold charAt?
  rw [h, dropBytes?_byteLength_append]
  rfl

/-- A text has one place at each byte offset. -/
theorem append_inj_of_byteLength {before' cs' : List Char} (h : before ++ cs = before' ++ cs')
    (hlen : byteLength before = byteLength before') : before = before' ∧ cs = cs' := by
  have hdrop := dropBytes?_byteLength_append before cs
  rw [h, hlen, dropBytes?_byteLength_append] at hdrop
  obtain rfl := Option.some.inj hdrop
  exact ⟨List.append_cancel_right h, rfl⟩

theorem Span.slice?_of_append {text : String} {after : List Char} {s : Span}
    (h : source.toList = before ++ (text.toList ++ after)) (hstart : s.start = byteLength before)
    (hstop : s.stop = s.start + byteLength text.toList) : s.slice? source = some text :=
  slice?_eq_some_iff.2 ⟨before, after, h, hstart.symm, by rw [hstop, byteLength_toList]⟩

/-- A slice that starts at a known place is the text from there up to its stop. -/
theorem Span.exists_of_slice? {text : String} {s : Span} (h : source.toList = before ++ cs)
    (hs : s.slice? source = some text) (hstart : s.start = byteLength before) :
    ∃ after, cs = text.toList ++ after ∧ s.stop = s.start + byteLength text.toList := by
  obtain ⟨before', after, h', hbefore, hstop⟩ := slice?_eq_some_iff.1 hs
  obtain ⟨rfl, rfl⟩ := append_inj_of_byteLength (h.symm.trans h') (hstart.symm.trans hbefore.symm)
  exact ⟨after, rfl, by rw [byteLength_toList, hstop]⟩

theorem Span.slice?_to_end (h : source.toList = before ++ cs) :
    Span.slice? ⟨byteLength before, source.utf8ByteSize⟩ source = some (String.ofList cs) := by
  have h' : source.toList = before ++ ((String.ofList cs).toList ++ []) := by simpa using h
  refine slice?_of_append h' rfl ?_
  rw [← byteLength_toList, h, byteLength_append, String.toList_ofList]

/-- Without words the whole rest of the text is a gap. -/
theorem tileFrom_nil_iff (h : source.toList = before ++ cs) :
    TileFrom source (byteLength before) [] ↔ Gap cs := by
  have hslice := Span.slice?_to_end h
  constructor
  · intro ht
    obtain ⟨text, htext, hg⟩ := ht.gaps _ (List.mem_singleton.2 rfl)
    rw [hslice] at htext
    obtain rfl := Option.some.inj htext
    rwa [String.toList_ofList] at hg
  · intro hg
    refine ⟨by simp, by simp, by simp, by simp, fun s hs => ?_, by simp⟩
    obtain rfl : s = ⟨byteLength before, source.utf8ByteSize⟩ := by simpa [gapSpans] using hs
    exact ⟨_, hslice, by rwa [String.toList_ofList]⟩

theorem TileFrom.start_le {start : Nat} (h : TileFrom source start ts) :
    ∀ t ∈ ts, start ≤ t.span.start := by
  cases ts with
  | nil => simp
  | cons u us =>
      obtain ⟨text, htext, -⟩ := h.gaps ⟨start, u.span.start⟩ (by simp [gapSpans])
      obtain ⟨-, -, -, -, hstop⟩ := Span.slice?_eq_some_iff.1 htext
      have hfirst : start ≤ u.span.start := Nat.le.intro hstop
      intro t ht
      rcases List.mem_cons.1 ht with rfl | ht
      · exact hfirst
      · have hu := h.nonempty u (by simp)
        have hut := (List.pairwise_cons.1 h.ordered).1 t ht
        omega

/-- The first word stands behind a gap, and the others tile the text from its stop on. -/
theorem tileFrom_cons_iff (h : source.toList = before ++ cs) :
    TileFrom source (byteLength before) (t :: ts) ↔
      ∃ gap rest, cs = gap ++ (t.text.toList ++ rest) ∧ Gap gap ∧ t.Lexical ∧
        t.span.start = byteLength before + byteLength gap ∧
        t.span.stop = t.span.start + byteLength t.text.toList ∧
        (∀ c, rest.head? = some c → ¬ t.GoesOn c) ∧ TileFrom source t.span.stop ts := by
  constructor
  · intro ht
    obtain ⟨gap, hgap, hg⟩ := ht.gaps ⟨byteLength before, t.span.start⟩ (by simp [gapSpans])
    obtain ⟨after, rfl, hstart⟩ := Span.exists_of_slice? h hgap rfl
    have h' : source.toList = (before ++ gap.toList) ++ after := by rw [h, List.append_assoc]
    have hstart' : t.span.start = byteLength (before ++ gap.toList) := by
      rw [byteLength_append]
      exact hstart
    obtain ⟨rest, rfl, hstop⟩ := Span.exists_of_slice? h' (ht.text t (by simp)) hstart'
    refine ⟨gap.toList, rest, rfl, hg, ht.lexical t (by simp), hstart, hstop, fun c hc => ?_, ?_⟩
    · have h'' : source.toList = (before ++ gap.toList ++ t.text.toList) ++ rest := by simp [h]
      refine ht.complete t (by simp) c ?_
      rw [hstop, hstart', ← byteLength_append, charAt?_of_append h'', hc]
    · exact
        { lexical := fun u hu => ht.lexical u (by simp [hu])
          text := fun u hu => ht.text u (by simp [hu])
          nonempty := fun u hu => ht.nonempty u (by simp [hu])
          ordered := (List.pairwise_cons.1 ht.ordered).2
          gaps := fun s hs => ht.gaps s (by simp [gapSpans, hs])
          complete := fun u hu => ht.complete u (by simp [hu]) }
  · intro h'
    obtain ⟨gap, rest, rfl, hg, hlex, hstart, hstop, he, ht⟩ := h'
    have hgap : Span.slice? ⟨byteLength before, t.span.start⟩ source =
        some (String.ofList gap) := by
      have h' : source.toList =
          before ++ ((String.ofList gap).toList ++ (t.text.toList ++ rest)) := by
        rwa [String.toList_ofList]
      refine Span.slice?_of_append h' rfl ?_
      rw [String.toList_ofList, hstart]
    have hsource : source.toList = (before ++ gap) ++ (t.text.toList ++ rest) := by
      rw [h, List.append_assoc]
    have hstart' : t.span.start = byteLength (before ++ gap) := by
      rw [byteLength_append, hstart]
    have hpos : 0 < byteLength t.text.toList :=
      Nat.pos_of_ne_zero fun h => hlex.ne_nil (byteLength_eq_zero.1 h)
    have hchar : charAt? source t.span.stop = rest.head? := by
      rw [hstop, hstart', ← byteLength_append]
      exact charAt?_of_append (by rw [hsource]; simp)
    exact
      { lexical := List.forall_mem_cons.2 ⟨hlex, ht.lexical⟩
        text := List.forall_mem_cons.2 ⟨Span.slice?_of_append hsource hstart' hstop, ht.text⟩
        nonempty := List.forall_mem_cons.2 ⟨by omega, ht.nonempty⟩
        ordered := List.pairwise_cons.2 ⟨ht.start_le, ht.ordered⟩
        gaps := List.forall_mem_cons.2 ⟨⟨_, hgap, by rwa [String.toList_ofList]⟩, ht.gaps⟩
        complete := List.forall_mem_cons.2 ⟨fun c hc => he c (hchar ▸ hc), ht.complete⟩ }

/-- Words tile a text by byte offsets exactly when they are laid out in it. -/
theorem tileFrom_iff_laidOut (h : source.toList = before ++ cs) :
    TileFrom source (byteLength before) ts ↔ LaidOut (byteLength before) cs ts := by
  induction ts generalizing before cs with
  | nil =>
      rw [tileFrom_nil_iff h]
      constructor
      · exact LaidOut.nil
      · intro hl
        cases hl with
        | nil hg => exact hg
  | cons t ts ih =>
      -- Behind the first word the text starts anew at the stop of its span.
      have hrest : ∀ gap rest, cs = gap ++ (t.text.toList ++ rest) →
          t.span.start = byteLength before + byteLength gap →
          t.span.stop = t.span.start + byteLength t.text.toList →
          (TileFrom source t.span.stop ts ↔ LaidOut t.span.stop rest ts) := by
        intro gap rest hcs hstart hstop
        have hbefore : t.span.stop = byteLength (before ++ gap ++ t.text.toList) := by
          rw [byteLength_append, byteLength_append, hstop, hstart]
        rw [hbefore]
        exact ih (by rw [h, hcs]; simp)
      rw [tileFrom_cons_iff h]
      constructor
      · intro h'
        obtain ⟨gap, rest, hcs, hg, ht, hstart, hstop, he, htile⟩ := h'
        have hl := (hrest gap rest hcs hstart hstop).1 htile
        exact hcs ▸ .cons hg ht hstart hstop he hl
      · intro h'
        cases h' with
        | @cons _ gap rest _ _ hg ht hstart hstop he hl =>
            have htile := (hrest gap rest rfl hstart hstop).2 hl
            exact ⟨gap, rest, rfl, hg, ht, hstart, hstop, he, htile⟩

end

/-- The words that tile a text are those of the lexemes that it is cut into. -/
theorem tileFrom_zero_iff {source : String} {ts : List Token} :
    TileFrom source 0 ts ↔ ∃ ls, Tiles ls ∧ source.toList = joined ls ∧ ts = words 0 ls :=
  (tileFrom_iff_laidOut (List.nil_append source.toList).symm).trans laidOut_iff

/-- The tokens of a text are the words that tile it, and the mark of its end. -/
theorem tokenize_eq_ok_iff_tileFrom {source : String} {ts : List Token} :
    tokenize source = .ok ts ↔
      ∃ words, ts = words ++ [⟨.eof, "EOF", ⟨source.utf8ByteSize, source.utf8ByteSize⟩⟩] ∧
        (∀ t ∈ words, t.kind ≠ .eof) ∧ TileFrom source 0 words := by
  rw [tokenize_eq_ok_iff]
  constructor
  · intro h
    obtain ⟨ls, htiles, hsource, rfl⟩ := h
    exact ⟨words 0 ls, rfl, fun t ht => (htiles.lexical ht).kind_ne_eof,
      tileFrom_zero_iff.2 ⟨ls, htiles, hsource, rfl⟩⟩
  · intro h
    obtain ⟨us, rfl, -, h⟩ := h
    obtain ⟨ls, htiles, hsource, rfl⟩ := tileFrom_zero_iff.1 h
    exact ⟨ls, htiles, hsource, rfl⟩

/-- Only one list of words tiles a text. -/
theorem TileFrom.unique {source : String} {ts ts' : List Token} (h : TileFrom source 0 ts)
    (h' : TileFrom source 0 ts') : ts = ts' := by
  have tokens : ∀ us, TileFrom source 0 us →
      tokenize source = .ok (us ++ [.eof source.utf8ByteSize]) := by
    intro us hus
    obtain ⟨ls, htiles, hsource, rfl⟩ := tileFrom_zero_iff.1 hus
    exact tokenize_eq_ok_iff.2 ⟨ls, htiles, hsource, rfl⟩
  have heq := Except.ok.inj ((tokens ts h).symm.trans (tokens ts' h'))
  exact List.append_cancel_right heq

end ArithLang
