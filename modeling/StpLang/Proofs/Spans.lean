import StpLang.Proofs.Accepted
import StpLang.Proofs.Span.Statement

/-!
The ranges of a tree.

In the tree of any text, read strictly or with recovery, the range of every node
holds those of its children, siblings stand apart, and what lies outside the
statements of the program is layout or a comment that was set aside. Read
strictly, every node names its place and shows its text.

* `isLayout` tells the characters that may stand between statements.
* `Tiled.covers`: what is not layout lies in a token.
* `covered_of_readTokens` reads the tokens of a text up to an end mark.
* `parse_spans` is the result for trees.
-/

namespace StpLang

open Lexer StpLang.Parser

/-! ### Layout -/

/-- Layout is ahead: white space, a line end, a semicolon, or the backslash of a
continued line. -/
def isLayout : List Char → Bool
  | ' ' :: _ | '\t' :: _ | '\r' :: _ | '\n' :: _ | ';' :: _ => true
  | '\\' :: '\n' :: _ | '\\' :: '\r' :: '\n' :: _ => true
  | _ => false

/-- The node holds the character at an offset. -/
def Node.Holds (n : Node) (i : Nat) : Prop := n.start ≤ i ∧ i < n.stop

section

variable {cs w : List Char} {lo hi mid i : Nat}

/-- White space is layout all the way. -/
lemma Blank.layout {lineEnds : Bool} (h : Blank lineEnds w) (r : List Char) :
    ∀ i < w.length, isLayout ((w ++ r).drop i) = true := by
  induction h with
  | nil => exact fun i hi => absurd hi (Nat.not_lt_zero i)
  | blank hx _ ih =>
    intro i hi
    cases i with
    | zero => rcases hx with rfl | rfl | rfl <;> rfl
    | succ i => exact ih i (Nat.lt_of_succ_lt_succ hi)
  | lineEnd _ _ ih =>
    intro i hi
    cases i with
    | zero => rfl
    | succ i => exact ih i (Nat.lt_of_succ_lt_succ hi)
  | continuation _ ih =>
    intro i hi
    match i with
    | 0 | 1 => rfl
    | i + 2 => exact ih i (Nat.lt_of_succ_lt_succ (Nat.lt_of_succ_lt_succ hi))
  | returnContinuation _ ih =>
    intro i hi
    match i with
    | 0 | 1 | 2 => rfl
    | i + 3 => exact ih i (by simp only [List.length_cons] at hi; omega)

/-- The text from a place on. -/
lemma drop_eq_slice_append (hle : lo ≤ mid) :
    cs.drop lo = Text.slice cs lo mid ++ cs.drop mid := by
  rw [Text.slice, ← Nat.add_sub_cancel' hle, List.drop_take, Nat.add_sub_cancel_left,
    ← List.drop_drop, List.take_append_drop]

/-- White space between two places is layout. -/
lemma Blank.layout_at {lineEnds : Bool} (h : Blank lineEnds (Text.slice cs lo mid))
    (hin : mid ≤ cs.length) (hlo : lo ≤ i) (hmid : i < mid) : isLayout (cs.drop i) = true := by
  have hlen : (Text.slice cs lo mid).length = mid - lo := by
    rw [Text.slice, List.length_drop, List.length_take, Nat.min_eq_left hin]
  have hlayout := h.layout (cs.drop mid) (i - lo) (by omega)
  rwa [← drop_eq_slice_append (by omega), List.drop_drop, Nat.add_sub_cancel' hlo] at hlayout

/-- What is not layout lies in a token. -/
lemma Tiled.covers {inSnippet : Bool} {groups ts : List Token} {last : Option TokenKind}
    (h : Tiled cs inSnippet groups last lo ts hi) (hlo : lo ≤ i) (hhi : i < hi) :
    isLayout (cs.drop i) = true ∨ ∃ t ∈ ts, t.Stands cs ∧ t.start ≤ i ∧ i < t.stop := by
  induction ts generalizing groups last lo with
  | nil =>
    cases h
    omega
  | cons t ts ih =>
    cases h with
    | cons order space stands _ _ more =>
      have hplace := stands.place
      by_cases h1 : i < t.start
      · exact .inl (space.layout_at (Nat.le_trans hplace.order hplace.inside) hlo h1)
      by_cases h2 : i < t.stop
      · exact .inr ⟨t, List.mem_cons_self, stands, by omega, h2⟩
      · obtain h | ⟨u, hu, h⟩ := ih more (by omega)
        · exact .inl h
        · exact .inr ⟨u, List.mem_cons_of_mem _ hu, h⟩

/-! ### Separators -/

lemma Spells.separator {P : List Token → Prop} {kind : TokenKind} {value : String}
    {segs : List (Segment Token)} (h : Spells P kind value segs) (hk : kind.isSeparator = true) :
    value = "\n" ∨ value = ";" := by
  have hop : ∀ o ∈ TokenKind.operators, o.2.isSeparator = true → o.1 = ";" := by decide
  have hwords : ∀ k ∈ TokenKind.words, k.isSeparator = false := by decide
  cases h with
  | lineEnd => exact .inl rfl
  | word _ _ hw =>
    rw [hwords _ (TokenKind.mem_words hw)] at hk
    cases hk
  | operator h => exact .inr (hop _ h hk)
  | _ => cases hk

/-- A separator is layout. -/
lemma Token.Stands.layout_of_separator {t : Token} {n : Nat} (h : t.Stands cs) (hs : t.Spelled n)
    (hk : t.kind.isSeparator = true) (hlo : t.start ≤ i) (hhi : i < t.stop) :
    isLayout (cs.drop i) = true := by
  have hne : t.kind ≠ .comment := by
    intro hc
    rw [hc] at hk
    cases hk
  have hvalue := h.value
  rw [if_neg hne] at hvalue
  have hlen := congrArg List.length hvalue
  rw [Text.slice, List.length_drop, List.length_take, Nat.min_eq_left h.place.inside] at hlen
  have hdrop : cs.drop t.start = _ := drop_eq_slice_append h.place.order
  rw [← hvalue] at hdrop
  rcases hs.separator hk with hv | hv
  · rw [hv] at hlen hdrop
    obtain rfl : t.start = i := by
      have : ("\n".toList).length = 1 := rfl
      omega
    rw [hdrop]
    rfl
  · rw [hv] at hlen hdrop
    obtain rfl : t.start = i := by
      have : (";".toList).length = 1 := rfl
      omega
    rw [hdrop]
    rfl

/-! ### Reading the tokens -/

/-- A token is kept at its place or set aside as a comment there. -/
lemma mem_settle {t : Token} {ts : List Token} (ht : t ∈ ts) (depth : Nat)
    (last : Option TokenKind) :
    (∃ u ∈ (settle depth last ts).1, u.start = t.start ∧ u.stop = t.stop
        ∧ (u.kind.isSeparator = true → t.kind.isSeparator = true))
      ∨ .leaf .comment t ∈ (settle depth last ts).2 := by
  induction ts generalizing depth last with
  | nil => cases ht
  | cons x xs ih =>
    rw [settle_cons]
    cases hk : keptToken? depth last x with
    | none =>
      rcases List.mem_cons.mp ht with rfl | ht
      · exact .inr List.mem_cons_self
      · exact (ih ht depth last).imp_right (List.mem_cons_of_mem _)
    | some u =>
      rcases List.mem_cons.mp ht with rfl | ht
      · refine .inl ⟨u, List.mem_cons_self, ?_⟩
        rcases keptToken?_some hk with rfl | ⟨-, rfl⟩
        · exact ⟨rfl, rfl, id⟩
        · exact ⟨rfl, rfl, by rintro ⟨⟩⟩
      · refine (ih ht _ _).imp_left ?_
        rintro ⟨v, hv, h⟩
        exact ⟨v, List.mem_cons_of_mem _ hv, h⟩

/-- Reading up to an end mark passes over all the other tokens. -/
lemma mem_of_ends {ts k vs : List Token} {e : Token} (h : ts ++ k = vs ++ [e])
    (hvs : ∀ v ∈ vs, v.kind ≠ .eof) (hk : headKind k = .eof) : ∀ v ∈ vs, v ∈ ts := by
  cases k with
  | nil =>
    rw [List.append_nil] at h
    intro v hv
    rw [h]
    exact List.mem_append_left _ hv
  | cons x k =>
    rcases List.eq_nil_or_concat k with rfl | ⟨k', y, rfl⟩
    · rw [(List.append_inj' h rfl).1]
      exact fun v hv => hv
    · rw [List.concat_eq_append, ← List.cons_append, ← List.append_assoc] at h
      have heq := (List.append_inj' h rfl).1
      exact absurd hk (hvs x (by rw [← heq]; simp))

end

section

variable {source : String} {limit : Int} {us : List Token} {v : Lexer} {d : Cursor} {b : Bool}
  {trace : List Event} {t : Tree} {e : Token} {i : Nat}

/-- The statements of the program stand in a row up to the end mark, and every
token lies within one, separates them or is set aside. -/
lemma covered_of_readTokens (hlex : Lexes limit { cursor := .ofText source } us v)
    (hd : v.cursor.Ahead d) (he : e = { Token.eofAt d.line d.col d.pos with spaced := b })
    (h : (readTokens limit false (us ++ [e]) trace).result = .ok t) :
    Row source.toList 0 t.root.children d.pos
      ∧ t.root = .spanning .sourceFile ⟨1, 1, 0⟩ d.pos t.root.children
      ∧ ∀ u ∈ us, u.kind.isSeparator = true
        ∨ (∃ n ∈ t.root.children, n.start ≤ u.start ∧ u.stop ≤ n.stop)
        ∨ .leaf .comment u ∈ t.trivia := by
  have hstart := Cursor.in_ofText source
  have hkind : e.kind = .eof := by rw [he]; rfl
  have htiled : Tiled source.toList false [] none 0 us v.cursor.pos := by
    rw [← List.append_nil us]
    exact hlex.tiled hstart beginsLine_none fun _ => .nil
  have hin := hd.in_ (hlex.ahead.in_ hstart)
  -- the tokens that the grammar is given, with the end mark behind them
  obtain ⟨hi, hle, hlaid⟩ : ∃ hi, hi ≤ v.cursor.pos ∧ Laid source.toList 0 (settle 0 none us).1 hi :=
    laid_settle htiled (fun u hu _ => ⟨_, hlex.spelled u hu⟩) (Nat.le_refl _) (fun _ => rfl) 0
  obtain ⟨hsettle, hne⟩ := settle_eof hkind hlex.ne_eof
  have hend : Laid source.toList hi [e] d.pos := by
    subst he
    refine .cons (Nat.le_trans hle hd.pos_le) (fun _ => .inr rfl)
      ⟨stands_eof hin b, fun hne => absurd rfl hne, ?_⟩ .nil
    exact fun seg hseg => (List.not_mem_nil hseg).elim
  rw [readTokens_result] at h
  cases hs : Grammar.program (Grammar.level limit false limit.toNat) 0
      (startAt (us ++ [e]) trace) with
  | error e s => rw [hs] at h; cases h
  | ok root s =>
    rw [hs] at h
    cases h
    obtain ⟨⟨ts, hruns, hmends⟩, hloop, hroot⟩ := mends_of_program hs
    have hfirst : (startAt (us ++ [e]) trace).rest = (settle 0 none us).1 ++ [e] :=
      congrArg Prod.fst hsettle
    have hrest := hruns.rest.symm.trans hfirst
    obtain ⟨es, cs, hm⟩ := hruns
    have hstop : s.current.stop = d.pos := by
      rw [stop_of_loopEnds hfirst hne hm hloop, he]
      rfl
    have hkinds : headKind s.rest = .eof := by
      rw [← Parser.current_kind]
      exact hloop.2.resolve_right fun h => by cases h
    obtain ⟨mid, hts, hk⟩ :
        ∃ mid, Laid source.toList 0 ts mid ∧ Laid source.toList mid s.rest d.pos :=
      Laid.split (by rw [hrest]; exact hlaid.append hend)
    refine ⟨(hmends.row 0 mid hts).to_le hk.le, hstop ▸ hroot, fun u hu => ?_⟩
    rcases mem_settle hu 0 none with ⟨w, hw, hstart, hstop, hsep⟩ | hcomment
    · rcases hmends.covers hts w (mem_of_ends hrest hne hkinds w hw) with hs | ⟨n, hn, h1, h2⟩
      · exact .inl (hsep hs)
      · exact .inr (.inl ⟨n, hn, by omega, by omega⟩)
    · refine .inr (.inr ?_)
      show _ ∈ s.trivia
      have htrivia : (startAt (us ++ [e]) trace).trivia = (settle 0 none us).2 :=
        (congrArg Prod.snd hsettle :)
      rw [hm.trivia, htrivia]
      exact List.mem_append_left _ hcomment

/-- Up to the end mark every character is layout, or it lies in a statement or in
a comment that was set aside. -/
lemma layout_or_held (hlex : Lexes limit { cursor := .ofText source } us v)
    (hcover : ∀ u ∈ us, u.kind.isSeparator = true
      ∨ (∃ n ∈ t.root.children, n.start ≤ u.start ∧ u.stop ≤ n.stop)
      ∨ .leaf .comment u ∈ t.trivia) (hi : i < v.cursor.pos) :
    isLayout (source.toList.drop i) = true ∨ (∃ n ∈ t.root.children, n.Holds i)
      ∨ ∃ c ∈ t.trivia, c.kind = .comment ∧ c.Holds i := by
  have htiled : Tiled source.toList false [] none 0 (us ++ []) v.cursor.pos :=
    hlex.tiled (Cursor.in_ofText source) beginsLine_none fun _ => .nil
  rw [List.append_nil] at htiled
  rcases htiled.covers (Nat.zero_le i) hi with h | ⟨u, hu, hstands, h1, h2⟩
  · exact .inl h
  rcases hcover u hu with hsep | ⟨n, hn, hstart, hstop⟩ | hc
  · exact .inl (hstands.layout_of_separator (hlex.spelled u hu) hsep h1 h2)
  · exact .inr (.inl ⟨n, hn, by omega, by omega⟩)
  · exact .inr (.inr ⟨_, hc, rfl, h1, h2⟩)

/-- The tree of what is ahead of a cursor, read with or without recovery, is that of
its tokens read with recovery; behind it stands what could not be cut into tokens. -/
lemma readFrom_cases {strict : Bool} {c : Cursor} (h : (readFrom limit strict c).result = .ok t) :
    ∃ us v, Lexes limit { cursor := c } us v
      ∧ ((∃ e w trace, textToken limit v = .ok e w ∧ e.kind = .eof
          ∧ (readTokens limit false (us ++ [e]) trace).result = .ok t)
        ∨ strict = false ∧ ∃ error trace t',
          (readTokens limit false
              (us ++ [.eofAt v.cursor.line v.cursor.col v.cursor.pos]) trace).result = .ok t'
            ∧ t = t'.withUnreadable ⟨error, v.cursor⟩ (c.past.length + c.rest.length)) := by
  obtain ⟨us, v, hlex, hend⟩ := exists_lexes limit { cursor := c }
  obtain ⟨htokens, hfault⟩ := hlex.lexFrom_eq
  refine ⟨us, v, hlex, ?_⟩
  unfold readFrom at h
  rw [run_eq_lexFrom] at h
  dsimp only at h
  rcases hend with ⟨e, w, he⟩ | ⟨e, w, he, hk⟩
  · rw [lexFrom_error he] at htokens hfault
    rw [hfault, htokens] at h
    dsimp only at h
    cases strict with
    | true => cases h
    | false =>
      rw [if_neg Bool.false_ne_true] at h
      generalize lexFrom limit { cursor := c } = lexed at h
      obtain ⟨t', ht'⟩ := readTokens_ok limit
        (us ++ [.eofAt v.cursor.line v.cursor.col v.cursor.pos])
        (.lexingStopped e :: lexed.trace)
      rw [ht'] at h
      cases h
      exact .inr ⟨rfl, e, _, t', ht', rfl⟩
  · rw [lexFrom_eof he hk] at htokens hfault
    rw [hfault, htokens] at h
    dsimp only at h
    generalize (lexFrom limit { cursor := c }).trace = trace at h
    refine .inl ⟨e, w, trace, he, hk, ?_⟩
    cases strict with
    | false => exact h
    | true =>
      obtain ⟨t', ht'⟩ := readTokens_ok limit (us ++ [e]) trace
      rcases readTokens_strict ht' with ⟨hs, -⟩ | ⟨e', hs, -⟩
      · rw [hs] at h
        cases h
        exact ht'
      · rw [hs] at h
        cases h

/-- The tree of a text, in the same way. -/
lemma parse_cases {strict : Bool} (h : parse source strict limit = .ok t) :
    ∃ us v, Lexes limit { cursor := .ofText source } us v
      ∧ ((∃ e w trace, textToken limit v = .ok e w ∧ e.kind = .eof
          ∧ (readTokens limit false (us ++ [e]) trace).result = .ok t)
        ∨ strict = false ∧ ∃ error trace t',
          (readTokens limit false
              (us ++ [.eofAt v.cursor.line v.cursor.col v.cursor.pos]) trace).result = .ok t'
            ∧ t = t'.withUnreadable ⟨error, v.cursor⟩ source.toList.length) := by
  have hlength : (Cursor.ofText source).past.length + (Cursor.ofText source).rest.length
      = source.toList.length := by simp [Cursor.ofText, Cursor.atOffset]
  rw [← hlength]
  exact readFrom_cases h

/-- The first place of a text. -/
lemma named_origin (cs : List Char) : Place.Named cs ⟨1, 1, 0⟩ := by
  constructor <;> simp [Text.lineAt, Text.colAt]

/-- A last child behind the others, over text that could not be read. -/
lemma framed_withUnreadable {fault : LexFault} {cs : List Char}
    (hrow : Row cs 0 t.root.children fault.place.pos) (hstart : t.root.start = 0)
    (hle : fault.place.pos ≤ cs.length) :
    ∀ n ∈ (t.withUnreadable fault cs.length).root.walk, n.Framed cs.length := by
  have hlast : (unreadable fault cs.length).Framed cs.length :=
    ⟨hle, Nat.le_refl _, fun c hc => (List.not_mem_nil hc).elim, .nil⟩
  have hroot : (t.withUnreadable fault cs.length).root.Framed cs.length := by
    refine ⟨?_, Nat.le_refl _, fun c hc => ?_, List.pairwise_append.mpr ⟨hrow.apart, ?_, ?_⟩⟩
    · show t.root.start ≤ cs.length
      omega
    · show t.root.start ≤ c.start ∧ c.stop ≤ cs.length
      rcases List.mem_append.mp hc with hc | hc
      · obtain ⟨-, -, hstop⟩ := hrow.mem c hc
        omega
      · rw [List.mem_singleton] at hc
        subst hc
        exact ⟨by omega, Nat.le_refl _⟩
    · exact List.pairwise_singleton _ _
    · intro c hc x hx
      rw [List.mem_singleton] at hx
      subst hx
      obtain ⟨hfits, -, hstop⟩ := hrow.mem c hc
      exact ⟨Nat.le_trans hfits.framed.order hstop, .inl hstop⟩
  intro n hn
  rw [Node.walk_eq, List.mem_cons, List.mem_flatMap] at hn
  rcases hn with rfl | ⟨c, hc, hn⟩
  · exact hroot
  · rcases List.mem_append.mp hc with hc | hc
    · exact ((hrow.mem c hc).1 n hn).1
    · rw [List.mem_singleton.mp hc, Node.walk_eq, List.mem_cons] at hn
      rcases hn with rfl | hn
      · exact hlast
      · cases hn

end

/-- **Ranges nest and cover the text.** In the tree of any text, the range of every
node lies in the text and holds those of its children, which stand apart. Every
character outside the statements of the program is layout or lies in a comment
that was set aside. Read strictly, every node names the line and the column of its
start, and those that show a text show that of their range. -/
theorem parse_spans {source : String} {strict : Bool} {limit : Int} {t : Tree}
    (h : parse source strict limit = .ok t) :
    (∀ n ∈ t.root.walk, n.Framed source.toList.length)
      ∧ (∀ i < source.toList.length, (∀ n ∈ t.root.children, ¬n.Holds i) →
        isLayout (source.toList.drop i) = true ∨ ∃ c ∈ t.trivia, c.kind = .comment ∧ c.Holds i)
      ∧ (strict = true → ∀ n ∈ t.root.walk, n.Exact source.toList) := by
  have hstart := Cursor.in_ofText source
  obtain ⟨us, v, hlex, ⟨e, w, trace, he, hk, ht⟩ | ⟨rfl, error, trace, t', ht, rfl⟩⟩ :=
    parse_cases h
  · obtain ⟨d, hd, hpos, hu⟩ := textToken_eof he hk (hlex.ahead.in_ hstart)
    have hahead : v.cursor.Ahead d := hd ▸ ahead_gap false v.groups v.cursor
    obtain ⟨hrow, hroot, hcover⟩ := covered_of_readTokens hlex hahead hu ht
    have hfits : t.root.Fits source.toList := by
      rw [hroot]
      exact hrow.fits (Nat.le_of_eq hpos) (named_origin _) (by rintro ⟨⟩)
    refine ⟨fun n hn => (hfits n hn).1, fun i hi hout => ?_, fun _ n hn => (hfits n hn).2⟩
    by_cases hbefore : i < v.cursor.pos
    · rcases layout_or_held hlex hcover hbefore with h | ⟨n, hn, h⟩ | h
      · exact .inl h
      · exact absurd h (hout n hn)
      · exact .inr h
    · have hblank := blank_gap (hlex.ahead.in_ hstart) false v.groups
      rw [hd] at hblank
      exact .inl (hblank.layout_at (Nat.le_of_eq hpos) (by omega) (by omega))
  · obtain ⟨hrow, hroot, hcover⟩ :=
      covered_of_readTokens (b := false) hlex ⟨0, Nat.zero_le _, rfl⟩ rfl ht
    have hle := (hlex.ahead.in_ hstart).pos_le
    refine ⟨framed_withUnreadable hrow (by rw [hroot]; rfl) hle, fun i hi hout => ?_,
      fun hs => by cases hs⟩
    by_cases hbefore : i < v.cursor.pos
    · rcases layout_or_held hlex hcover hbefore with h | ⟨n, hn, h⟩ | h
      · exact .inl h
      · exact absurd h (hout n (List.mem_append_left _ hn))
      · exact .inr h
    · exact absurd ⟨by show v.cursor.pos ≤ i; omega, hi⟩
        (hout _ (List.mem_append_right _ (List.mem_singleton_self _)))

/-- A call over two lines with a comment, a percentage, an escape and a snippet,
read strictly, and a text with a broken block and an unreadable end. -/
theorem parse_spans_broken :
    (∃ t, parse "f(1%, # c\n\"\\x41\\\x7bb\\\x7d\", x = 2);\\\n sym g" true 4 = .ok t
      ∧ t.root.walk.length = 19 ∧ t.trivia.length = 1
      ∧ ∀ n ∈ t.root.walk, n.Framed 38
        ∧ n.Exact "f(1%, # c\n\"\\x41\\\x7bb\\\x7d\", x = 2);\\\n sym g".toList)
    ∧ ∃ t, parse "if a \x7b ) ; b \x7d\n1 + \"c" false 2 = .ok t ∧ t.errors.length = 3
      ∧ ∀ n ∈ t.root.walk, n.Framed 21 := by
  have hstrict : ((parse "f(1%, # c\n\"\\x41\\\x7bb\\\x7d\", x = 2);\\\n sym g" true 4).toOption.map
      fun t => (t.root.walk.length, t.trivia.length)) = some (19, 1) := by decide +kernel
  have hbroken : ((parse "if a \x7b ) ; b \x7d\n1 + \"c" false 2).toOption.map
      fun t => t.errors.length) = some 3 := by decide +kernel
  constructor
  · cases h : parse "f(1%, # c\n\"\\x41\\\x7bb\\\x7d\", x = 2);\\\n sym g" true 4 with
    | error e =>
      rw [h] at hstrict
      cases hstrict
    | ok t =>
      rw [h] at hstrict
      obtain ⟨hnodes, htrivia⟩ := Prod.mk.inj (Option.some.inj hstrict)
      obtain ⟨hframed, -, hexact⟩ := parse_spans h
      exact ⟨t, rfl, hnodes, htrivia, fun n hn => ⟨hframed n hn, hexact rfl n hn⟩⟩
  · cases h : parse "if a \x7b ) ; b \x7d\n1 + \"c" false 2 with
    | error e =>
      rw [h] at hbroken
      cases hbroken
    | ok t =>
      rw [h] at hbroken
      exact ⟨t, rfl, Option.some.inj hbroken, (parse_spans h).1⟩

end StpLang
