import StpLang.Proofs.Lex.Leading

/-!
The tokens of a text tile it.

Between two neighbouring tokens stands white space and nothing else, every token
is spelled as the text between its offsets, and it names the line and the column
at which it starts. The same holds of the tokens in each snippet.

* `Blank` is white space, `Located` is a range that names its place, and
  `Pieced` says that the pieces of a string follow each other without a gap.
* `Tiled` says all this of the tokens between two offsets.
* `Cut.tiles` is the step: it puts one token before tokens that tile the rest.
* `SnippetAt.tiles` and `Lexes.tiled` are the runs, in a snippet and in a text.
* `tokenize_tiled` is the result for whole texts.
-/

namespace StpLang

open Lexer

/-! ### Places, pieces and white space -/

/-- White space: blanks, tabs, carriage returns and line continuations, and line
ends where `lineEnds` admits them. -/
inductive Blank (lineEnds : Bool) : List Char → Prop
  | nil : Blank lineEnds []
  | blank {x : Char} {cs : List Char} (hx : x = ' ' ∨ x = '\t' ∨ x = '\r')
      (h : Blank lineEnds cs) : Blank lineEnds (x :: cs)
  | lineEnd {cs : List Char} (hl : lineEnds = true) (h : Blank lineEnds cs) :
      Blank lineEnds ('\n' :: cs)
  | continuation {cs : List Char} (h : Blank lineEnds cs) :
      Blank lineEnds ('\\' :: '\n' :: cs)
  | returnContinuation {cs : List Char} (h : Blank lineEnds cs) :
      Blank lineEnds ('\\' :: '\r' :: '\n' :: cs)

/-- A range of the text that names the line and the column of its start. -/
structure Located (cs : List Char) (start stop line col : Nat) : Prop where
  order : start ≤ stop
  inside : stop ≤ cs.length
  line : line = Text.lineAt cs start
  col : col = Text.colAt cs start

/-- The pieces of a string, each spelled as the text between its offsets, follow
each other from one offset to another. -/
inductive Pieced (cs : List Char) : (lo : Nat) → List (Segment Token) → (hi : Nat) → Prop
  | nil {lo : Nat} : Pieced cs lo [] lo
  | cons {lo hi : Nat} {seg : Segment Token} {segs : List (Segment Token)}
      (first : seg.start = lo) (place : Located cs seg.start seg.stop seg.line seg.col)
      (extent : seg.start < seg.stop)
      (text : seg.text.toList = Text.slice cs seg.start seg.stop)
      (digits : ∀ digits, seg.form = .unicode digits →
        digits.toList = Text.slice cs (seg.start + 2) seg.stop)
      (inner : ∀ ts, seg.form = .snippet ts → seg.start + 4 ≤ seg.stop)
      (more : Pieced cs seg.stop segs hi) : Pieced cs lo (seg :: segs) hi

/-- The token stands in the text at the place that it names, and is spelled as
the text there; only an end mark is empty. -/
structure Token.Stands (cs : List Char) (t : Token) : Prop where
  place : Located cs t.start t.stop t.line t.col
  value : t.value.toList = if t.kind = .comment
    then Text.trimEnd (· == '\r') (Text.slice cs t.start t.stop)
    else Text.slice cs t.start t.stop
  empty : t.kind = .eof ↔ t.start = t.stop
  plain : t.kind ≠ .string → t.segments = []
  pieces : t.kind = .string → Pieced cs (t.start + 1) t.segments (t.stop - 1)

/-- The tokens, and white space between them, fill the text from the offset `lo`
to the offset `hi`. Before them `groups` are open and a token of the kind `last`
stands, if any. A token is spaced when it is the first, when it begins a line or
when white space precedes it. -/
inductive Tiled (cs : List Char) : (inSnippet : Bool) → (groups : List Token) →
    (last : Option TokenKind) → (lo : Nat) → List Token → (hi : Nat) → Prop
  | nil {inSnippet : Bool} {groups : List Token} {last : Option TokenKind} {lo : Nat} :
      Tiled cs inSnippet groups last lo [] lo
  | cons {inSnippet : Bool} {groups : List Token} {last : Option TokenKind} {lo hi : Nat}
      {t : Token} {ts : List Token} (order : lo ≤ t.start)
      (space : Blank (inSnippet || !groups.isEmpty) (Text.slice cs lo t.start))
      (stands : t.Stands cs)
      (spaced : t.spaced = true ↔
        last = none ∨ last = some .newline ∨ last = some .comment ∨ lo < t.start)
      (snippets : ∀ seg ∈ t.segments, ∀ us, seg.form = .snippet us →
        Tiled cs true [] none (seg.start + 2) us (seg.stop - 2))
      (more : Tiled cs inSnippet (groupsAfter t groups) (some t.kind) t.stop ts hi) :
      Tiled cs inSnippet groups last lo (t :: ts) hi

/-! ### The text ahead of a cursor -/

namespace Cursor

variable {cs : List Char} {c d : Cursor}

/-- The text ahead of a cursor is the text behind its offset. -/
lemma In.drop (h : c.In cs) : cs.drop c.pos = c.rest := by
  rw [← h.text, h.pos, List.drop_left' (by rw [List.length_reverse])]

lemma In.pos_le (h : c.In cs) : c.pos ≤ cs.length := by
  have := h.length
  omega

lemma Ahead.in_ (h : c.Ahead d) (hc : c.In cs) : d.In cs := by
  obtain ⟨n, -, rfl⟩ := h
  exact hc.forward n

/-- A range between two cursors names its place. -/
lemma Ahead.located (h : c.Ahead d) (hc : c.In cs) : Located cs c.pos d.pos c.line c.col :=
  ⟨h.pos_le, (h.in_ hc).pos_le, hc.line, hc.col⟩

lemma In.slice (h : c.In cs) {n : Nat} (hn : n ≤ c.rest.length) :
    Text.slice cs c.pos (c.forward n).pos = c.rest.take n := by
  rw [pos_forward hn, Text.slice, List.drop_take, h.drop, Nat.add_sub_cancel_left]

/-- The text between two cursors is the text between their offsets. -/
lemma Ahead.textTo (h : c.Ahead d) (hc : c.In cs) :
    (c.textTo d).toList = Text.slice cs c.pos d.pos := by
  obtain ⟨n, hn, rfl⟩ := h
  rw [hc.slice hn, textTo_forward_take hn, String.toList_ofList]

end Cursor

/-- The white space before a token is what stands before it. -/
lemma Scan.blank_take (lineEnds : Bool) (cs : List Char) :
    Blank lineEnds (cs.take (blankLength lineEnds cs)) := by
  fun_induction blankLength lineEnds cs with
  | case1 cs ih => exact .blank (.inl rfl) ih
  | case2 cs ih => exact .blank (.inr (.inl rfl)) ih
  | case3 cs ih => exact .blank (.inr (.inr rfl)) ih
  | case4 cs hl ih => exact .lineEnd hl ih
  | case5 => exact .nil
  | case6 cs ih => exact .continuation ih
  | case7 cs ih => exact .returnContinuation ih
  | case8 => exact .nil

lemma gap_le (inSnippet : Bool) (groups : List Token) (c : Cursor) :
    gap inSnippet groups c ≤ c.rest.length :=
  Scan.blankLength_le _ _

lemma blank_gap {cs : List Char} {c : Cursor} (hc : c.In cs) (inSnippet : Bool)
    (groups : List Token) :
    Blank (inSnippet || !groups.isEmpty)
      (Text.slice cs c.pos (c.forward (gap inSnippet groups c)).pos) := by
  rw [hc.slice (gap_le _ _ _)]
  exact Scan.blank_take _ _

/-! ### One token -/

/-- The tokens of a snippet tile it, up to its closing mark. -/
def SnippetRel.Tiles (R : SnippetRel) (cs : List Char) : Prop :=
  ∀ ⦃c ts d⦄, R c ts d → c.In cs →
    c.pos + 2 ≤ d.pos ∧ Tiled cs true [] none c.pos ts (d.pos - 2)

section

variable {R : SnippetRel} {cs : List Char} {c d : Cursor}

lemma Escape.digits (hc : c.In cs) {digits : String} (h : Escape R c (.unicode digits) d) :
    digits.toList = Text.slice cs (c.pos + 2) d.pos := by
  cases h with
  | @unicode k n h hn =>
    have hle : n ≤ Scan.hexLength k := by simpa using List.find?_some hn
    have hhex : Scan.hexLength k ≤ (k.take 8).length := (List.takeWhile_sublist _).length_le
    rw [List.length_take] at hhex
    have hk : (c.forward 2).rest = k := by rw [Cursor.rest_forward, h]; rfl
    have h2 : 2 ≤ c.rest.length := by rw [h]; simp
    rw [Nat.add_comm n 2, Cursor.forward_add, ← Cursor.pos_forward h2,
      (hc.forward 2).slice (by rw [hk]; omega), hk, String.toList_ofList]

lemma Escape.inner (hT : R.Tiles cs) (hc : c.In cs) {us : List Token}
    (h : Escape R c (.snippet us) d) :
    c.pos + 4 ≤ d.pos ∧ Tiled cs true [] none (c.pos + 2) us (d.pos - 2) := by
  cases h with
  | snippet h hs =>
    have h2 : 2 ≤ c.rest.length := by rw [h]; simp
    obtain ⟨hle, htiled⟩ := hT hs (hc.forward 2)
    rw [Cursor.pos_forward h2] at hle htiled
    exact ⟨by omega, htiled⟩

/-- The pieces of a string follow each other up to its closing quote. -/
lemma Pieces.pieced (hR : R.Moves) (hT : R.Tiles cs) {segs : List (Segment Token)}
    (h : Pieces R c segs d) (hc : c.In cs) :
    Pieced cs c.pos segs (d.pos - 1) ∧ ∀ seg ∈ segs, ∀ us, seg.form = .snippet us →
      Tiled cs true [] none (seg.start + 2) us (seg.stop - 2) := by
  induction h with
  | @close c k h =>
    rw [Cursor.pos_forward (by rw [h]; simp), Nat.add_sub_cancel]
    exact ⟨.nil, by simp⟩
  | @plain c d segs x k h hx hs ih =>
    have hb := before_plain h hx
    obtain ⟨hp, hsnip⟩ := ih (hb.ahead.in_ hc)
    refine ⟨.cons rfl (hb.ahead.located hc) hb.lt (hb.ahead.textTo hc) ?_ ?_ hp,
      List.forall_mem_cons.mpr ⟨?_, hsnip⟩⟩
    · rintro _ ⟨⟩
    · rintro _ ⟨⟩
    · rintro _ ⟨⟩
  | @escape c d e form segs h hs ih =>
    have hb := h.before hR
    obtain ⟨hp, hsnip⟩ := ih (hb.ahead.in_ hc)
    refine ⟨.cons rfl (hb.ahead.located hc) hb.lt (hb.ahead.textTo hc) ?_ ?_ hp,
      List.forall_mem_cons.mpr ⟨?_, hsnip⟩⟩
    · rintro digits hform
      change form = _ at hform
      subst hform
      exact h.digits hc
    · rintro us hform
      change form = _ at hform
      subst hform
      exact (h.inner hT hc).1
    · rintro us hform
      change form = _ at hform
      subst hform
      exact (h.inner hT hc).2

/-- A token is spelled as the text that it takes, less the carriage returns that
end a comment. -/
lemma Lexeme.value_eq (hR : R.Moves) {kind : TokenKind} {value : String}
    {segs : List (Segment Token)} (h : Lexeme R c kind value segs d) (hc : c.In cs) :
    value.toList = if kind = .comment
      then Text.trimEnd (· == '\r') (Text.slice cs c.pos d.pos)
      else Text.slice cs c.pos d.pos := by
  have hop : ∀ o ∈ TokenKind.operators, o.2 ≠ .comment := by decide
  have hkey : ∀ o ∈ TokenKind.keywords, o.2 ≠ .comment := by decide
  cases h with
  | lineEnd h =>
    rw [if_neg (by decide), hc.slice (by rw [h]; simp), h]
    rfl
  | comment h =>
    have hle : Scan.lineLength c.rest ≤ c.rest.length := (List.takeWhile_sublist _).length_le
    rw [if_pos rfl, hc.slice hle, String.toList_ofList]
  | word h hx =>
    rw [if_neg ?_, hc.slice Scan.wordLength_le, String.toList_ofList]
    rcases wordKind_or c.past (String.ofList (c.rest.take (Scan.wordLength c.rest)))
      (c.rest.drop (Scan.wordLength c.rest)) with hk | hk | hk
    · rw [hk.1]
      decide
    · rw [hk]
      decide
    · exact hkey _ hk
  | number h hx =>
    rw [if_neg (by decide), hc.slice Scan.numberLength_le, String.toList_ofList]
  | string h hs =>
    have hq : 1 ≤ c.rest.length := by rw [h]; simp
    rw [if_neg (by decide), ((Cursor.ahead_forward hq).trans (hs.before hR).ahead).textTo hc]
  | operator h =>
    obtain ⟨hmem, k, hk⟩ := Scan.operator?_inv h
    have hlen : value.length ≤ c.rest.length := by
      rw [hk, List.length_append, String.length_toList]
      omega
    rw [if_neg (hop _ hmem), hc.slice hlen, hk, ← String.length_toList, List.take_left]

/-- A token that is read stands in the text as it says. -/
lemma Lexeme.stands (hR : R.Moves) (hT : R.Tiles cs) {kind : TokenKind} {value : String}
    {segs : List (Segment Token)} (h : Lexeme R c kind value segs d) (hc : c.In cs)
    (spaced : Bool) :
    (Token.between kind value spaced segs c d).Stands cs
      ∧ ∀ seg ∈ segs, ∀ us, seg.form = .snippet us →
        Tiled cs true [] none (seg.start + 2) us (seg.stop - 2) := by
  have hb := h.before hR
  have hop : ∀ o ∈ TokenKind.operators, o.2 ≠ .string := by decide
  have hkey : ∀ o ∈ TokenKind.keywords, o.2 ≠ .string := by decide
  have hempty : kind = .eof ↔ c.pos = d.pos :=
    ⟨fun he => absurd he h.plain.1, fun he => absurd he (Nat.ne_of_lt hb.lt)⟩
  have hvalue := h.value_eq hR hc
  cases h with
  | string hq hs =>
    have hq1 : 1 ≤ c.rest.length := by rw [hq]; simp
    obtain ⟨hp, hsnip⟩ := hs.pieced hR hT (hc.forward 1)
    rw [Cursor.pos_forward hq1] at hp
    exact ⟨⟨hb.ahead.located hc, hvalue, hempty, fun hne => absurd rfl hne, fun _ => hp⟩, hsnip⟩
  | word =>
    refine ⟨⟨hb.ahead.located hc, hvalue, hempty, fun _ => rfl, fun hs => ?_⟩, by simp⟩
    exfalso
    change wordKind c.past _ _ = _ at hs
    rcases wordKind_or c.past (String.ofList (c.rest.take (Scan.wordLength c.rest)))
      (c.rest.drop (Scan.wordLength c.rest)) with hk | hk | hk
    · rw [hk.1] at hs
      cases hs
    · rw [hk] at hs
      cases hs
    · exact hkey _ hk hs
  | operator hmem =>
    exact ⟨⟨hb.ahead.located hc, hvalue, hempty, fun _ => rfl,
      fun hs => absurd hs (hop _ (Scan.operator?_inv hmem).1)⟩, by simp⟩
  | lineEnd | comment | number =>
    exact ⟨⟨hb.ahead.located hc, hvalue, hempty, fun _ => rfl, (by rintro ⟨⟩)⟩, by simp⟩

/-- White space has been passed, or nothing has been read yet. -/
def BeginsLine (last : Option TokenKind) (spaced : Bool) : Prop :=
  spaced = true ↔ last = none ∨ last = some .newline ∨ last = some .comment

lemma beginsLine_none : BeginsLine none true := by simp [BeginsLine]

lemma beginsLine_some (kind : TokenKind) : BeginsLine (some kind) kind.endsLine := by
  cases kind <;> simp [BeginsLine, TokenKind.endsLine]

/-- When a token is spaced, in terms of what precedes it. -/
lemma spaced_gap {last : Option TokenKind} {spaced inSnippet : Bool} {groups : List Token}
    (h : BeginsLine last spaced) :
    (spaced || gap inSnippet groups c != 0) = true ↔
      last = none ∨ last = some .newline ∨ last = some .comment
        ∨ c.pos < (c.forward (gap inSnippet groups c)).pos := by
  have hgap : gap inSnippet groups c ≠ 0 ↔ c.pos < c.pos + gap inSnippet groups c := by omega
  rw [Cursor.pos_forward (gap_le _ _ _), Bool.or_eq_true, bne_iff_ne, hgap]
  exact (or_congr_left h).trans (by simp only [or_assoc])

/-- One token, read behind white space, before tokens that tile the rest. -/
lemma Cut.tiles (hR : R.Moves) (hT : R.Tiles cs) {inSnippet spaced : Bool} {groups : List Token}
    {last : Option TokenKind} {t : Token} {ts : List Token} {hi : Nat}
    (h : Cut R inSnippet groups spaced c t d) (hc : c.In cs) (hl : BeginsLine last spaced)
    (hs : Tiled cs inSnippet (groupsAfter t groups) (some t.kind) d.pos ts hi) :
    Tiled cs inSnippet groups last c.pos (t :: ts) hi := by
  obtain ⟨h⟩ := h
  obtain ⟨hstands, hsnip⟩ := h.stands hR hT (hc.forward _) (spaced || gap inSnippet groups c != 0)
  exact .cons (ahead_gap inSnippet groups c).pos_le (blank_gap hc inSnippet groups) hstands
    (spaced_gap hl) hsnip hs

/-- An end mark stands where it says. -/
lemma stands_eof (hc : c.In cs) (spaced : Bool) :
    Token.Stands cs { Token.eofAt c.line c.col c.pos with spaced } := by
  have hslice : Text.slice cs c.pos c.pos = [] := by
    rw [Text.slice, List.drop_eq_nil_iff, List.length_take]
    omega
  refine ⟨⟨Nat.le_refl _, hc.pos_le, hc.line, hc.col⟩, hslice.symm, iff_of_true rfl rfl,
    fun _ => rfl, ?_⟩
  rintro ⟨⟩

/-- An end mark behind white space. -/
lemma tiled_eof {inSnippet spaced : Bool} {groups : List Token} {last : Option TokenKind}
    (hc : c.In cs) (hd : c.forward (gap inSnippet groups c) = d) (hl : BeginsLine last spaced) :
    Tiled cs inSnippet groups last c.pos
      [{ Token.eofAt d.line d.col d.pos with spaced := spaced || gap inSnippet groups c != 0 }]
      d.pos := by
  subst hd
  exact .cons (ahead_gap inSnippet groups c).pos_le (blank_gap hc inSnippet groups)
    (stands_eof (hc.forward _) _) (spaced_gap hl) (by simp [Token.eofAt]) .nil

/-! ### All tokens -/

lemma SnippetTokens.tiled (hR : R.Moves) (hT : R.Tiles cs) {groups ts : List Token} {spaced : Bool}
    {last : Option TokenKind} (h : SnippetTokens R groups spaced c ts d) (hc : c.In cs)
    (hl : BeginsLine last spaced) :
    c.pos + 2 ≤ d.pos ∧ Tiled cs true groups last c.pos ts (d.pos - 2) := by
  induction h generalizing last with
  | @close spaced c d k hd h =>
    have hle := (ahead_gap true [] c).pos_le
    rw [hd] at hle
    rw [Cursor.pos_forward (by rw [h]; simp), Nat.add_sub_cancel]
    exact ⟨by omega, tiled_eof hc hd hl⟩
  | more h hs ih =>
    have hb := h.before hR
    obtain ⟨hle, hmore⟩ := ih (hb.ahead.in_ hc) (beginsLine_some _)
    have hlt := hb.lt
    exact ⟨by omega, h.tiles hR hT hc hl hmore⟩

/-- The tokens of every snippet tile it. -/
lemma SnippetAt.tiles (allowance : Nat) (cs : List Char) :
    SnippetRel.Tiles (SnippetAt allowance) cs := by
  induction allowance with
  | zero => exact fun _ _ _ h => h.elim
  | succ n ih =>
    exact fun _ _ _ h hc => SnippetTokens.tiled (SnippetAt.moves n) ih h hc beginsLine_none

end

section

variable {limit : Int} {s t : Lexer} {us ts : List Token} {cs : List Char}
  {last : Option TokenKind} {hi : Nat}

/-- The kind of the last token, or what stood before if there is none. -/
def kindBehind (last : Option TokenKind) (us : List Token) : Option TokenKind :=
  us.foldl (fun _ u => some u.kind) last

/-- Tokens that are read tile the text before tokens that tile the rest. -/
lemma Lexes.tiled (h : Lexes limit s us t) (hc : s.cursor.In cs) (hl : BeginsLine last s.spaced)
    (hs : BeginsLine (kindBehind last us) t.spaced →
      Tiled cs false t.groups (kindBehind last us) t.cursor.pos ts hi) :
    Tiled cs false s.groups last s.cursor.pos (us ++ ts) hi := by
  induction h generalizing last with
  | nil => exact hs hl
  | @cons s t v u us h hu _ ih =>
    obtain ⟨hcut, hg, hsp⟩ := textToken_cut h hu
    have hR := SnippetAt.moves limit.toNat
    have hmore := ih ((hcut.before hR).ahead.in_ hc) (hsp ▸ beginsLine_some u.kind) hs
    rw [hg] at hmore
    exact hcut.tiles hR (SnippetAt.tiles _ cs) hc hl hmore

/-- Reading goes on token by token, up to the end of the text or to an error. -/
lemma exists_lexes (limit : Int) (s : Lexer) :
    ∃ us t, Lexes limit s us t ∧ ((∃ e v, textToken limit t = .error e v)
      ∨ ∃ u v, textToken limit t = .ok u v ∧ u.kind = .eof) := by
  refine @lexFrom_induction limit (fun s _ => ∃ us t, Lexes limit s us t
    ∧ ((∃ e v, textToken limit t = .error e v)
      ∨ ∃ u v, textToken limit t = .ok u v ∧ u.kind = .eof)) ?_ ?_ ?_ s
  · exact fun s e v h => ⟨[], s, .nil s, .inl ⟨e, v, h⟩⟩
  · exact fun s u v h hu => ⟨[], s, .nil s, .inr ⟨u, v, h, hu⟩⟩
  · rintro s u t h hu ⟨us, v, hs, hend⟩
    exact ⟨u :: us, v, .cons h hu hs, hend⟩

/-- The end mark of a text stands behind white space at the end of the text. -/
lemma textToken_eof {u : Token} {v : Lexer} (h : textToken limit t = .ok u v)
    (hu : u.kind = .eof) (hc : t.cursor.In cs) :
    ∃ d, t.cursor.forward (gap false t.groups t.cursor) = d ∧ d.pos = cs.length
      ∧ u = { Token.eofAt d.line d.col d.pos with
        spaced := t.spaced || gap false t.groups t.cursor != 0 } := by
  cases textToken_inv h with
  | token hcut =>
    obtain ⟨hlex⟩ := hcut
    exact absurd hu hlex.plain.1
  | text _ hrest hcur hu =>
    refine ⟨v.cursor, hcur.symm, ?_, hu⟩
    have hlen := (hc.forward (gap false t.groups t.cursor)).length
    change (pastBlanks false t).cursor.pos + (pastBlanks false t).cursor.rest.length = _ at hlen
    rwa [hrest, ← hcur] at hlen
  | snippet hb => cases hb

/-- Before the end mark only white space is ahead. -/
lemma rest_of_eof {u : Token} {v : Lexer} (h : textToken limit t = .ok u v)
    (hu : u.kind = .eof) : (t.cursor.forward (gap false t.groups t.cursor)).rest = [] := by
  cases textToken_inv h with
  | token hcut =>
    obtain ⟨hlex⟩ := hcut
    exact absurd hu hlex.plain.1
  | text _ hrest => exact hrest
  | snippet hb => cases hb

/-- Where only white space is ahead the end mark is read. -/
lemma textToken_end (hr : (t.cursor.forward (gap false t.groups t.cursor)).rest = []) :
    ∃ e v, textToken limit t = .ok e v ∧ e.kind = .eof := by
  have hrest : (pastBlanks false t).cursor.rest = [] := hr
  rw [textToken, run_nextToken, hrest]
  exact ⟨_, _, rfl, rfl⟩

/-- A text that is read up to its end is cut into these tokens and the end mark. -/
lemma tokenize_of_lexes {source : String} (h : Lexes limit { cursor := .ofText source } us t)
    (hr : (t.cursor.forward (gap false t.groups t.cursor)).rest = []) :
    ∃ e v, textToken limit t = .ok e v ∧ e.kind = .eof
      ∧ tokenize source limit = .ok (us ++ [e]) := by
  obtain ⟨e, v, he, hk⟩ := @textToken_end limit t hr
  refine ⟨e, v, he, hk, ?_⟩
  obtain ⟨htokens, hfault⟩ := h.lexFrom_eq
  rw [lexFrom_eof he hk] at htokens hfault
  have hlex : tokenize source limit = (lexFrom limit { cursor := .ofText source }).toExcept := rfl
  rw [hlex, Lexed.toExcept, hfault, htokens]

/-- The tokens of a text are read one after another, up to its end. -/
lemma lexes_of_tokenize {source : String} (h : tokenize source limit = .ok ts) :
    ∃ us e t v, ts = us ++ [e] ∧ Lexes limit { cursor := .ofText source } us t
      ∧ textToken limit t = .ok e v ∧ e.kind = .eof := by
  have hlex : (lexFrom limit { cursor := .ofText source }).toExcept = .ok ts := h
  obtain ⟨us, t, hus, hend⟩ := exists_lexes limit { cursor := .ofText source }
  obtain ⟨htokens, hfault⟩ := hus.lexFrom_eq
  rcases hend with ⟨e, v, he⟩ | ⟨u, v, hu, hk⟩
  · rw [lexFrom_error he] at hfault
    rw [Lexed.toExcept, hfault] at hlex
    cases hlex
  · rw [lexFrom_eof hu hk] at htokens hfault
    rw [Lexed.toExcept, hfault, htokens] at hlex
    cases hlex
    exact ⟨us, u, t, v, rfl, hus, hu, hk⟩

end

/-- **Cutting a text into tokens loses nothing**: white space and the tokens tile
the whole text, in every snippet white space and its tokens tile the snippet, and
the only end mark of the text stands at its end. -/
theorem tokenize_tiled {source : String} {limit : Int} {ts : List Token}
    (h : tokenize source limit = .ok ts) :
    Tiled source.toList false [] none 0 ts source.toList.length
      ∧ ∃ us e, ts = us ++ [e] ∧ (∀ u ∈ us, u.kind ≠ .eof) ∧ e.kind = .eof
        ∧ e.start = source.toList.length ∧ e.stop = source.toList.length := by
  obtain ⟨us, u, t, v, rfl, hus, hu, hk⟩ := lexes_of_tokenize h
  have hat := hus.ahead.in_ (Cursor.in_ofText source)
  obtain ⟨d, hd, hpos, rfl⟩ := textToken_eof hu hk hat
  refine ⟨?_, us, _, rfl, hus.ne_eof, rfl, hpos, hpos⟩
  rw [← hpos]
  exact hus.tiled (Cursor.in_ofText source) beginsLine_none fun hl => tiled_eof hat hd hl

/-- A call over two lines with a comment, a continued line, and a string whose
snippet holds a line end. -/
theorem tokenize_tiled_layout :
    ∃ ts, tokenize "f(1, # c\r\n 2)\\\n mod x\n\"a\\\x7b b\n+ 1\\\x7d\"" 1 = .ok ts
      ∧ ts.length = 12
      ∧ Tiled "f(1, # c\r\n 2)\\\n mod x\n\"a\\\x7b b\n+ 1\\\x7d\"".toList false [] none 0 ts 35 := by
  have hlen : ((tokenize "f(1, # c\r\n 2)\\\n mod x\n\"a\\\x7b b\n+ 1\\\x7d\"" 1).toOption.map
      List.length) = some 12 := by decide +kernel
  cases h : tokenize "f(1, # c\r\n 2)\\\n mod x\n\"a\\\x7b b\n+ 1\\\x7d\"" 1 with
  | error e =>
    rw [h] at hlen
    cases hlen
  | ok ts =>
    rw [h] at hlen
    exact ⟨ts, rfl, Option.some.inj hlen, (tokenize_tiled h).1⟩

end StpLang
