import Mathlib.Data.List.Chain
import StpLang.Proofs.Longest
import StpLang.Proofs.Spans

/-!
Tokens side by side.

The grammar knows the white space of a text from one mark on each token. Between two
tokens of a group stand white space and comments, and the mark says of a token whether
it touches the one before.

* `Spacing` is what may stand between two tokens, and `Between.unique` says that it
  reaches up to one place only.
* `Spells.leads` and `Spells.last` tell with which characters tokens begin and end.
* `Token.Beside` relates the mark of a token to the text around it.
* `Threaded` says of tokens that each follows the one before in this way, and
  `threaded_settle` that the prepared tokens of a text do.
-/

namespace StpLang

open Lexer

/-! ### White space and comments -/

/-- White space and whole comments. -/
inductive Spacing : List Char → Prop
  | nil : Spacing []
  | blank {x : Char} {w : List Char} (hx : x = ' ' ∨ x = '\t' ∨ x = '\r' ∨ x = '\n')
      (h : Spacing w) : Spacing (x :: w)
  | continuation {w : List Char} (h : Spacing w) : Spacing ('\\' :: '\n' :: w)
  | returnContinuation {w : List Char} (h : Spacing w) : Spacing ('\\' :: '\r' :: '\n' :: w)
  | comment {v w : List Char} (hv : '\n' ∉ v) (h : Spacing w) : Spacing ('#' :: (v ++ '\n' :: w))

/-- Nothing but white space and comments stands between two offsets. -/
structure Between (cs : List Char) (lo hi : Nat) : Prop where
  order : lo ≤ hi
  spacing : Spacing (Text.slice cs lo hi)

/-- White space stands right before an offset. -/
def SpaceBehind (cs : List Char) (i : Nat) : Prop :=
  ∃ x, (cs.take i).getLast? = some x ∧ (x = ' ' ∨ x = '\t' ∨ x = '\r' ∨ x = '\n')

/-- At an offset stands neither white space nor a comment nor the end of the text. -/
structure Solid (cs : List Char) (i : Nat) : Prop where
  inside : i < cs.length
  noSpace : ¬SpaceAhead (cs.drop i)
  noComment : cs[i]? ≠ some '#'

section

variable {cs v w r s : List Char} {x : Char} {lo mid hi i j : Nat}

lemma Spacing.append (h : Spacing v) (h' : Spacing w) : Spacing (v ++ w) := by
  induction h with
  | nil => exact h'
  | blank hx _ ih => exact .blank hx ih
  | continuation _ ih => exact .continuation ih
  | returnContinuation _ ih => exact .returnContinuation ih
  | @comment u t hu _ ih =>
    rw [List.cons_append, List.append_assoc]
    exact .comment hu ih

lemma Blank.spacing {lineEnds : Bool} (h : Blank lineEnds w) : Spacing w := by
  induction h with
  | nil => exact .nil
  | blank hx _ ih => exact .blank (hx.imp_right (·.imp_right .inl)) ih
  | lineEnd _ _ ih => exact .blank (.inr (.inr (.inr rfl))) ih
  | continuation _ ih => exact .continuation ih
  | returnContinuation _ ih => exact .returnContinuation ih

/-- White space ends with a blank, a tab or a line end. -/
lemma Blank.last {lineEnds : Bool} (h : Blank lineEnds w) (hne : w ≠ []) :
    ∃ x, w.getLast? = some x ∧ (x = ' ' ∨ x = '\t' ∨ x = '\r' ∨ x = '\n') := by
  -- what follows the first characters, if anything, decides
  have more {x : Char} {w : List Char} (hx : x = ' ' ∨ x = '\t' ∨ x = '\r' ∨ x = '\n')
      (ih : w ≠ [] → ∃ x, w.getLast? = some x ∧ (x = ' ' ∨ x = '\t' ∨ x = '\r' ∨ x = '\n')) :
      ∃ y, (x :: w).getLast? = some y ∧ (y = ' ' ∨ y = '\t' ∨ y = '\r' ∨ y = '\n') := by
    cases w with
    | nil => exact ⟨x, rfl, hx⟩
    | cons y w =>
      rw [List.getLast?_cons_cons]
      exact ih (List.cons_ne_nil y w)
  induction h with
  | nil => exact absurd rfl hne
  | blank hx _ ih => exact more (hx.imp_right (·.imp_right .inl)) ih
  | lineEnd _ _ ih => exact more (.inr (.inr (.inr rfl))) ih
  | continuation _ ih =>
    rw [List.getLast?_cons_cons]
    exact more (.inr (.inr (.inr rfl))) ih
  | returnContinuation _ ih =>
    rw [List.getLast?_cons_cons, List.getLast?_cons_cons]
    exact more (.inr (.inr (.inr rfl))) ih

/-- White space or a comment is ahead where spacing is not empty. -/
lemma Spacing.begins (h : Spacing (x :: w)) (r : List Char) :
    SpaceAhead (x :: (w ++ r)) ∨ x = '#' := by
  cases h with
  | blank hx => exact .inl (.blank hx)
  | continuation => exact .inl .continuation
  | returnContinuation => exact .inl .returnContinuation
  | comment => exact .inr rfl

/-- Spacing before something solid ends in one place. -/
lemma Spacing.unique (h : Spacing v) (h' : Spacing w) (he : v ++ r = w ++ s)
    (hr : ¬SpaceAhead r ∧ r.head? ≠ some '#') (hs : ¬SpaceAhead s ∧ s.head? ≠ some '#') :
    v = w := by
  -- where one of the two is at its end the other one has nothing to begin with
  have stop {w r s : List Char} (hw : Spacing w) (he : r = w ++ s)
      (hr : ¬SpaceAhead r ∧ r.head? ≠ some '#') : w = [] := by
    cases w with
    | nil => rfl
    | cons x w =>
      subst he
      rcases hw.begins s with h | rfl
      · exact absurd h hr.1
      · exact absurd rfl hr.2
  have line {u k : List Char} (hu : '\n' ∉ u) :
      (u ++ '\n' :: k).takeWhile (· != '\n') = u := by
    have hall : ∀ x ∈ u, (x != '\n') = true := by
      intro x hx
      rw [bne_iff_ne]
      rintro rfl
      exact hu hx
    rw [List.takeWhile_append_of_pos hall]
    simp
  induction h generalizing w with
  | nil => exact (stop h' he hr).symm
  | @blank x v hx h ih =>
    cases h' with
    | nil => exact stop (.blank hx h) he.symm hs
    | blank _ h' =>
      obtain ⟨rfl, hmore⟩ := List.cons.inj he
      rw [ih h' hmore]
    | continuation | returnContinuation | comment =>
      obtain ⟨rfl, -⟩ := List.cons.inj he
      exact absurd hx (by decide)
  | continuation h ih =>
    cases h' with
    | nil => exact stop (.continuation h) he.symm hs
    | blank hx =>
      obtain ⟨rfl, -⟩ := List.cons.inj he
      exact absurd hx (by decide)
    | continuation h' =>
      rw [ih h' (List.cons.inj (List.cons.inj he).2).2]
    | returnContinuation => exact absurd (List.cons.inj (List.cons.inj he).2).1 (by decide)
    | comment => exact absurd (List.cons.inj he).1 (by decide)
  | returnContinuation h ih =>
    cases h' with
    | nil => exact stop (.returnContinuation h) he.symm hs
    | blank hx =>
      obtain ⟨rfl, -⟩ := List.cons.inj he
      exact absurd hx (by decide)
    | continuation => exact absurd (List.cons.inj (List.cons.inj he).2).1 (by decide)
    | returnContinuation h' =>
      rw [ih h' (List.cons.inj (List.cons.inj (List.cons.inj he).2).2).2]
    | comment => exact absurd (List.cons.inj he).1 (by decide)
  | @comment u v hu h ih =>
    cases h' with
    | nil => exact stop (.comment hu h) he.symm hs
    | blank hx =>
      obtain ⟨rfl, -⟩ := List.cons.inj he
      exact absurd hx (by decide)
    | continuation | returnContinuation => exact absurd (List.cons.inj he).1 (by decide)
    | @comment u' v' hu' h' =>
      have hmore : u ++ '\n' :: (v ++ r) = u' ++ '\n' :: (v' ++ s) := by
        simpa using he
      obtain rfl : u = u' := by
        have hcut := congrArg (List.takeWhile (· != '\n')) hmore
        rwa [line hu, line hu'] at hcut
      rw [ih h' (List.cons.inj (List.append_cancel_left hmore)).2]

/-- The text from a character on. -/
lemma slice_eq_cons (h : cs[lo]? = some x) (hlt : lo < hi) :
    Text.slice cs lo hi = x :: Text.slice cs (lo + 1) hi := by
  obtain ⟨hin, rfl⟩ := List.getElem?_eq_some_iff.mp h
  rw [Text.slice, Text.slice, List.drop_eq_getElem_cons (by rw [List.length_take]; omega),
    List.getElem_take]

lemma Solid.stops (h : Solid cs i) : ¬SpaceAhead (cs.drop i) ∧ (cs.drop i).head? ≠ some '#' :=
  ⟨h.noSpace, by rw [List.head?_drop]; exact h.noComment⟩

/-- Behind a place the first thing that is solid stands in one place. -/
lemma Between.unique (h : Between cs lo i) (h' : Between cs lo j) (hi : Solid cs i)
    (hj : Solid cs j) : i = j := by
  have he : Text.slice cs lo i ++ cs.drop i = Text.slice cs lo j ++ cs.drop j :=
    (drop_eq_slice_append h.order).symm.trans (drop_eq_slice_append h'.order)
  have hlen := congrArg List.length (h.spacing.unique h'.spacing he hi.stops hj.stops)
  have := h.order
  have := h'.order
  have := hi.inside
  have := hj.inside
  simp only [Text.slice, List.length_drop, List.length_take] at hlen
  omega

/-- A character that is neither white space, a backslash nor a number sign is solid. -/
lemma solid_of_getElem? (h : cs[i]? = some x)
    (hx : x ∉ [' ', '\t', '\r', '\n', '\\', '#']) : Solid cs i := by
  obtain ⟨hlt, heq⟩ := List.getElem?_eq_some_iff.mp h
  refine ⟨hlt, fun hs => ?_, fun hc => hx ?_⟩
  · rw [List.drop_eq_getElem_cons hlt, heq] at hs
    generalize cs.drop (i + 1) = k at hs
    cases hs with
    | blank hb => exact hx (by rcases hb with rfl | rfl | rfl | rfl <;> decide)
    | continuation | returnContinuation => exact hx (by decide)
  · rw [h] at hc
    rw [Option.some.inj hc]
    decide

/-- White space between two places stands right before the second. -/
lemma Blank.spaceBehind {lineEnds : Bool} (h : Blank lineEnds (Text.slice cs lo hi))
    (hlt : lo < hi) (hin : hi ≤ cs.length) : SpaceBehind cs hi := by
  have hne : Text.slice cs lo hi ≠ [] := by
    intro hnil
    have hlen := congrArg List.length hnil
    simp only [Text.slice, List.length_drop, List.length_take, List.length_nil] at hlen
    omega
  obtain ⟨x, hx, hspace⟩ := h.last hne
  refine ⟨x, ?_, hspace⟩
  have hsplit : Text.slice cs 0 lo ++ Text.slice cs lo hi = Text.slice cs 0 hi :=
    slice_append (Nat.zero_le lo) (Nat.le_of_lt hlt)
  simp only [Text.slice, List.drop_zero] at hsplit hx
  rw [← hsplit, List.getLast?_append, hx]
  rfl

end

/-! ### First and last characters -/

/-- The tokens other than line ends, comments and end marks. -/
def TokenKind.visible : TokenKind → Bool
  | .newline | .comment | .eof => false
  | _ => true

lemma TokenKind.visible_of_binary {kind : TokenKind} {op : Nat × Assoc}
    (h : kind.binary? = some op) : kind.visible = true ∧ kind ≠ .leftParen := by
  revert h
  cases kind <;> simp [binary?, visible]

lemma TokenKind.visible_of_suffix {kind : TokenKind} (h : kind.isSuffix = true) :
    kind.visible = true ∧ kind ∉ [.plus, .minus, .leftParen] := by
  revert h
  cases kind <;> simp [isSuffix, visible]

lemma TokenKind.visible_of_endsOperand {kind : TokenKind} (h : kind.endsOperand = true) :
    kind.visible = true := by
  revert h
  cases kind <;> simp [endsOperand, visible]

section

variable {P : List Token → Prop} {kind : TokenKind} {value : String}
  {segs : List (Segment Token)} {w : List Char} {x : Char} {cs : List Char} {t : Token}

/-- A string ends with a quote. -/
lemma Parts.last (h : Parts P segs w) : w.getLast? = some '"' := by
  induction h with
  | close => rfl
  | chars _ _ _ _ _ ih | escape _ _ _ _ ih | unicode _ _ _ _ ih | octal _ _ _ _ _ ih
  | snippet _ _ _ _ ih =>
    rw [List.getLast?_append, ih]
    rfl

/-- A token begins with the first character of an operator, or with a letter, a digit,
an underscore or a quote. -/
lemma Spells.leads (h : Spells P kind value segs) (hk : kind.visible = true) :
    (value, kind) ∈ TokenKind.operators
      ∨ kind ∉ TokenKind.operators.map (·.2)
        ∧ ∃ x w, value.toList = x :: w ∧ (Scan.continuesWord x = true ∨ x = '"') := by
  have hwords : ∀ k ∈ TokenKind.words, k ∉ TokenKind.operators.map (·.2) := by decide
  cases h with
  | lineEnd | comment => cases hk
  | word hx _ h =>
    exact .inr ⟨hwords _ (TokenKind.mem_words h), _, _, String.toList_ofList ..,
      .inl (Scan.continuesWord_of_startsWord hx)⟩
  | number hw =>
    obtain ⟨x, w, rfl, hx⟩ := hw.starts
    exact .inr ⟨by decide, x, w, String.toList_ofList ..,
      .inl (by simp [Scan.continuesWord, Char.isAlphanum, hx])⟩
  | string hv => exact .inr ⟨by decide, _, _, hv, .inr rfl⟩
  | operator h => exact .inl h

/-- A token begins with a character that is neither white space, a backslash nor a number
sign, and a mark of one character tells the kind. -/
lemma Spells.first (h : Spells P kind value segs) (hk : kind.visible = true) :
    ∃ x w, value.toList = x :: w ∧ x ∉ [' ', '\t', '\r', '\n', '\\', '#']
      ∧ (x = '+' ∨ x = '-' ↔ kind = .plus ∨ kind = .minus)
      ∧ (x = '(' ↔ kind = .leftParen) := by
  have hop : ∀ o ∈ TokenKind.operators, (o.1.toList.head?.any fun x =>
      decide (x ∉ [' ', '\t', '\r', '\n', '\\', '#']
        ∧ (x = '+' ∨ x = '-' ↔ o.2 = .plus ∨ o.2 = .minus)
        ∧ (x = '(' ↔ o.2 = .leftParen))) = true := by decide
  rcases h.leads hk with h | ⟨hkind, x, w, hv, hx⟩
  · have hx := hop _ h
    cases hv : value.toList with
    | nil =>
      rw [hv] at hx
      cases hx
    | cons x w =>
      rw [hv] at hx
      exact ⟨x, w, rfl, of_decide_eq_true hx⟩
  · have hmarks : ∀ y ∈ [' ', '\t', '\r', '\n', '\\', '#', '+', '-', '('],
        Scan.continuesWord y = false ∧ y ≠ '"' := List.all_iff_forall_prop.mp (by decide)
    have hno : ∀ y ∈ [' ', '\t', '\r', '\n', '\\', '#', '+', '-', '('], x ≠ y := by
      rintro y hy rfl
      obtain ⟨hword, hquote⟩ := hmarks x hy
      rcases hx with hx | hx
      · rw [hword] at hx
        cases hx
      · exact hquote hx
    refine ⟨x, w, hv, fun hmem => hno x ?_ rfl, iff_of_false ?_ ?_, iff_of_false ?_ ?_⟩
    · simp only [List.mem_cons, List.not_mem_nil, or_false] at hmem ⊢
      rcases hmem with h | h | h | h | h | h <;> simp [h]
    · rintro (h | h)
      · exact hno '+' (by decide) h
      · exact hno '-' (by decide) h
    · rintro (h | h) <;> exact hkind (h ▸ by decide)
    · exact hno '(' (by decide)
    · exact fun h => hkind (h ▸ by decide)

/-- A token ends with a character that is not white space. -/
lemma Spells.last (h : Spells P kind value segs) (hk : kind.visible = true) :
    ∃ x, value.toList.getLast? = some x ∧ x ∉ [' ', '\t', '\r', '\n'] := by
  have hop : ∀ o ∈ TokenKind.operators, (o.1.toList.getLast?.any fun x =>
      !([' ', '\t', '\r', '\n'].contains x)) = true := by decide
  have hspace : ∀ y ∈ [' ', '\t', '\r', '\n'], Scan.continuesWord y = false ∧ y ≠ '.' :=
    List.all_iff_forall_prop.mp (by decide)
  -- words and numbers have no white space in them
  have hall {w : List Char} (hne : w ≠ [])
      (hw : ∀ x ∈ w, Scan.continuesWord x = true ∨ x = '.') :
      ∃ x, w.getLast? = some x ∧ x ∉ [' ', '\t', '\r', '\n'] := by
    refine ⟨w.getLast hne, List.getLast?_eq_some_getLast hne, fun hmem => ?_⟩
    obtain ⟨hword, hdot⟩ := hspace _ hmem
    rcases hw _ (List.getLast_mem hne) with h | h
    · rw [hword] at h
      cases h
    · exact hdot h
  cases h with
  | lineEnd | comment => cases hk
  | @word _ x w hx hw =>
    rw [String.toList_ofList]
    refine hall (List.cons_ne_nil x w) fun y hy => .inl ?_
    rcases List.mem_cons.mp hy with rfl | hy
    · exact Scan.continuesWord_of_startsWord hx
    · exact hw y hy
  | number hw =>
    obtain ⟨x, w, rfl, -⟩ := hw.starts
    rw [String.toList_ofList]
    refine hall (List.cons_ne_nil x w) fun y hy => (hw.mem hy).imp_left fun hy => ?_
    simp [Scan.continuesWord, Char.isAlphanum, hy]
  | @string _ _ w hv h =>
    have hne : w ≠ [] := by
      rintro rfl
      cases h.last
    obtain ⟨x, k, rfl⟩ := List.exists_cons_of_ne_nil hne
    rw [hv, List.getLast?_cons_cons, h.last]
    exact ⟨'"', rfl, by decide⟩
  | operator h =>
    have hx := hop _ h
    cases hv : value.toList.getLast? with
    | none =>
      rw [hv] at hx
      cases hx
    | some x =>
      rw [hv] at hx
      exact ⟨x, rfl, by simpa using hx⟩

lemma Token.Sits.spells (h : t.Sits cs) (hk : t.kind.visible = true) : ∃ n, t.Spelled n := by
  refine h.spelled fun he => ?_
  rw [he] at hk
  cases hk

lemma Token.Sits.text (h : t.Sits cs) (hk : t.kind.visible = true) :
    t.value.toList = Text.slice cs t.start t.stop := by
  rw [h.stands.value, if_neg]
  intro hc
  rw [hc] at hk
  cases hk

/-- The first character of a token in its text. -/
lemma Token.Sits.first (h : t.Sits cs) (hk : t.kind.visible = true) :
    ∃ x, cs[t.start]? = some x ∧ x ∉ [' ', '\t', '\r', '\n', '\\', '#']
      ∧ (x = '+' ∨ x = '-' ↔ t.kind = .plus ∨ t.kind = .minus)
      ∧ (x = '(' ↔ t.kind = .leftParen) := by
  obtain ⟨n, hn⟩ := h.spells hk
  obtain ⟨x, w, hv, hx⟩ := Spells.first hn hk
  refine ⟨x, ?_, hx⟩
  have hslice := h.text hk
  rw [hv] at hslice
  rw [← List.head?_drop, drop_eq_slice_append h.stands.place.order, ← hslice]
  rfl

/-- A mark of one character in its text. -/
lemma Token.Sits.mark {k : TokenKind} {y : Char} (h : t.Sits cs) (hk : t.kind = k)
    (hs : k.spelling? = some (String.ofList [y])) (hv : k.visible = true := by rfl) :
    cs[t.start]? = some y ∧ t.stop = t.start + 1 := by
  subst hk
  obtain ⟨n, hn⟩ := h.spells hv
  have htext := h.text hv
  rw [Spells.spelling hn hs, String.toList_ofList] at htext
  have hlen := congrArg List.length htext
  have horder := h.stands.place.order
  rw [Text.slice, List.length_drop, List.length_take, Nat.min_eq_left h.stands.place.inside,
    List.length_singleton] at hlen
  refine ⟨?_, by omega⟩
  rw [← List.head?_drop, drop_eq_slice_append horder, ← htext]
  rfl

/-- A token stands out from the white space before it. -/
lemma Token.Sits.solid (h : t.Sits cs) (hk : t.kind.visible = true) : Solid cs t.start := by
  obtain ⟨x, hx, hmem, -⟩ := h.first hk
  exact solid_of_getElem? hx hmem

/-- Right behind a token no white space has been passed yet. -/
lemma Token.Sits.not_spaceBehind (h : t.Sits cs) (hk : t.kind.visible = true) :
    ¬SpaceBehind cs t.stop := by
  obtain ⟨n, hn⟩ := h.spells hk
  obtain ⟨x, hx, hno⟩ := Spells.last hn hk
  rintro ⟨y, hy, hspace⟩
  have hsplit : Text.slice cs 0 t.start ++ Text.slice cs t.start t.stop = Text.slice cs 0 t.stop :=
    slice_append (Nat.zero_le t.start) h.stands.place.order
  rw [← h.text hk] at hsplit
  simp only [Text.slice, List.drop_zero] at hsplit
  rw [← hsplit, List.getLast?_append, hx] at hy
  cases hy
  exact hno (by rcases hspace with rfl | rfl | rfl | rfl <;> decide)

end

/-! ### Comments and snippets in the text -/

/-- A comment reaches to the end of its line, and a snippet up to its closing mark. -/
structure Token.Ends (cs : List Char) (t : Token) : Prop where
  comment : t.kind = .comment → cs[t.start]? = some '#' ∧ '\n' ∉ Text.slice cs t.start t.stop
    ∧ ∀ x ∈ cs[t.stop]?, x = '\n'
  snippets : ∀ seg ∈ t.segments, ∀ us, seg.form = .snippet us →
    ∃ k, cs.drop (seg.stop - 2) = '\\' :: '}' :: k

section

variable {cs : List Char} {c d : Cursor} {n : Nat}

lemma SnippetTokens.ends {R : SnippetRel} (hR : R.Moves) {groups ts : List Token} {spaced : Bool}
    (h : SnippetTokens R groups spaced c ts d) (hc : c.In cs) :
    ∃ k, cs.drop (d.pos - 2) = '\\' :: '}' :: k := by
  induction h with
  | @close spaced c d k hd h =>
    subst hd
    rw [Cursor.pos_forward (by rw [h]; simp), Nat.add_sub_cancel, (hc.forward _).drop, h]
    exact ⟨k, rfl⟩
  | more h _ ih => exact ih ((h.before hR).ahead.in_ hc)

/-- The snippets in the pieces of a string. -/
lemma Pieces.ends {segs : List (Segment Token)} (h : Pieces (SnippetAt n) c segs d)
    (hc : c.In cs) : ∀ seg ∈ segs, ∀ us, seg.form = .snippet us →
      ∃ k, cs.drop (seg.stop - 2) = '\\' :: '}' :: k := by
  induction h with
  | close => simp
  | plain h hx _ ih =>
    refine List.forall_mem_cons.mpr ⟨?_, ih ((before_plain h hx).ahead.in_ hc)⟩
    rintro _ ⟨⟩
  | @escape c d e form segs h _ ih =>
    refine List.forall_mem_cons.mpr ⟨?_, ih ((h.before (SnippetAt.moves n)).ahead.in_ hc)⟩
    rintro us hform
    change form = _ at hform
    subst hform
    cases h with
    | snippet _ hs =>
      cases n with
      | zero => exact hs.elim
      | succ n => exact SnippetTokens.ends (SnippetAt.moves n) hs (hc.forward 2)

/-- The tokens of a text end where they should. -/
lemma lexical_ends (cs : List Char) : Lexical cs (Token.Ends cs) := by
  refine ⟨fun {n c d kind value segs} spaced h hc => ⟨fun hk => ?_, ?_⟩, fun spaced _ =>
    ⟨by rintro ⟨⟩, by simp [Token.eofAt]⟩⟩
  · obtain ⟨m, hm, rfl, hhead, hline, hend⟩ := h.comment_ends hk
    show cs[c.pos]? = _ ∧ _ ∉ Text.slice cs c.pos (c.forward m).pos
      ∧ ∀ x ∈ cs[(c.forward m).pos]?, _
    rw [← List.head?_drop, ← List.head?_drop, hc.drop, (hc.forward m).drop, hc.slice hm]
    exact ⟨hhead, hline, hend⟩
  · cases h with
    | string _ hs => exact hs.ends (hc.forward 1)
    | _ => simp [Token.between]

end

/-! ### Neighbouring tokens -/

/-- The token `v` follows the token `u` behind white space and comments, and its mark
says whether there are any. -/
structure Token.Beside (cs : List Char) (u v : Token) : Prop where
  between : Between cs u.stop v.start
  touches : v.spaced = false ↔ v.start = u.stop
  space : v.spaced = true ↔ SpaceBehind cs v.start

/-- One token follows another, unless they stand at the ends of lines or of the text. -/
def Token.Follows (cs : List Char) (u v : Token) : Prop :=
  u.kind.visible = true → Solid cs v.start → u.Beside cs v

/-- Behind the token `u` and comments that were set aside stands an offset, right behind
a token of the given kind. -/
inductive Reached (cs : List Char) (u : Token) : Option TokenKind → Nat → Prop
  | token {kind : TokenKind} (hk : kind.visible = true) (h : ¬SpaceBehind cs u.stop) :
      Reached cs u (some kind) u.stop
  | comment {lo : Nat} {v w : List Char} (order : u.stop ≤ lo) (space : Spacing v)
      (text : Text.slice cs u.stop lo = v ++ '#' :: w) (line : '\n' ∉ w)
      (ends : ∀ x ∈ cs[lo]?, x = '\n') : Reached cs u (some .comment) lo

section

variable {cs : List Char} {u t : Token} {lo hi : Nat} {before last : Option TokenKind}
  {ts us : List Token} {lineEnds : Bool}

/-- White space that goes on behind a comment begins with the end of its line. -/
lemma Reached.between (h : Reached cs u before lo) (hle : lo ≤ hi)
    (hb : Blank lineEnds (Text.slice cs lo hi)) {x : Char} (hx : cs[hi]? = some x)
    (hne : x ≠ '\n') : Between cs u.stop hi ∧ (before = some .comment → lo < hi) := by
  have hlt : hi < cs.length := (List.getElem?_eq_some_iff.mp hx).1
  cases h with
  | @token kind hk _ =>
    refine ⟨⟨hle, hb.spacing⟩, fun hc => ?_⟩
    cases hc
    cases hk
  | @comment _ v w order space text line ends =>
    have hmore : lo < hi := by
      refine Nat.lt_of_le_of_ne hle fun he => hne (ends x ?_)
      rw [he]
      exact hx
    have hline : cs[lo]? = some '\n' := by
      have hget := List.getElem?_eq_getElem (Nat.lt_trans hmore hlt)
      rw [hget, ends _ hget]
    have hfirst := slice_eq_cons hline hmore
    rw [hfirst] at hb
    have hrest : Spacing (Text.slice cs (lo + 1) hi) := by
      cases hb with
      | blank _ h => exact h.spacing
      | lineEnd _ h => exact h.spacing
    refine ⟨⟨Nat.le_trans order hle, ?_⟩, fun _ => hmore⟩
    rw [← slice_append order hle, text, hfirst, List.append_assoc, List.cons_append]
    exact space.append (.comment line hrest)

/-- What the mark of the next token says. -/
lemma Reached.beside (h : Reached cs u before lo) (hle : lo ≤ t.start)
    (hb : Blank lineEnds (Text.slice cs lo t.start))
    (hs : t.spaced = true ↔
      before = none ∨ before = some .newline ∨ before = some .comment ∨ lo < t.start)
    (hsolid : Solid cs t.start) : u.Beside cs t := by
  obtain ⟨x, hx⟩ : ∃ x, cs[t.start]? = some x := ⟨_, List.getElem?_eq_getElem hsolid.inside⟩
  have hne : x ≠ '\n' := by
    rintro rfl
    refine hsolid.noSpace ?_
    obtain ⟨hlt, he⟩ := List.getElem?_eq_some_iff.mp hx
    rw [List.drop_eq_getElem_cons hlt, he]
    exact .blank (.inr (.inr (.inr rfl)))
  obtain ⟨hbetween, hmore⟩ := h.between hle hb hx hne
  have hspace (hlt : lo < t.start) : SpaceBehind cs t.start :=
    hb.spaceBehind hlt (Nat.le_of_lt hsolid.inside)
  have hfalse : t.spaced = false ↔ ¬t.spaced = true := (Bool.not_eq_true _).symm.to_iff
  cases h with
  | @token kind hk hbehind =>
    have hspaced : t.spaced = true ↔ u.stop < t.start := by
      rw [hs]
      constructor
      · rintro (h | h | h | h)
        · cases h
        · cases h
          cases hk
        · cases h
          cases hk
        · exact h
      · exact fun h => .inr (.inr (.inr h))
    refine ⟨hbetween, ?_, ?_⟩
    · rw [hfalse, hspaced]
      omega
    · rw [hspaced]
      refine ⟨hspace, fun h => Nat.lt_of_le_of_ne hle fun he => hbehind ?_⟩
      rw [he]
      exact h
  | @comment _ v w order =>
    have hlt := hmore rfl
    have hspaced : t.spaced = true := hs.mpr (.inr (.inr (.inl rfl)))
    refine ⟨hbetween, ?_, iff_of_true hspaced (hspace hlt)⟩
    rw [hfalse]
    exact iff_of_false (fun h => h hspaced) (by omega)

/-- A comment is set aside behind the token `u`. -/
lemma Reached.aside (h : Reached cs u before lo) (hle : lo ≤ t.start)
    (hb : Blank lineEnds (Text.slice cs lo t.start)) (ht : t.start ≤ t.stop)
    (hends : t.Ends cs) (hk : t.kind = .comment) : Reached cs u (some .comment) t.stop := by
  obtain ⟨hsign, hline, hend⟩ := hends.comment hk
  obtain ⟨hbetween, -⟩ := h.between hle hb hsign (by decide)
  -- a comment is not empty: at its end stands a line end
  have hlt : t.start < t.stop := by
    refine Nat.lt_of_le_of_ne ht fun he => ?_
    rw [← he] at hend
    exact absurd (hend _ hsign) (by decide)
  have hfirst := slice_eq_cons hsign hlt
  rw [hfirst] at hline
  refine .comment (Nat.le_trans hbetween.order ht) hbetween.spacing ?_
    (fun h => hline (List.mem_cons_of_mem _ h)) hend
  rw [← slice_append hbetween.order ht, hfirst]

/-- The mark of a token says how it follows the one before, also where comments between
them were set aside. -/
lemma follows_settle {inSnippet : Bool} {groups : List Token} (depth : Nat)
    (h : Tiled cs inSnippet groups before lo ts hi)
    (hs : ∀ t ∈ ts, t.kind ≠ .eof → ∃ n, t.Spelled n) (he : ∀ t ∈ ts, t.Ends cs)
    (hu : u.kind.visible = true → Reached cs u before lo) :
    (u :: (Parser.settle depth last ts).1).IsChain (Token.Follows cs) := by
  induction ts generalizing u groups before last lo depth with
  | nil => exact .singleton u
  | cons t ts ih =>
    cases h with
    | cons order space stands spaced snippets more =>
      rw [List.forall_mem_cons] at hs he
      rw [settle_cons]
      cases hk : keptToken? depth last t with
      | none =>
        have hc := keptToken?_none hk
        refine ih depth more hs.2 he.2 fun hv => ?_
        rw [hc]
        exact (hu hv).aside order space stands.place.order he.1 hc
      | some v =>
        obtain ⟨hstart, hstop, hspaced⟩ := keptToken?_place hk
        refine .cons_cons (fun hv hsolid => ?_) (ih _ more hs.2 he.2 fun hv => ?_)
        · rw [hstart] at hsolid
          obtain ⟨h1, h2, h3⟩ := (hu hv).beside order space spaced hsolid
          rw [← hspaced, ← hstart] at h2 h3
          rw [← hstart] at h1
          exact ⟨h1, h2, h3⟩
        · have hsits := Token.Sits.kept ⟨stands, hs.1, snippets⟩ hk
          have hvisible : t.kind.visible = true := by
            rcases keptToken?_some hk with rfl | ⟨hmod, -⟩
            · exact hv
            · rw [hmod]
              rfl
          rw [← hstop]
          exact .token hvisible (hsits.not_spaceBehind hv)

end

/-! ### Prepared tokens -/

/-- The tokens follow each other in the text, and the marks on them tell how. -/
structure Threaded (cs : List Char) (ts : List Token) : Prop where
  laid : ∃ lo hi, Laid cs lo ts hi
  follows : ts.IsChain (Token.Follows cs)
  ends : ∀ t ∈ ts, ∀ u ∈ t.walk, u.Ends cs

section

variable {cs : List Char} {u v t : Token} {lo hi i : Nat} {ts us : List Token}

/-- Preparing a token keeps what stands in its snippets. -/
lemma keptToken?_ends {depth : Nat} {last : Option TokenKind} (h : keptToken? depth last t = some v)
    (he : ∀ u ∈ t.walk, u.Ends cs) : ∀ u ∈ v.walk, u.Ends cs := by
  rcases keptToken?_some h with rfl | ⟨-, rfl⟩
  · exact he
  · rw [Token.walk_eq, List.forall_mem_cons] at he ⊢
    exact ⟨⟨by rintro ⟨⟩, he.1.snippets⟩, he.2⟩

lemma ends_settle (depth : Nat) (last : Option TokenKind) (he : ∀ t ∈ ts, ∀ u ∈ t.walk, u.Ends cs) :
    ∀ t ∈ (Parser.settle depth last ts).1, ∀ u ∈ t.walk, u.Ends cs := by
  induction ts generalizing depth last with
  | nil => simp [Parser.settle]
  | cons t ts ih =>
    rw [List.forall_mem_cons] at he
    rw [settle_cons]
    cases hk : keptToken? depth last t with
    | none => exact ih depth last he.2
    | some v => exact List.forall_mem_cons.mpr ⟨keptToken?_ends hk he.1, ih _ _ he.2⟩

/-- The prepared tokens of a text, or of a snippet, follow each other. -/
lemma threaded_settle {inSnippet : Bool} (h : Tiled cs inSnippet [] none lo ts hi)
    (hs : ∀ t ∈ ts, t.kind ≠ .eof → ∃ n, t.Spelled n)
    (he : ∀ t ∈ ts, ∀ u ∈ t.walk, u.Ends cs) : Threaded cs (Parser.settle 0 none ts).1 := by
  obtain ⟨hi', -, hlaid⟩ := laid_settle h hs (Nat.le_refl _) (fun _ => rfl) 0
  refine ⟨⟨lo, hi', hlaid⟩, ?_, ends_settle 0 none he⟩
  have hself : ∀ t ∈ ts, t.Ends cs := fun t ht => he t ht t (by rw [Token.walk_eq]; simp)
  -- a token that is not visible may stand before the first one
  exact (follows_settle (u := { kind := .newline, value := "" }) 0 h hs hself (by rintro ⟨⟩)).tail

namespace Threaded

lemma suffix (h : Threaded cs ts) (hs : us <:+ ts) : Threaded cs us := by
  obtain ⟨vs, rfl⟩ := hs
  obtain ⟨lo, hi, hlaid⟩ := h.laid
  obtain ⟨mid, -, hmore⟩ := hlaid.split
  exact ⟨⟨mid, hi, hmore⟩, h.follows.right_of_append,
    fun t ht => h.ends t (List.mem_append_right _ ht)⟩

lemma sits (h : Threaded cs ts) (ht : t ∈ ts) : t.Sits cs := by
  obtain ⟨lo, hi, hlaid⟩ := h.laid
  exact (hlaid.mem ht).1

/-- The token behind another one. -/
lemma beside (h : Threaded cs (u :: v :: ts)) (hu : u.kind.visible = true)
    (hv : v.kind.visible = true) : u.Beside cs v :=
  (List.isChain_cons_cons.mp h.follows).1 hu ((h.sits (by simp)).solid hv)

/-- What stands behind a token and white space is the next token. -/
lemma start_eq (h : Threaded cs (u :: v :: ts)) (hu : u.kind.visible = true)
    (hv : v.kind.visible = true) (hb : Between cs u.stop i) (hi : Solid cs i) : i = v.start :=
  hb.unique (h.beside hu hv).between hi ((h.sits (by simp)).solid hv)

end Threaded

end

end StpLang
