import StpLang.Proofs.Lex.Cursor
import StpLang.Token.Lexed

/-!
Tokens as a relation.

`Lexeme` says which token stands at a place of a text and where it ends. What
stands in the snippets of a string is a parameter; `SnippetAt` closes the circle
by recursion on the number of snippets that may still be entered.

* `Pieces` are the pieces of a string, `Cut` is a token behind white space, and
  `SnippetTokens` are the tokens of a snippet.
* `Lexeme.plain` separates the delimiters from the other tokens.
-/

namespace StpLang

open Lexer

/-! ### Rules -/

/-- From one place to another stand the tokens of a snippet. -/
abbrev SnippetRel := Cursor → List Token → Cursor → Prop

/-- The piece of a string between two places. -/
def Segment.between (form : SegmentForm Token) (c d : Cursor) : Segment Token :=
  { form, text := c.textTo d, line := c.line, col := c.col, start := c.pos, stop := d.pos }

/-- A backslash at `c` and what belongs to it, up to a place. -/
inductive Escape (R : SnippetRel) (c : Cursor) : SegmentForm Token → Cursor → Prop
  | simple {x : Char} {k : List Char} (h : c.rest = '\\' :: x :: k)
      (hx : Scan.isSimpleEscape x = true) : Escape R c .escape (c.forward 2)
  | unicode {k : List Char} {n : Nat} (h : c.rest = '\\' :: 'x' :: k)
      (hn : Scan.escapeDigits? (Scan.hexLength k) = some n) :
      Escape R c (.unicode (String.ofList (k.take n))) (c.forward (n + 2))
  | octal {k : List Char} (h : c.rest = '\\' :: k) (hn : Scan.octalLength k = 3) :
      Escape R c .octal (c.forward 4)
  | snippet {k : List Char} {ts : List Token} {d : Cursor} (h : c.rest = '\\' :: '{' :: k)
      (hs : R (c.forward 2) ts d) : Escape R c (.snippet ts) d

/-- The pieces of a string from a place up to and including the closing
quote. -/
inductive Pieces (R : SnippetRel) : Cursor → List (Segment Token) → Cursor → Prop
  | close {c : Cursor} {k : List Char} (h : c.rest = '"' :: k) : Pieces R c [] (c.forward 1)
  | plain {c d : Cursor} {segs : List (Segment Token)} {x : Char} {k : List Char}
      (h : c.rest = x :: k) (hx : Scan.isPlain x = true)
      (hs : Pieces R (c.forward (c.rest.takeWhile Scan.isPlain).length) segs d) :
      Pieces R c
        (.between .chars c (c.forward (c.rest.takeWhile Scan.isPlain).length) :: segs) d
  | escape {c d e : Cursor} {form : SegmentForm Token} {segs : List (Segment Token)}
      (h : Escape R c form d) (hs : Pieces R d segs e) :
      Pieces R c (.between form c d :: segs) e

/-- The token that stands at a place, up to another. -/
inductive Lexeme (R : SnippetRel) (c : Cursor) :
    TokenKind → String → List (Segment Token) → Cursor → Prop
  | lineEnd {k : List Char} (h : c.rest = '\n' :: k) :
      Lexeme R c .newline "\n" [] (c.forward 1)
  | comment {k : List Char} (h : c.rest = '#' :: k) :
      Lexeme R c .comment
        (String.ofList (Text.trimEnd (· == '\r') (c.rest.take (Scan.lineLength c.rest)))) []
        (c.forward (Scan.lineLength c.rest))
  | word {x : Char} {k : List Char} (h : c.rest = x :: k) (hx : Scan.startsWord x = true) :
      Lexeme R c
        (wordKind c.past (String.ofList (c.rest.take (Scan.wordLength c.rest)))
          (c.rest.drop (Scan.wordLength c.rest)))
        (String.ofList (c.rest.take (Scan.wordLength c.rest))) []
        (c.forward (Scan.wordLength c.rest))
  | number {x : Char} {k : List Char} (h : c.rest = x :: k) (hx : x.isDigit = true) :
      Lexeme R c .number (String.ofList (c.rest.take (Scan.numberLength c.rest))) []
        (c.forward (Scan.numberLength c.rest))
  | string {k : List Char} {segs : List (Segment Token)} {d : Cursor} (h : c.rest = '"' :: k)
      (hs : Pieces R (c.forward 1) segs d) : Lexeme R c .string (c.textTo d) segs d
  | operator {spelling : String} {kind : TokenKind}
      (h : Scan.operator? c.rest = some (spelling, kind)) :
      Lexeme R c kind spelling [] (c.forward spelling.length)

/-- The extent of the white space before a token. -/
def gap (inSnippet : Bool) (groups : List Token) (c : Cursor) : Nat :=
  Scan.blankLength (inSnippet || !groups.isEmpty) c.rest

/-- The token between two places. -/
def Token.between (kind : TokenKind) (value : String) (spaced : Bool)
    (segments : List (Segment Token)) (c d : Cursor) : Token :=
  { kind, value, line := c.line, col := c.col, start := c.pos, stop := d.pos, spaced, segments }

/-- The next token behind white space, and the place behind it. -/
inductive Cut (R : SnippetRel) (inSnippet : Bool) (groups : List Token) (spaced : Bool)
    (c : Cursor) : Token → Cursor → Prop
  | mk {kind : TokenKind} {value : String} {segs : List (Segment Token)} {d : Cursor}
      (h : Lexeme R (c.forward (gap inSnippet groups c)) kind value segs d) :
      Cut R inSnippet groups spaced c
        (.between kind value (spaced || gap inSnippet groups c != 0) segs
          (c.forward (gap inSnippet groups c)) d) d

/-- The tokens of a snippet, up to and including its end. -/
inductive SnippetTokens (R : SnippetRel) :
    (groups : List Token) → (spaced : Bool) → Cursor → List Token → Cursor → Prop
  | close {spaced : Bool} {c d : Cursor} {k : List Char} (hd : c.forward (gap true [] c) = d)
      (h : d.rest = '\\' :: '}' :: k) :
      SnippetTokens R [] spaced c
        [{ Token.eofAt d.line d.col d.pos with spaced := spaced || gap true [] c != 0 }]
        (d.forward 2)
  | more {groups : List Token} {spaced : Bool} {c d e : Cursor} {t : Token} {ts : List Token}
      (h : Cut R true groups spaced c t d)
      (hs : SnippetTokens R (groupsAfter t groups) t.kind.endsLine d ts e) :
      SnippetTokens R groups spaced c (t :: ts) e

/-- The tokens of a snippet in which `allowance - 1` further ones may be
entered. -/
def SnippetAt : (allowance : Nat) → SnippetRel
  | 0 => fun _ _ _ => False
  | allowance + 1 => fun c ts d => SnippetTokens (SnippetAt allowance) [] true c ts d

/-! ### What is read is not empty -/

lemma Scan.continuesWord_of_startsWord {x : Char} (hx : startsWord x = true) :
    continuesWord x = true := by
  simp only [startsWord, continuesWord, Char.isAlphanum, Bool.or_eq_true] at hx ⊢
  rcases hx with hx | hx
  · exact .inl (.inl hx)
  · exact .inr hx

lemma Scan.wordLength_pos {x : Char} {k : List Char} (hx : startsWord x = true) :
    0 < wordLength (x :: k) := by
  simp [wordLength, continuesWord_of_startsWord hx]

lemma Scan.numberLength_pos {x : Char} {k : List Char} (hx : x.isDigit = true) :
    0 < numberLength (x :: k) := by
  have hdigits : 0 < digitsLength (x :: k) := by simp [digitsLength, hx]
  exact Nat.lt_of_lt_of_le hdigits (Nat.le_add_right _ _)

lemma Scan.wordLength_le {cs : List Char} : wordLength cs ≤ cs.length :=
  (List.takeWhile_sublist _).length_le

lemma Scan.numberLength_le {cs : List Char} : numberLength cs ≤ cs.length := by
  have hd : ∀ ds : List Char, digitsLength ds ≤ ds.length := fun ds =>
    (List.takeWhile_sublist _).length_le
  have hf : ∀ ds : List Char, fractionLength ds ≤ ds.length := by
    intro ds
    unfold fractionLength
    split
    · rename_i ks
      split
      · omega
      · have := hd ks
        rw [List.length_cons]
        omega
    · omega
  have h1 := hd cs
  have h2 := hf (cs.drop (digitsLength cs))
  rw [List.length_drop] at h2
  simp only [numberLength]
  omega

lemma Scan.operator?_inv {cs : List Char} {spelling : String} {kind : TokenKind}
    (h : operator? cs = some (spelling, kind)) :
    (spelling, kind) ∈ TokenKind.operators ∧ ∃ k, cs = spelling.toList ++ k := by
  unfold operator? at h
  obtain ⟨n, -, hn⟩ := List.exists_of_findSome?_eq_some h
  unfold operatorOfLength? at hn
  have hmem := List.mem_of_find?_eq_some hn
  have heq := List.find?_some hn
  refine ⟨hmem, cs.drop n, ?_⟩
  rw [eq_of_beq heq, List.take_append_drop]

lemma Scan.blankLength_le (lineEnds : Bool) (cs : List Char) :
    blankLength lineEnds cs ≤ cs.length := by
  fun_induction blankLength lineEnds cs <;> simp_all

lemma ahead_gap (inSnippet : Bool) (groups : List Token) (c : Cursor) :
    c.Ahead (c.forward (gap inSnippet groups c)) :=
  Cursor.ahead_forward (Scan.blankLength_le _ _)

/-- The digits of an escape are ahead. -/
lemma Scan.escapeDigits?_le {k : List Char} {n : Nat}
    (h : escapeDigits? (hexLength k) = some n) : n ≤ k.length := by
  have hle : n ≤ hexLength k := by simpa using List.find?_some h
  have hhex : hexLength k ≤ (k.take 8).length := (List.takeWhile_sublist _).length_le
  exact Nat.le_trans hle (Nat.le_trans hhex (List.length_take_le' 8 k))

/-- Whatever stands in the snippets lies ahead of them. -/
def SnippetRel.Moves (R : SnippetRel) : Prop := ∀ ⦃c ts d⦄, R c ts d → c.Ahead d

section

variable {R : SnippetRel} {c d : Cursor} {kind : TokenKind} {value : String}
  {segs : List (Segment Token)}

lemma Escape.before (hR : R.Moves) {form : SegmentForm Token} (h : Escape R c form d) :
    c.Before d := by
  cases h with
  | simple h => exact Cursor.before_forward (by decide) (by rw [h]; simp)
  | @unicode k n h hn =>
    refine Cursor.before_forward (by omega) ?_
    rw [h, List.length_cons, List.length_cons]
    exact Nat.add_le_add_right (Scan.escapeDigits?_le hn) 2
  | @octal k h hn =>
    have hoct : Scan.octalLength k ≤ (k.take 3).length := (List.takeWhile_sublist _).length_le
    refine Cursor.before_forward (by decide) ?_
    rw [List.length_take] at hoct
    rw [h, List.length_cons]
    omega
  | snippet h hs =>
    exact (Cursor.before_forward (by decide) (by rw [h]; simp)).trans_ahead (hR hs)

lemma before_plain {x : Char} {k : List Char} (h : c.rest = x :: k)
    (hx : Scan.isPlain x = true) :
    c.Before (c.forward (c.rest.takeWhile Scan.isPlain).length) := by
  refine Cursor.before_forward ?_ (List.takeWhile_sublist _).length_le
  rw [h, List.takeWhile_cons, hx]
  simp

lemma Pieces.before (hR : R.Moves) (h : Pieces R c segs d) : c.Before d := by
  induction h with
  | close h => exact Cursor.before_forward (by decide) (by rw [h]; simp)
  | plain h hx hs ih => exact (before_plain h hx).trans ih
  | escape h hs ih => exact (h.before hR).trans ih

/-- A token is not empty. -/
lemma Lexeme.before (hR : R.Moves) (h : Lexeme R c kind value segs d) : c.Before d := by
  cases h with
  | lineEnd h => exact Cursor.before_forward (by decide) (by rw [h]; simp)
  | comment h =>
    refine Cursor.before_forward ?_ (List.takeWhile_sublist _).length_le
    rw [h]
    simp [Scan.lineLength]
  | word h hx =>
    exact Cursor.before_forward (by rw [h]; exact Scan.wordLength_pos hx) Scan.wordLength_le
  | number h hx =>
    exact Cursor.before_forward (by rw [h]; exact Scan.numberLength_pos hx) Scan.numberLength_le
  | string h hs =>
    exact (Cursor.before_forward (by decide) (by rw [h]; simp)).trans (hs.before hR)
  | @operator spelling kind h =>
    obtain ⟨hmem, k, hk⟩ := Scan.operator?_inv h
    have hpos : ∀ o ∈ TokenKind.operators, 0 < o.1.length := by decide
    refine Cursor.before_forward (hpos _ hmem) ?_
    rw [hk, List.length_append, String.length_toList]
    omega

lemma Cut.before (hR : R.Moves) {inSnippet spaced : Bool} {groups : List Token} {t : Token}
    (h : Cut R inSnippet groups spaced c t d) : c.Before d := by
  obtain ⟨h⟩ := h
  exact (ahead_gap inSnippet groups c).trans_before (h.before hR)

lemma SnippetTokens.before (hR : R.Moves) {groups ts : List Token} {spaced : Bool}
    (h : SnippetTokens R groups spaced c ts d) : c.Before d := by
  induction h with
  | close hd h =>
    subst hd
    exact (ahead_gap true [] _).trans_before
      (Cursor.before_forward (by decide) (by rw [h]; simp))
  | more h hs ih => exact (h.before hR).trans ih

lemma SnippetAt.moves (allowance : Nat) : SnippetRel.Moves (SnippetAt allowance) := by
  induction allowance with
  | zero => exact fun _ _ _ h => h.elim
  | succ n ih => exact fun _ _ _ h => (SnippetTokens.before ih h).ahead

end

/-! ### Kinds -/

lemma TokenKind.isCloser_of_closer? {k l : TokenKind} (h : k.closer? = some l) :
    l.isCloser = true := by
  cases k <;> simp only [closer?, reduceCtorEq, Option.some.injEq] at h <;> rw [← h] <;> rfl

/-- A word is a name or reserved. -/
lemma TokenKind.ofWord_or (w : String) :
    ofWord w = .identifier ∨ (w, ofWord w) ∈ keywords := by
  unfold ofWord
  cases hl : keywords.lookup w with
  | none => exact .inl rfl
  | some k =>
    rw [List.lookup_eq_findSome?] at hl
    obtain ⟨o, ho, hk⟩ := List.exists_of_findSome?_eq_some hl
    split at hk
    · rename_i hw
      cases hk
      rw [eq_of_beq hw]
      exact .inr ho
    · cases hk

/-- The kinds of words. -/
lemma wordKind_or (past : List Char) (text : String) (rest : List Char) :
    (wordKind past text rest = .mod ∧ text = "mod") ∨ wordKind past text rest = .identifier
      ∨ (text, wordKind past text rest) ∈ TokenKind.keywords := by
  unfold wordKind
  split
  · rename_i h
    simp only [Bool.and_eq_true, beq_iff_eq] at h
    exact .inl ⟨rfl, h.1.1⟩
  · exact .inr (TokenKind.ofWord_or text)

/-- A token of another kind than the delimiters leaves the groups alone. -/
lemma groupsAfter_eq {u : Token} (ho : u.kind.opensGroup = false) (hc : u.kind.isCloser = false)
    (groups : List Token) : groupsAfter u groups = groups := by
  unfold groupsAfter
  rw [ho]
  cases groups with
  | nil => rfl
  | cons g gs =>
    have hne : g.kind.closer? ≠ some u.kind := fun hg => by
      rw [TokenKind.isCloser_of_closer? hg] at hc
      contradiction
    simp [hne]

lemma wordKind_plain (past : List Char) (text : String) (rest : List Char) :
    wordKind past text rest ≠ .eof ∧ wordKind past text rest ≠ .snippetClose
      ∧ (wordKind past text rest).opensGroup = false ∧ (wordKind past text rest).isCloser = false
      ∧ (wordKind past text rest).endsLine = false := by
  have hkey : ∀ o ∈ TokenKind.keywords, o.2 ≠ .eof ∧ o.2 ≠ .snippetClose
      ∧ o.2.opensGroup = false ∧ o.2.isCloser = false ∧ o.2.endsLine = false := by decide
  rcases wordKind_or past text rest with h | h | h
  · rw [h.1]
    decide
  · rw [h]
    decide
  · exact hkey _ h

/-- Words, numbers, strings and the marks of the layout are no delimiters. -/
lemma Lexeme.plain {R : SnippetRel} {c d : Cursor} {kind : TokenKind} {value : String}
    {segs : List (Segment Token)} (h : Lexeme R c kind value segs d) :
    kind ≠ .eof ∧ kind ≠ .snippetClose
      ∧ ((kind.opensGroup = false ∧ kind.isCloser = false)
        ∨ Scan.operator? c.rest = some (value, kind)) := by
  have hop : ∀ o ∈ TokenKind.operators, o.2 ≠ .eof ∧ o.2 ≠ .snippetClose := by decide
  cases h with
  | lineEnd => exact ⟨by decide, by decide, .inl (by decide)⟩
  | comment => exact ⟨by decide, by decide, .inl (by decide)⟩
  | word =>
    obtain ⟨he, hs, ho, hc, -⟩ := wordKind_plain c.past _ _
    exact ⟨he, hs, .inl ⟨ho, hc⟩⟩
  | number => exact ⟨by decide, by decide, .inl (by decide)⟩
  | string => exact ⟨by decide, by decide, .inl (by decide)⟩
  | operator h =>
    have hmem := hop _ (Scan.operator?_inv h).1
    exact ⟨hmem.1, hmem.2, .inr h⟩

lemma Scan.operator?_opening {cs : List Char} {spelling : String} {kind : TokenKind}
    (h : operator? cs = some (spelling, kind)) : ∃ x, Opening.of cs = .symbol x := by
  obtain ⟨hmem, k, rfl⟩ := operator?_inv h
  have hall : ∀ o ∈ TokenKind.operators, (o.1.toList.head?.any fun x =>
      !startsWord x && !x.isDigit && x != '\n' && x != '#' && x != '\\' && x != '"') = true := by
    decide
  have hx := hall _ hmem
  cases hs : spelling.toList with
  | nil => rw [hs] at hx; cases hx
  | cons x w =>
    rw [hs] at hx
    refine ⟨x, ?_⟩
    simp only [List.head?_cons, Option.any_some, Bool.and_eq_true, Bool.not_eq_true',
      bne_iff_ne] at hx
    obtain ⟨⟨⟨⟨⟨hw, hd⟩, hn⟩, hc⟩, hb⟩, hq⟩ := hx
    simp only [List.cons_append, Opening.of]
    split <;> simp_all

/-- What stands at a beginning of each sort. -/
lemma Scan.Opening.of_inv (cs : List Char) :
    match Opening.of cs with
    | .nothing => cs = []
    | .lineEnd => ∃ k, cs = '\n' :: k
    | .comment => ∃ k, cs = '#' :: k
    | .snippetClose => ∃ k, cs = '\\' :: '}' :: k
    | .word => ∃ x k, cs = x :: k ∧ startsWord x = true
    | .digit => ∃ x k, cs = x :: k ∧ x.isDigit = true
    | .quote => ∃ k, cs = '"' :: k
    | .symbol _ => True := by
  fun_cases Opening.of cs with
  | case1 => rfl
  | case2 k => exact ⟨k, rfl⟩
  | case3 k => exact ⟨k, rfl⟩
  | case4 k => exact ⟨k, rfl⟩
  | case5 k => exact ⟨k, rfl⟩
  | case6 x k _ _ _ _ hw => exact ⟨x, k, rfl, hw⟩
  | case7 x k _ _ _ _ _ hd => exact ⟨x, k, rfl, hd⟩
  | case8 => trivial

end StpLang
