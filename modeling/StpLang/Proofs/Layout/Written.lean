import StpLang.Proofs.Layout.Lexemes
import StpLang.Proofs.Lex.Spelled

/-!
Text that is read as given tokens.

A token that is spelled right is read back wherever its spelling stands, as long
as it does not go on with what follows.

* `ReadsAs` says that some characters before others are read as a token that
  counts the same as a given one.
* `Written` says this of tokens with blanks between them, `Spread` of tokens on
  several lines.
* `Written.cuts` and `Spread.lexes` read the tokens.
-/

namespace StpLang

open Lexer

/-! ### What follows a token -/

namespace Scan

/-- A word does not go on. -/
def EndsWord (k : List Char) : Prop := ∀ x ∈ k.head?, continuesWord x = false

/-- An operator does not go on. -/
def EndsOperator (k : List Char) : Prop := ∀ x ∈ k.head?, "=*/^.".toList.contains x = false

/-- Neither a word nor a number nor an operator goes on. -/
structure EndsToken (k : List Char) : Prop where
  word : EndsWord k
  operator : EndsOperator k

lemma endsToken_cons {x : Char} {k : List Char} (hw : continuesWord x = false)
    (ho : "=*/^.".toList.contains x = false) : EndsToken (x :: k) :=
  ⟨fun _ h => Option.some.inj h ▸ hw, fun _ h => Option.some.inj h ▸ ho⟩

/-- A character of a class is none of some others. -/
lemma contains_eq_false {p : Char → Bool} {x : Char} {cs : List Char} (hx : p x = true)
    (hp : cs.any p = false) : cs.contains x = false := by
  rw [List.contains_eq_mem, decide_eq_false_iff_not]
  intro h
  exact List.any_eq_false.mp hp x h hx

/-- A run of characters ends where the next one does not belong to it. -/
lemma takeWhile_append_of {p : Char → Bool} {w k : List Char} (hw : ∀ x ∈ w, p x = true)
    (hk : ∀ x ∈ k.head?, p x = false) : (w ++ k).takeWhile p = w := by
  rw [List.takeWhile_append_of_pos hw]
  cases k with
  | nil => simp
  | cons x k => simp [hk x rfl]

lemma continuesWord_of_isDigit {x : Char} (hx : x.isDigit = true) : continuesWord x = true := by
  simp [continuesWord, Char.isAlphanum, hx]

/-- The extent of a number that does not go on. -/
lemma numberLength_append {w k : List Char} (hw : Numeral w)
    (hd : ∀ x ∈ k.head?, x.isDigit = false) (hf : fractionLength k = 0) :
    numberLength (w ++ k) = w.length := by
  cases hw with
  | whole hne hw =>
    have hdigits : digitsLength (w ++ k) = w.length := by
      rw [digitsLength, takeWhile_append_of hw hd]
    rw [numberLength, hdigits, List.drop_left, hf]
    rfl
  | @fraction w v hne hw hve hv =>
    have hdigits : digitsLength ((w ++ '.' :: v) ++ k) = w.length := by
      rw [digitsLength, List.append_assoc, takeWhile_append_of hw]
      rintro x ⟨⟩
      rfl
    have hmore : digitsLength (v ++ k) = v.length := by
      rw [digitsLength, takeWhile_append_of hv hd]
    have hpos : v.length ≠ 0 := fun h => hve (List.length_eq_zero_iff.mp h)
    rw [numberLength, hdigits, List.append_assoc, List.drop_left, List.cons_append,
      fractionLength, hmore, if_neg hpos, List.length_append, List.length_cons]
    omega

/-- A longer operator goes on with one of a few characters. -/
lemma operators_longer : ∀ o ∈ TokenKind.operators, ∀ p ∈ TokenKind.operators,
    p.1.toList = o.1.toList ∨ (p.1.toList.take o.1.length == o.1.toList) = false
      ∨ ((p.1.toList.drop o.1.length).head?.any fun x => "=*/^.".toList.contains x) = true := by
  decide +kernel

lemma operators_unique : ∀ o ∈ TokenKind.operators, ∀ p ∈ TokenKind.operators,
    p.1.toList = o.1.toList → p = o := by
  decide +kernel

/-- The longest operator ahead is one that does not go on. -/
lemma operator?_append {o : String × TokenKind} {k : List Char} (ho : o ∈ TokenKind.operators)
    (hk : EndsOperator k) : operator? (o.1.toList ++ k) = some o := by
  have hlength : ∀ o ∈ TokenKind.operators, o.1.length = 1 ∨ o.1.length = 2 ∨ o.1.length = 3 := by
    decide
  -- at its own length and beyond it only this operator is found
  have hlong : ∀ n p, o.1.length ≤ n → operatorOfLength? (o.1.toList ++ k) n = some p →
      p = o := by
    intro n p hn hp
    have hmem := List.mem_of_find?_eq_some hp
    have htake : p.1.toList = (o.1.toList ++ k).take n := by simpa using List.find?_some hp
    obtain ⟨m, rfl⟩ := Nat.exists_eq_add_of_le hn
    rw [← String.length_toList, List.take_length_add_append] at htake
    rcases operators_longer o ho p hmem with h | h | h
    · exact operators_unique o ho p hmem h
    · rw [htake, ← String.length_toList, List.take_left, beq_self_eq_true] at h
      cases h
    · rw [htake, ← String.length_toList, List.drop_left] at h
      cases k with
      | nil => simp at h
      | cons x k =>
        cases m with
        | zero => simp at h
        | succ m =>
          rw [List.take_succ_cons, List.head?_cons, Option.any_some, hk x rfl] at h
          cases h
  have hself : operatorOfLength? (o.1.toList ++ k) o.1.length = some o := by
    cases hp : operatorOfLength? (o.1.toList ++ k) o.1.length with
    | some p => rw [hlong _ p (Nat.le_refl _) hp]
    | none =>
      have := List.find?_eq_none.mp hp o ho
      rw [← String.length_toList, List.take_left, beq_self_eq_true] at this
      exact absurd rfl this
  have hbeyond : ∀ n, o.1.length ≤ n → operatorOfLength? (o.1.toList ++ k) n = none
      ∨ operatorOfLength? (o.1.toList ++ k) n = some o := by
    intro n hn
    cases hp : operatorOfLength? (o.1.toList ++ k) n with
    | none => exact .inl rfl
    | some p => exact .inr (by rw [hlong n p hn hp])
  have h2 := hbeyond 2
  have h3 := hbeyond 3
  simp only [operator?, List.findSome?_cons]
  rcases hlength o ho with h | h | h
  · rw [h] at hself h2 h3
    rcases h3 (by decide) with h3 | h3 <;> rcases h2 (by decide) with h2 | h2 <;>
      simp only [h3, h2, hself]
  · rw [h] at hself h3
    rcases h3 (by decide) with h3 | h3 <;> simp only [h3, hself]
  · rw [h] at hself
    simp only [hself]

end Scan

/-! ### Tokens -/

/-- A character with which a token can begin. -/
def startsToken (x : Char) : Bool := !" \t\r\n\\".toList.contains x

lemma startsToken_of_startsWord {x : Char} (hx : Scan.startsWord x = true) :
    startsToken x = true := by
  rw [startsToken, Scan.contains_eq_false hx (by rfl)]
  rfl

lemma startsToken_of_isDigit {x : Char} (hx : x.isDigit = true) : startsToken x = true := by
  rw [startsToken, Scan.contains_eq_false hx (by rfl)]
  rfl

/-- The first character of a mark begins a token. -/
lemma startsToken_of_mem {o : String × TokenKind} (ho : o ∈ TokenKind.operators) :
    ∃ x w, o.1.toList = x :: w ∧ startsToken x = true := by
  have hfirst : ∀ o ∈ TokenKind.operators, o.1.toList.head?.any startsToken = true := by decide
  have hx := hfirst o ho
  cases hv : o.1.toList with
  | nil =>
    rw [hv] at hx
    cases hx
  | cons x w =>
    rw [hv] at hx
    exact ⟨x, w, rfl, hx⟩

/-- The characters `v` before `k` are read as a token that counts the same as
`t`, where `n` levels of snippets may be entered. -/
structure ReadsAs (n : Nat) (t : Token) (v k : List Char) : Prop where
  first : ∃ x w, v = x :: w ∧ startsToken x = true
  lexeme : ∀ c : Cursor, c.rest = v ++ k → ∃ kind value segs,
    Lexeme (SnippetAt n) c kind value segs (c.forward v.length)
      ∧ (⟨kind.plain, if kind = .string then pieceWords segs else [value]⟩ : Item) = t.item

lemma Token.item_between (kind : TokenKind) (value : String) (spaced : Bool)
    (segs : List (Segment Token)) (c d : Cursor) :
    (Token.between kind value spaced segs c d).item
      = ⟨kind.plain, if kind = .string then pieceWords segs else [value]⟩ := by
  rw [Token.between, Token.item]

lemma Token.item_eq {t : Token} (ht : t.kind ≠ .string) : t.item = ⟨t.kind.plain, [t.value]⟩ := by
  rw [← Token.item_words ht, ← Token.item_kind]

/-- A word is no string, and no `mod` unless it stands between blanks. -/
lemma TokenKind.ofWord_plain (text : String) :
    (ofWord text).plain = ofWord text ∧ ofWord text ≠ .string := by
  have hkey : ∀ o ∈ keywords, o.2.plain = o.2 ∧ o.2 ≠ .string := by decide
  rcases ofWord_or text with h | h
  · rw [h]
    exact ⟨rfl, by decide⟩
  · exact hkey _ h

/-- A word counts the same wherever it stands. -/
lemma wordKind_item (past : List Char) (text : String) (rest : List Char) :
    (wordKind past text rest).plain = .ofWord text ∧ wordKind past text rest ≠ .string := by
  unfold wordKind
  split
  · rename_i h
    simp only [Bool.and_eq_true, beq_iff_eq] at h
    rw [h.1.1]
    exact ⟨rfl, by decide⟩
  · exact TokenKind.ofWord_plain text

section

variable {n : Nat} {t : Token} {k : List Char}

/-- A word that does not go on stands where it is spelled. -/
lemma lexeme_word {c : Cursor} {x : Char} {w : List Char} (hx : Scan.startsWord x = true)
    (hw : ∀ y ∈ w, Scan.continuesWord y = true) (hend : Scan.EndsWord k)
    (hc : c.rest = x :: w ++ k) :
    Lexeme (SnippetAt n) c (wordKind c.past (String.ofList (x :: w)) k) (String.ofList (x :: w)) []
      (c.forward (x :: w).length) := by
  have hrun : c.rest.takeWhile Scan.continuesWord = x :: w := by
    rw [hc]
    exact Scan.takeWhile_append_of
      (List.forall_mem_cons.mpr ⟨Scan.continuesWord_of_startsWord hx, hw⟩) hend
  have hlen : Scan.wordLength c.rest = (x :: w).length := by rw [Scan.wordLength, hrun]
  have hlex := Lexeme.word (R := SnippetAt n) (k := w ++ k) hc hx
  rwa [hlen, hc, List.take_left, List.drop_left] at hlex

/-- A word that does not go on is read. -/
lemma readsAs_word {x : Char} {w : List Char} (hx : Scan.startsWord x = true)
    (hw : ∀ y ∈ w, Scan.continuesWord y = true)
    (hk : t.kind = .ofWord (String.ofList (x :: w))
      ∨ (t.kind = .mod ∧ String.ofList (x :: w) = "mod"))
    (hv : t.value = String.ofList (x :: w)) (hend : Scan.EndsWord k) :
    ReadsAs n t (x :: w) k := by
  have hitem : t.item = ⟨.ofWord (String.ofList (x :: w)), [String.ofList (x :: w)]⟩ := by
    obtain ⟨hp, hs⟩ := TokenKind.ofWord_plain (String.ofList (x :: w))
    rcases hk with hk | ⟨hk, htext⟩
    · rw [Token.item_eq (by rw [hk]; exact hs), hk, hp, hv]
    · rw [Token.item_eq (by rw [hk]; decide), hk, hv, htext]
      rfl
  refine ⟨⟨x, w, rfl, startsToken_of_startsWord hx⟩, fun c hc => ?_⟩
  obtain ⟨hp, hs⟩ := wordKind_item c.past (String.ofList (x :: w)) k
  exact ⟨_, _, _, lexeme_word hx hw hend hc, by rw [hitem, hp, if_neg hs]⟩

/-- A number begins with a digit. -/
lemma Numeral.digit {w : List Char} (h : Numeral w) : ∃ x v, w = x :: v ∧ x.isDigit = true := by
  cases h with
  | whole hne hw =>
    obtain ⟨x, v, rfl⟩ := List.exists_cons_of_ne_nil hne
    exact ⟨x, v, rfl, hw x List.mem_cons_self⟩
  | fraction hne hw =>
    obtain ⟨x, v, rfl⟩ := List.exists_cons_of_ne_nil hne
    exact ⟨x, _, rfl, hw x List.mem_cons_self⟩

/-- A number that does not go on stands where it is spelled. -/
lemma lexeme_number {c : Cursor} {w : List Char} (hw : Numeral w)
    (hd : ∀ x ∈ k.head?, x.isDigit = false) (hf : Scan.fractionLength k = 0)
    (hc : c.rest = w ++ k) :
    Lexeme (SnippetAt n) c .number (String.ofList w) [] (c.forward w.length) := by
  obtain ⟨x, v, rfl, hx⟩ := hw.digit
  have hlen : Scan.numberLength c.rest = (x :: v).length := by
    rw [hc, Scan.numberLength_append hw hd hf]
  have hlex := Lexeme.number (R := SnippetAt n) (k := v ++ k) hc hx
  rwa [hlen, hc, List.take_left] at hlex

/-- A number that does not go on is read. -/
lemma readsAs_number {w : List Char} (hw : Numeral w) (hk : t.kind = .number)
    (hv : t.value = String.ofList w) (hd : ∀ x ∈ k.head?, x.isDigit = false)
    (hf : Scan.fractionLength k = 0) : ReadsAs n t w k := by
  obtain ⟨x, v, rfl, hx⟩ := hw.digit
  refine ⟨⟨x, v, rfl, startsToken_of_isDigit hx⟩, fun c hc => ?_⟩
  refine ⟨_, _, _, lexeme_number hw hd hf hc, ?_⟩
  rw [Token.item_eq (by rw [hk]; decide), hk, hv]
  rfl

/-- A mark that does not go on stands where it is spelled. -/
lemma lexeme_operator {c : Cursor} {o : String × TokenKind} (ho : o ∈ TokenKind.operators)
    (hk : Scan.EndsOperator k) (hc : c.rest = o.1.toList ++ k) :
    Lexeme (SnippetAt n) c o.2 o.1 [] (c.forward o.1.toList.length) := by
  rw [String.length_toList]
  refine .operator ?_
  rw [hc]
  exact Scan.operator?_append ho hk

/-- An operator or a punctuation mark that does not go on is read. -/
lemma readsAs_operator (ht : (t.value, t.kind) ∈ TokenKind.operators)
    (hk : Scan.EndsOperator k) : ReadsAs n t t.value.toList k := by
  have hstring : ∀ o ∈ TokenKind.operators, o.2 ≠ .string := by decide
  have hs : t.kind ≠ .string := hstring _ ht
  refine ⟨startsToken_of_mem ht, fun c hc => ?_⟩
  exact ⟨_, _, _, lexeme_operator ht hk hc, by rw [Token.item_eq hs, if_neg hs]⟩

/-! ### Tokens that are spelled right -/

/-- The kinds of operators and punctuation marks. -/
def TokenKind.isMark (kind : TokenKind) : Bool := operators.any (·.2 == kind)

/-- A word, a number or a mark is read before anything with which it does not go
on. -/
lemma readsAs (h : t.Spelled n) (hs : t.kind ≠ .string) (hl : t.kind.endsLine = false)
    (hw : t.kind.isMark = false → Scan.EndsWord k)
    (ho : t.kind.isMark = true → Scan.EndsOperator k)
    (hf : t.kind = .number → Scan.fractionLength k = 0) : ReadsAs n t t.value.toList k := by
  have hop : ∀ o ∈ TokenKind.operators, o.2.isMark = true := by decide
  have hwords : ∀ k ∈ TokenKind.words, k.isMark = false := by decide
  change Spells _ t.kind t.value t.segments at h
  generalize hkind : t.kind = kind at h
  generalize hvalue : t.value = value at h
  generalize t.segments = segs at h
  cases h with
  | lineEnd | comment =>
    rw [hkind] at hl
    cases hl
  | word hx hword hk =>
    have hmark : t.kind.isMark = false := by
      rw [hkind]
      exact hwords _ (TokenKind.mem_words hk)
    rw [String.toList_ofList]
    exact readsAs_word hx hword (by rw [hkind]; exact hk) hvalue (hw hmark)
  | number hnum =>
    rw [String.toList_ofList]
    refine readsAs_number hnum hkind hvalue (fun x hx => ?_) (hf hkind)
    cases hd : x.isDigit with
    | false => rfl
    | true =>
      have hcont := hw (by rw [hkind]; rfl) x hx
      rw [Scan.continuesWord_of_isDigit hd] at hcont
      cases hcont
  | string => exact absurd hkind hs
  | operator h =>
    subst hkind hvalue
    exact readsAs_operator h (ho (hop _ h))

/-- A mark is read before anything that does not continue an operator. -/
lemma readsAs_mark (h : t.Spelled n) {kind : TokenKind} (hk : t.kind = kind)
    (hm : kind.isMark = true) (hend : Scan.EndsOperator k) : ReadsAs n t t.value.toList k := by
  have hop : ∀ o ∈ TokenKind.operators, o.2 ≠ .string ∧ o.2.endsLine = false ∧ o.2 ≠ .number := by
    decide
  obtain ⟨o, ho, hok⟩ := List.any_eq_true.mp hm
  obtain ⟨hs, hl, hn⟩ := hop o ho
  rw [eq_of_beq hok, ← hk] at hs hl hn
  exact readsAs h hs hl (by rw [hk, hm]; rintro ⟨⟩) (fun _ => hend) (fun hk => absurd hk hn)

lemma Scan.EndsToken.fractionLength_eq (h : Scan.EndsToken k) : Scan.fractionLength k = 0 := by
  unfold Scan.fractionLength
  split
  · exact absurd (h.operator '.' rfl) (by decide)
  · rfl

/-- A token that is no string and does not end its line is read before anything
with which no token goes on. -/
lemma readsAs_token (h : t.Spelled n) (hs : t.kind ≠ .string) (hl : t.kind.endsLine = false)
    (hend : Scan.EndsToken k) : ReadsAs n t t.value.toList k :=
  readsAs h hs hl (fun _ => hend.word) (fun _ => hend.operator) (fun _ => hend.fractionLength_eq)

/-- A comment at the end of a line stands where it is spelled. -/
lemma lexeme_comment {c : Cursor} {w : List Char} (hw : ∀ x ∈ w, x ≠ '\n')
    (trimmed : Text.trimEnd (· == '\r') ('#' :: w) = '#' :: w) (hend : k.head? = some '\n')
    (hc : c.rest = '#' :: w ++ k) :
    Lexeme (SnippetAt n) c .comment (String.ofList ('#' :: w)) []
      (c.forward ('#' :: w).length) := by
  have hline : Scan.lineLength c.rest = ('#' :: w).length := by
    rw [hc, Scan.lineLength, Scan.takeWhile_append_of]
    · intro x hx
      rw [bne_iff_ne]
      rcases List.mem_cons.mp hx with rfl | hx
      · decide
      · exact hw x hx
    · intro x hx
      rw [hend] at hx
      cases hx
      rfl
  have hlex := Lexeme.comment (R := SnippetAt n) (k := w ++ k) hc
  rwa [hline, hc, List.take_left, trimmed] at hlex

/-- A comment is read at the end of a line. -/
lemma readsAs_comment (h : t.Spelled n) (hk : t.kind = .comment) (hend : k.head? = some '\n') :
    ReadsAs n t t.value.toList k := by
  have hitem : t.item = ⟨.comment, [t.value]⟩ := by
    rw [Token.item_eq (by rw [hk]; decide), hk]
    rfl
  change Spells _ t.kind t.value t.segments at h
  rw [hk] at h
  obtain ⟨w, hvalue, hw, trimmed⟩ := h.comment_inv
  rw [hvalue] at hitem ⊢
  rw [String.toList_ofList]
  exact ⟨⟨'#', w, rfl, by decide⟩, fun c hc =>
    ⟨_, _, _, lexeme_comment hw trimmed hend hc, hitem.symm⟩⟩

end

/-! ### Tokens with blanks between them -/

/-- The characters `w` before `k` hold the tokens `ts`, with blanks before some
of them. -/
inductive Written (n : Nat) : (ts : List Token) → (w k : List Char) → Prop
  | nil {k : List Char} : Written n [] [] k
  | cons {t : Token} {ts : List Token} {v w k : List Char} (h : ReadsAs n t v (w ++ k))
      (hs : Written n ts w k) : Written n (t :: ts) (v ++ w) k
  | blank {t : Token} {ts : List Token} {w k : List Char} (h : Written n (t :: ts) w k) :
      Written n (t :: ts) (' ' :: w) k

section

variable {n : Nat} {t : Token} {ts us xs : List Token} {v w k : List Char}

lemma Written.append (h : Written n ts v (w ++ k)) (h' : Written n us w k) :
    Written n (ts ++ us) (v ++ w) k := by
  generalize hk : w ++ k = k' at h
  induction h with
  | nil => exact h'
  | cons h _ ih =>
    subst hk
    rw [List.append_assoc]
    exact .cons (by rw [List.append_assoc]; exact h) (ih rfl)
  | blank _ ih => exact .blank (ih hk)

lemma Written.one (h : ReadsAs n t v k) : Written n [t] v k := by
  have := Written.cons (w := []) (k := k) h .nil
  rwa [List.append_nil] at this

/-- Blanks before a token. -/
lemma Written.blanks (h : Written n (t :: ts) w k) (m : Nat) :
    Written n (t :: ts) (List.replicate m ' ' ++ w) k := by
  induction m with
  | zero => exact h
  | succ m ih => exact .blank ih

/-- Where there are no tokens there is no text. -/
lemma Written.eq_nil (h : Written n [] w k) : w = [] := by
  cases h
  rfl

/-- Text does not begin with a line end, and text without characters holds no
tokens. -/
lemma Written.head (h : Written n ts w k) : (w = [] → ts = []) ∧ w.head? ≠ some '\n' := by
  cases h with
  | nil => exact ⟨fun _ => rfl, by simp⟩
  | cons h =>
    obtain ⟨x, v, rfl, hx⟩ := h.first
    refine ⟨by simp, fun hn => ?_⟩
    rw [List.cons_append, List.head?_cons, Option.some.injEq] at hn
    subst hn
    revert hx
    decide
  | blank => exact ⟨by simp, by simp⟩

/-! ### Reading the tokens -/

/-- The tokens between two places. -/
inductive Cuts (R : SnippetRel) (inSnippet : Bool) :
    (groups : List Token) → (spaced : Bool) → Cursor → List Token → Cursor → Prop
  | nil {groups : List Token} {spaced : Bool} {c : Cursor} : Cuts R inSnippet groups spaced c [] c
  | cons {groups : List Token} {spaced : Bool} {c d e : Cursor} {t : Token} {ts : List Token}
      (h : Cut R inSnippet groups spaced c t d)
      (hs : Cuts R inSnippet (groupsAfter t groups) t.kind.endsLine d ts e) :
      Cuts R inSnippet groups spaced c (t :: ts) e

/-- Blanks before a token are passed over. -/
lemma Scan.blankLength_replicate (lineEnds : Bool) {x : Char} (hx : startsToken x = true)
    (m : Nat) (k : List Char) : blankLength lineEnds (List.replicate m ' ' ++ x :: k) = m := by
  induction m with
  | zero =>
    rw [List.replicate_zero, List.nil_append]
    unfold blankLength
    split <;> first | rfl | (exact absurd hx (by simp_all [startsToken]))
  | succ m ih =>
    rw [List.replicate_succ, List.cons_append, blankLength, ih]

lemma Written.cuts_blanks (h : Written n ts w k) (inSnippet spaced : Bool) (groups : List Token)
    {c : Cursor} {m : Nat} (hm : ts = [] → m = 0)
    (hc : c.rest = List.replicate m ' ' ++ (w ++ k)) :
    ∃ us, Cuts (SnippetAt n) inSnippet groups spaced c us (c.forward (m + w.length))
      ∧ Token.items us = Token.items ts := by
  induction h generalizing c m groups spaced with
  | nil =>
    rw [hm rfl]
    exact ⟨[], .nil, rfl⟩
  | @cons t ts v w k h _ ih =>
    obtain ⟨x, v', hv, hx⟩ := h.first
    have hgap : gap inSnippet groups c = m := by
      rw [gap, hc, hv]
      exact Scan.blankLength_replicate _ hx m _
    have hrest : (c.forward m).rest = v ++ (w ++ k) := by
      rw [Cursor.rest_forward, hc, List.drop_left' List.length_replicate, List.append_assoc]
    obtain ⟨kind, value, segs, hlex, hitem⟩ := h.lexeme (c.forward m) hrest
    have hcut : Cut (SnippetAt n) inSnippet groups spaced c
        (.between kind value (spaced || m != 0) segs (c.forward m)
          ((c.forward m).forward v.length)) ((c.forward m).forward v.length) := by
      rw [← hgap] at hlex ⊢
      exact .mk hlex
    have hbehind : ((c.forward m).forward v.length).rest = List.replicate 0 ' ' ++ (w ++ k) := by
      rw [Cursor.rest_forward, hrest, List.drop_left]
      rfl
    obtain ⟨us, hus, hitems⟩ := ih _ _ (fun _ => rfl) hbehind
    refine ⟨_ :: us, .cons hcut ?_, ?_⟩
    · rw [Nat.zero_add, ← Cursor.forward_add, ← Cursor.forward_add, Nat.add_assoc] at hus
      rw [← Cursor.forward_add, List.length_append]
      exact hus
    · rw [Token.items_cons, Token.items_cons, Token.item_between, hitem, hitems]
  | @blank t ts w k _ ih =>
    have hc' : c.rest = List.replicate (m + 1) ' ' ++ (w ++ k) := by
      rw [hc, List.replicate_succ', List.append_assoc]
      rfl
    rw [List.length_cons, ← Nat.add_assoc, Nat.add_right_comm]
    exact ih _ _ (by rintro ⟨⟩) hc'

/-- The tokens that are written are read. -/
theorem Written.cuts (h : Written n ts w k) (inSnippet spaced : Bool) (groups : List Token)
    {c : Cursor} (hc : c.rest = w ++ k) :
    ∃ us, Cuts (SnippetAt n) inSnippet groups spaced c us (c.forward w.length)
      ∧ Token.items us = Token.items ts := by
  have := h.cuts_blanks inSnippet spaced groups (m := 0) (fun _ => rfl) hc
  rwa [Nat.zero_add] at this

/-- Only names and `mod` count alike. -/
lemma TokenKind.eq_of_plain {kind kind' : TokenKind} (h : kind.plain = kind'.plain)
    (hk : kind'.plain ≠ .identifier) : kind = kind' := by
  rcases kind.plain_or with hp | ⟨-, hp⟩
  · rcases kind'.plain_or with hp' | ⟨-, hp'⟩
    · rw [← hp, h, hp']
    · exact absurd hp' hk
  · exact absurd (h.symm.trans hp) hk

/-- What goes on behind a token on the same line shows that the token does not end it. -/
lemma ReadsAs.endsLine {x : Char} (h : ReadsAs n t v (x :: k)) (hx : x ≠ '\n') :
    t.kind.endsLine = false := by
  obtain ⟨y, w, rfl, hy⟩ := h.first
  have hrest : (Cursor.ofText (String.ofList (y :: w ++ x :: k))).rest = y :: w ++ x :: k :=
    String.toList_ofList
  obtain ⟨kind, value, segs, hlex, hitem⟩ := h.lexeme _ hrest
  have hplain : kind.plain = t.kind.plain := (congrArg Item.kind hitem).trans t.item_kind
  cases hends : t.kind.endsLine with
  | false => rfl
  | true =>
    have hkind : kind = t.kind := by
      refine TokenKind.eq_of_plain hplain fun hid => ?_
      generalize t.kind = kind' at hid hends
      cases kind' <;> first | (cases hends; done) | cases hid
    rcases hlex.endsLine_inv (hkind ▸ hends) with h | h
    · rw [hrest] at h
      cases h
      cases hy
    · rw [Cursor.rest_forward, hrest, List.drop_left] at h
      exact absurd (h x rfl) hx

/-- The tokens of a text that may go on behind a blank do not end their line. -/
lemma Written.endsLine (h : Written n ts w (' ' :: k)) : ∀ t ∈ ts, t.kind.endsLine = false := by
  generalize hk : ' ' :: k = k' at h
  induction h with
  | nil => exact fun t ht => absurd ht List.not_mem_nil
  | @cons t ts v w k' h hs ih =>
    subst hk
    refine List.forall_mem_cons.mpr ⟨?_, ih rfl⟩
    have hhead := hs.head.2
    cases w with
    | nil => exact h.endsLine (by decide)
    | cons x w => exact h.endsLine fun hx => hhead (by rw [hx]; rfl)
  | blank _ ih => exact ih hk

/-- Tokens that count the same close the same groups. -/
lemma Balanced.of_items (h : Balanced ts) (hi : Token.items us = Token.items ts) :
    Balanced us := by
  rw [Token.items_eq_map, Token.items_eq_map] at hi
  have hkind {t u : Token} (h : u.item = t.item) : u.kind.plain = t.kind.plain := by
    rw [← Token.item_kind, h, Token.item_kind]
  induction h generalizing us with
  | nil =>
    rw [List.map_eq_nil_iff.mp hi]
    exact .nil
  | @plain t ts ht _ ih =>
    obtain ⟨u, us, rfl, hu, hus⟩ := List.map_eq_cons_iff.mp hi
    refine .plain ?_ (ih hus)
    rw [← TokenKind.isInner_plain, hkind hu, TokenKind.isInner_plain, ht]
  | @group o c ts ts' ho hc _ _ ih ihs =>
    obtain ⟨o', us, rfl, ho', hus⟩ := List.map_eq_cons_iff.mp hi
    rw [List.map_append, List.map_cons] at hus
    obtain ⟨us, vs, rfl, hin, hvs⟩ := List.map_eq_append_iff.mp hus
    obtain ⟨c', vs, rfl, hc', hout⟩ := List.map_eq_cons_iff.mp hvs
    -- neither delimiter counts as a name
    have hopen : o'.kind = o.kind := TokenKind.eq_of_plain (hkind ho') fun h => by
      rcases o.kind.plain_or with hp | ⟨hp, -⟩
      · rw [← hp, h] at ho
        cases ho
      · rw [hp] at ho
        cases ho
    have hclose : c'.kind = c.kind := TokenKind.eq_of_plain (hkind hc') fun h => by
      have hcloses := (TokenKind.closesGroup_of_closer? ho hc).1
      rcases c.kind.plain_or with hp | ⟨hp, -⟩
      · rw [← hp, h] at hcloses
        cases hcloses
      · rw [hp] at hcloses
        cases hcloses
    exact .group (by rw [hopen, ho]) (by rw [hopen, hclose, hc]) (ih hin) (ihs hout)

/-- The tokens before the end of a snippet are the tokens of the snippet. -/
lemma Cuts.snippetTokens {R : SnippetRel} {groups : List Token} {spaced : Bool} {c d : Cursor}
    (h : Cuts R true groups spaced c ts d) (hg : groupsBehind groups ts = [])
    (hd : d.rest = '\\' :: '\x7d' :: k) :
    ∃ e, e.kind = .eof ∧ SnippetTokens R groups spaced c (ts ++ [e]) (d.forward 2) := by
  induction h with
  | @nil groups spaced c =>
    obtain rfl : groups = [] := hg
    have hgap : gap true [] c = 0 := by
      rw [gap, hd]
      rfl
    exact ⟨_, rfl, .close (by rw [hgap]; rfl) hd⟩
  | cons h _ ih =>
    obtain ⟨e, he, hs⟩ := ih hg hd
    exact ⟨e, he, .more h hs⟩

/-- The tokens of a piece of text are read one after another. -/
lemma Cuts.lexes {limit : Int} {s : Lexer} {d : Cursor}
    (h : Cuts (TextSnippet limit) false s.groups s.spaced s.cursor ts d) :
    ∃ t, Lexes limit s ts t ∧ t.cursor = d := by
  generalize hg : s.groups = groups at h
  generalize hsp : s.spaced = spaced at h
  generalize hcur : s.cursor = c at h
  induction h generalizing s with
  | nil => exact ⟨s, .nil s, hcur⟩
  | cons h _ ih =>
    subst hg hsp hcur
    obtain ⟨t, ht, hne, hd, hgroups, hspaced⟩ := textToken_of_cut h
    obtain ⟨v, hv, hcur⟩ := ih hgroups hspaced hd
    exact ⟨v, .cons ht hne hv, hcur⟩

/-! ### Tokens on several lines -/

/-- The mark of the end of a line. -/
def lineEndToken : Token := { kind := .newline, value := "\n" }

/-- The characters `w` before `k` hold the tokens `ts` on one or more lines, and
no group goes on from a line to the next. -/
inductive Spread (n : Nat) : (ts : List Token) → (w k : List Char) → Prop
  | last {ts : List Token} {w k : List Char} (hb : Balanced ts) (h : Written n ts w k) :
      Spread n ts w k
  | line {ts us : List Token} {v w k : List Char} (hb : Balanced ts)
      (h : Written n ts v ('\n' :: (w ++ k))) (hs : Spread n us w k) :
      Spread n (ts ++ lineEndToken :: us) (v ++ '\n' :: w) k

lemma Spread.append (h : Spread n ts v (w ++ k)) (h' : Spread n us w k) :
    Spread n (ts ++ us) (v ++ w) k := by
  generalize hk : w ++ k = k' at h
  induction h with
  | last hb h =>
    subst hk
    cases h' with
    | last hb' h' => exact .last (hb.append hb') (h.append h')
    | line hb' h' hs =>
      rw [← List.append_assoc, ← List.append_assoc]
      refine .line (hb.append hb') (Written.append ?_ h') hs
      rwa [List.append_assoc, List.cons_append] at h
  | line hb h _ ih =>
    subst hk
    rw [List.append_assoc, List.append_assoc, List.cons_append, List.cons_append]
    exact .line hb (by rwa [List.append_assoc]) (ih rfl)

/-- Text that begins with a line end holds its mark first. -/
lemma Spread.tail (h : Spread n ts ('\n' :: w) k) :
    ∃ us, ts = lineEndToken :: us ∧ Spread n us w k := by
  generalize hw : '\n' :: w = w' at h
  cases h with
  | last _ h =>
    subst hw
    exact absurd rfl h.head.2
  | @line ts us v _ _ hb h hs =>
    cases v with
    | nil =>
      obtain ⟨-, rfl⟩ := List.cons.inj hw
      rw [h.head.1 rfl]
      exact ⟨us, rfl, hs⟩
    | cons x v =>
      obtain ⟨rfl, -⟩ := List.cons.inj hw
      exact absurd rfl h.head.2

/-- The tokens on one line are read. -/
lemma Written.lexes {limit : Int} {s : Lexer} (h : Written limit.toNat ts w k)
    (hb : Balanced ts) (hg : s.groups = []) (hc : s.cursor.rest = w ++ k) :
    ∃ us t, Lexes limit s us t ∧ Token.items us = Token.items ts ∧ t.groups = []
      ∧ t.cursor.rest = k := by
  obtain ⟨us, hcuts, hitems⟩ := h.cuts false s.spaced s.groups hc
  obtain ⟨t, ht, hd⟩ := hcuts.lexes
  refine ⟨us, t, ht, hitems, ?_, ?_⟩
  · rw [ht.groups, hg]
    exact (hb.of_items hitems).groups (by simp)
  · rw [hd, Cursor.rest_forward, hc, List.drop_left]

/-- Outside of groups the end of a line is read. -/
lemma lexes_lineEnd {limit : Int} {s : Lexer} (hg : s.groups = [])
    (hc : s.cursor.rest = '\n' :: k) :
    ∃ u t, Lexes limit s [u] t ∧ u.item = lineEndToken.item ∧ t.groups = []
      ∧ t.cursor.rest = k := by
  have hgap : gap false s.groups s.cursor = 0 := by
    rw [gap, hg, hc]
    rfl
  have hcut : Cut (TextSnippet limit) false s.groups s.spaced s.cursor
      (.between .newline "\n" (s.spaced || gap false s.groups s.cursor != 0) []
        (s.cursor.forward (gap false s.groups s.cursor)) (s.cursor.forward 1))
      (s.cursor.forward 1) := by
    refine .mk ?_
    rw [hgap]
    exact .lineEnd hc
  obtain ⟨t, ht, hne, hd, hgroups, -⟩ := textToken_of_cut hcut
  refine ⟨_, t, .cons ht hne (.nil t), ?_, ?_, ?_⟩
  · rw [Token.item_between, lineEndToken, Token.item]
  · rw [hgroups, hg]
    rfl
  · rw [hd, Cursor.rest_forward, hc]
    rfl

/-- The tokens on several lines are read. -/
theorem Spread.lexes {limit : Int} {s : Lexer} (h : Spread limit.toNat ts w k)
    (hg : s.groups = []) (hc : s.cursor.rest = w ++ k) :
    ∃ us t, Lexes limit s us t ∧ Token.items us = Token.items ts ∧ t.groups = []
      ∧ t.cursor.rest = k := by
  induction h generalizing s with
  | last hb h => exact h.lexes hb hg hc
  | @line ts us v w k hb h _ ih =>
    rw [List.append_assoc, List.cons_append] at hc
    obtain ⟨vs, t, hvs, hitems, hgt, hct⟩ := h.lexes hb hg hc
    obtain ⟨u, t', hu, hitem, hgt', hct'⟩ := @lexes_lineEnd _ limit t hgt hct
    obtain ⟨ws, t'', hws, hitems', hgt'', hct''⟩ := ih hgt' hct'
    refine ⟨vs ++ u :: ws, t'', hvs.trans (hu.trans hws), ?_, hgt'', hct''⟩
    rw [Token.items_append, Token.items_append, Token.items_cons, Token.items_cons, hitems,
      hitem, hitems']

end

end StpLang
