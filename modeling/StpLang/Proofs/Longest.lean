import Mathlib.Data.Bool.AllAny
import StpLang.Proofs.Lex.Throughout

/-!
Every token is as long as it can be.

Whatever the lexer cuts off, in the text or in a snippet, is the longest lexeme that
begins at its place, and its kind is the one that its spelling asks for.

* `Token.Longest` says so of a token in its text.
* `Spells.word_iff` and `Spells.number_iff` tell the words and the numbers by their
  spelling.
* `Scan.operator?_longest` and `Scan.numberLength_ends` tell where operators and numbers
  end.
* `tokenize_longest` is the result for all tokens of a text.
-/

namespace StpLang

open Lexer

/-! ### Words and what surrounds them -/

/-- A letter or an underscore, and letters, digits and underscores behind it. -/
inductive IsWord : List Char → Prop
  | mk {x : Char} {w : List Char} (first : x.isAlpha = true ∨ x = '_')
      (more : ∀ y ∈ w, y.isAlphanum = true ∨ y = '_') : IsWord (x :: w)

/-- A blank or a tab stands right before an offset. -/
def BlankBehind (cs : List Char) (i : Nat) : Prop :=
  (cs.take i).getLast? = some ' ' ∨ (cs.take i).getLast? = some '\t'

/-- White space, a line end or the backslash of a continued line is ahead. -/
inductive SpaceAhead : List Char → Prop
  | blank {x : Char} {k : List Char} (hx : x = ' ' ∨ x = '\t' ∨ x = '\r' ∨ x = '\n') :
      SpaceAhead (x :: k)
  | continuation {k : List Char} : SpaceAhead ('\\' :: '\n' :: k)
  | returnContinuation {k : List Char} : SpaceAhead ('\\' :: '\r' :: '\n' :: k)

/-- The token of the text `cs` is the longest of its sort and has the right kind. -/
structure Token.Longest (cs : List Char) (t : Token) : Prop where
  /-- The words are the tokens that have the shape of one. -/
  word : t.kind ∈ TokenKind.words ↔ IsWord t.value.toList
  /-- Behind a word stands no character with which it could go on. -/
  wordEnds : t.kind ∈ TokenKind.words →
    ∀ x ∈ (cs.drop t.stop).head?, x.isAlphanum = false ∧ x ≠ '_'
  /-- The keywords are the reserved words. -/
  keyword : ∀ k ∈ TokenKind.keywords.map (·.2),
    t.kind = k ↔ (t.value, k) ∈ TokenKind.keywords
  /-- The operator `mod` is the word between white space. -/
  mod : t.kind = .mod ↔
    t.value = "mod" ∧ BlankBehind cs t.start ∧ SpaceAhead (cs.drop t.stop)
  /-- The numbers are the tokens that have the shape of one. -/
  number : t.kind = .number ↔ Numeral t.value.toList
  /-- Behind a number stands neither a digit nor, if it has no fraction, one. -/
  numberEnds : t.kind = .number → (∀ x ∈ (cs.drop t.stop).head?, x.isDigit = false)
    ∧ ('.' ∉ t.value.toList → ∀ x k, cs.drop t.stop = '.' :: x :: k → x.isDigit = false)
  /-- An operator is the longest at its place. -/
  operator : t.kind ∈ TokenKind.operators.map (·.2) →
    (t.value, t.kind) ∈ TokenKind.operators ∧ t.value.toList <+: cs.drop t.start
      ∧ ∀ o ∈ TokenKind.operators, o.1.toList <+: cs.drop t.start → o.1.length ≤ t.value.length
  /-- A comment reaches to the next line end, or to the end of the text. -/
  comment : t.kind = .comment → (cs.drop t.start).head? = some '#'
    ∧ '\n' ∉ Text.slice cs t.start t.stop ∧ ∀ x ∈ (cs.drop t.stop).head?, x = '\n'

/-! ### Kinds by their spelling -/

lemma IsWord.starts {x : Char} {w : List Char} (h : IsWord (x :: w)) :
    Scan.startsWord x = true := by
  cases h with
  | mk first => simpa [Scan.startsWord] using first

lemma IsWord.ne_nil {w : List Char} (h : IsWord w) : w ≠ [] := by
  cases h
  exact List.cons_ne_nil _ _

lemma Numeral.starts {w : List Char} (h : Numeral w) : ∃ x k, w = x :: k ∧ x.isDigit = true := by
  have hhead {v : List Char} (hne : v ≠ []) (hv : ∀ x ∈ v, x.isDigit = true) :
      ∃ x k, v = x :: k ∧ x.isDigit = true := by
    obtain ⟨x, k, rfl⟩ := List.exists_cons_of_ne_nil hne
    exact ⟨x, k, rfl, hv x List.mem_cons_self⟩
  cases h with
  | whole hne hw => exact hhead hne hw
  | fraction hne hw _ _ =>
    obtain ⟨x, k, rfl, hx⟩ := hhead hne hw
    exact ⟨x, _, rfl, hx⟩

/-- The first character of an operator begins neither a word nor a number. -/
lemma TokenKind.operator_starts {o : String × TokenKind} (ho : o ∈ operators) :
    ∃ x w, o.1.toList = x :: w ∧ Scan.startsWord x = false ∧ x.isDigit = false := by
  have hall : ∀ o ∈ operators, (o.1.toList.head?.any fun x =>
      !Scan.startsWord x && !x.isDigit) = true := by decide
  have hx := hall o ho
  cases hs : o.1.toList with
  | nil =>
    rw [hs] at hx
    cases hx
  | cons x w =>
    rw [hs] at hx
    simp only [List.head?_cons, Option.any_some, Bool.and_eq_true, Bool.not_eq_true'] at hx
    exact ⟨x, w, rfl, hx⟩

lemma TokenKind.isWord_of_mem {o : String × TokenKind} (ho : o ∈ keywords) : IsWord o.1.toList := by
  have hall : ∀ o ∈ keywords, (o.1.toList.head?.any Char.isAlpha
      && o.1.toList.tail.all Char.isAlphanum) = true := by decide
  have hx := hall o ho
  cases hs : o.1.toList with
  | nil =>
    rw [hs] at hx
    cases hx
  | cons x w =>
    rw [hs] at hx
    simp only [List.head?_cons, Option.any_some, List.tail_cons, Bool.and_eq_true,
      List.all_eq_true] at hx
    exact .mk (.inl hx.1) fun y hy => .inl (hx.2 y hy)

section

variable {P : List Token → Prop} {kind : TokenKind} {value : String}
  {segs : List (Segment Token)}

/-- A word is spelled as one, and nothing else is. -/
lemma Spells.word_iff (h : Spells P kind value segs) :
    kind ∈ TokenKind.words ↔ IsWord value.toList := by
  have hop : ∀ o ∈ TokenKind.operators, o.2 ∉ TokenKind.words := by decide
  have hother {x : Char} {w : List Char} (hv : value.toList = x :: w)
      (hx : Scan.startsWord x = false) : ¬IsWord value.toList := by
    rw [hv]
    exact fun hw => absurd hw.starts (by rw [hx]; exact Bool.false_ne_true)
  cases h with
  | lineEnd => exact iff_of_false (by decide) (hother rfl rfl)
  | comment =>
    exact iff_of_false (show TokenKind.comment ∉ TokenKind.words by decide)
      (hother (String.toList_ofList ..) rfl)
  | word hx hw hk =>
    refine iff_of_true (TokenKind.mem_words hk) ?_
    rw [String.toList_ofList]
    simp only [Scan.startsWord, Scan.continuesWord, Bool.or_eq_true, decide_eq_true_eq] at hx hw
    exact .mk hx hw
  | number hw =>
    obtain ⟨x, k, rfl, hx⟩ := hw.starts
    exact iff_of_false (show TokenKind.number ∉ TokenKind.words by decide)
      (hother (String.toList_ofList ..) (Scan.startsWord_digit hx))
  | string hv =>
    exact iff_of_false (show TokenKind.string ∉ TokenKind.words by decide) (hother hv rfl)
  | operator h =>
    obtain ⟨x, w, hv, hx, -⟩ := TokenKind.operator_starts h
    exact iff_of_false (hop _ h) (hother hv hx)

/-- A number is spelled as one, and nothing else is. -/
lemma Spells.number_iff (h : Spells P kind value segs) :
    kind = .number ↔ Numeral value.toList := by
  have hop : ∀ o ∈ TokenKind.operators, o.2 ≠ .number := by decide
  have hwords : TokenKind.number ∉ TokenKind.words := by decide
  have hother {x : Char} {w : List Char} (hv : value.toList = x :: w)
      (hx : x.isDigit = false) : ¬Numeral value.toList := by
    intro hn
    obtain ⟨y, k, hy, hd⟩ := hn.starts
    rw [hv] at hy
    rw [← (List.cons.inj hy).1, hx] at hd
    cases hd
  cases h with
  | lineEnd => exact iff_of_false (by decide) (hother rfl rfl)
  | comment => exact iff_of_false (by decide) (hother (String.toList_ofList ..) rfl)
  | word hx hw hk =>
    refine iff_of_false (fun hn => hwords (hn ▸ TokenKind.mem_words hk))
      (hother (String.toList_ofList ..) ?_)
    exact Bool.eq_false_iff.mpr fun hd =>
      absurd hx (by rw [Scan.startsWord_digit hd]; exact Bool.false_ne_true)
  | number hw => exact iff_of_true rfl (by rwa [String.toList_ofList])
  | string hv => exact iff_of_false (by decide) (hother hv rfl)
  | operator h =>
    obtain ⟨x, w, hv, -, hx⟩ := TokenKind.operator_starts h
    exact iff_of_false (hop _ h) (hother hv hx)

/-- A word is `mod`, or the kind of its spelling decides. -/
lemma Spells.word_inv (h : Spells P kind value segs) (hk : kind ∈ TokenKind.words) :
    kind = .ofWord value ∨ (kind = .mod ∧ value = "mod") := by
  have hop : ∀ o ∈ TokenKind.operators, o.2 ∉ TokenKind.words := by decide
  cases h with
  | word _ _ hk => exact hk
  | operator h => exact absurd hk (hop _ h)
  | _ => exact absurd hk (by decide)

/-- A keyword is spelled as one, and nothing else is. -/
lemma Spells.keyword_iff (h : Spells P kind value segs) {k : TokenKind}
    (hk : k ∈ TokenKind.keywords.map (·.2)) : kind = k ↔ (value, k) ∈ TokenKind.keywords := by
  have hwords : ∀ k ∈ TokenKind.keywords.map (·.2), k ∈ TokenKind.words
      ∧ k ≠ .identifier ∧ k ≠ .mod := by decide
  have hkey : ∀ o ∈ TokenKind.keywords, TokenKind.ofWord o.1 = o.2 ∧ o.1 ≠ "mod" := by decide
  obtain ⟨hword, hname, hmod⟩ := hwords k hk
  by_cases hw : kind ∈ TokenKind.words
  · rcases h.word_inv hw with rfl | ⟨rfl, rfl⟩
    · constructor
      · rintro rfl
        exact (TokenKind.ofWord_or _).resolve_left hname
      · exact fun hmem => (hkey _ hmem).1
    · exact iff_of_false hmod.symm fun hmem => (hkey _ hmem).2 rfl
  · exact iff_of_false (fun he => hw (he ▸ hword))
      fun hmem => hw (h.word_iff.mpr (TokenKind.isWord_of_mem hmem))

end

/-! ### Where lexemes end -/

namespace Scan

lemma eq_take_of_operatorOfLength? {cs : List Char} {n : Nat} {o : String × TokenKind}
    (h : operatorOfLength? cs n = some o) : o.1.toList = cs.take n := by
  unfold operatorOfLength? at h
  have heq := List.find?_some h
  exact eq_of_beq heq

/-- No operator of a length begins the text unless one of that length is found. -/
lemma operatorOfLength?_ne_none {cs : List Char} {o : String × TokenKind}
    (ho : o ∈ TokenKind.operators) (h : o.1.toList <+: cs) :
    operatorOfLength? cs o.1.length ≠ none := by
  intro hnone
  refine List.find?_eq_none.mp hnone o ho ?_
  rw [beq_iff_eq, ← String.length_toList]
  exact List.prefix_iff_eq_take.mp h

/-- The operator that is found begins the text, and no longer one does. -/
lemma operator?_longest {cs : List Char} {spelling : String} {kind : TokenKind}
    (h : operator? cs = some (spelling, kind)) :
    ∀ o ∈ TokenKind.operators, o.1.toList <+: cs → o.1.length ≤ spelling.length := by
  have hlen : ∀ o ∈ TokenKind.operators, o.1.length ∈ [3, 2, 1] := by decide
  intro o ho hpre
  have hsome := operatorOfLength?_ne_none ho hpre
  -- an operator found among the first `n` characters is as long as any that fits there
  have hfits {n : Nat} (hn : operatorOfLength? cs n = some (spelling, kind))
      (hle : o.1.length ≤ n) : o.1.length ≤ spelling.length := by
    have hspelling := eq_take_of_operatorOfLength? hn
    have := hpre.length_le
    rw [← String.length_toList (s := spelling), hspelling, List.length_take]
    rw [String.length_toList] at this
    omega
  obtain ⟨l, n, l', hl, hn, hbefore⟩ := List.findSome?_eq_some_iff.mp h
  have hout : o.1.length ∉ l := fun hmem => hsome (hbefore _ hmem)
  refine hfits hn ?_
  have hmem := hlen o ho
  rw [hl, List.mem_append] at hmem
  have hmem := hmem.resolve_left hout
  have hdesc : (n :: l').Pairwise (· > ·) :=
    ((List.pairwise_append.mp (hl ▸ (by decide : [3, 2, 1].Pairwise (· > ·)))).2.1)
  rcases List.mem_cons.mp hmem with he | hmem
  · exact Nat.le_of_eq he
  · exact Nat.le_of_lt (List.rel_of_pairwise_cons hdesc hmem)

/-- White space ahead, as the lexer sees it. -/
lemma startsWithSpace_iff {k : List Char} : startsWithSpace k = true ↔ SpaceAhead k := by
  constructor
  · intro h
    cases k with
    | nil => cases h
    | cons x k =>
      simp only [startsWithSpace, Bool.or_eq_true, decide_eq_true_eq, or_assoc] at h
      rcases h with h | h | h | h | h
      · exact .blank (.inl h)
      · exact .blank (.inr (.inl h))
      · exact .blank (.inr (.inr (.inl h)))
      · exact .blank (.inr (.inr (.inr h)))
      · unfold isContinuation at h
        split at h
        · rename_i hk
          rw [hk]
          exact .continuation
        · rename_i hk
          rw [hk]
          exact .returnContinuation
        · cases h
  · intro h
    cases h with
    | blank hx => rcases hx with rfl | rfl | rfl | rfl <;> rfl
    | _ => rfl

/-- A dot before a digit begins a fraction. -/
lemma isDigit_of_fractionLength {k : List Char} {x : Char}
    (h : fractionLength ('.' :: x :: k) = 0) : x.isDigit = false := by
  rw [Bool.eq_false_iff]
  intro hx
  have hpos : digitsLength (x :: k) ≠ 0 := by simp [digitsLength, hx]
  rw [fractionLength, if_neg hpos] at h
  omega

/-- A fraction is a dot and all the digits behind it. -/
lemma fractionLength_inv {r : List Char} (h : fractionLength r ≠ 0) :
    ∃ k, r = '.' :: k ∧ fractionLength r = digitsLength k + 1 := by
  unfold fractionLength at h ⊢
  split at h
  · rename_i k
    refine ⟨k, rfl, ?_⟩
    split at h
    · exact absurd rfl h
    · rename_i hk
      rw [if_neg hk, Nat.add_comm]
  · exact absurd rfl h

/-- Behind a number stands nothing with which it could go on. -/
lemma numberLength_ends (cs : List Char) :
    (∀ x ∈ (cs.drop (numberLength cs)).head?, x.isDigit = false)
      ∧ ('.' ∉ cs.take (numberLength cs) →
        ∀ x k, cs.drop (numberLength cs) = '.' :: x :: k → x.isDigit = false) := by
  have hwhole : cs.drop (digitsLength cs) = cs.dropWhile Char.isDigit := drop_takeWhile _ _
  rw [numberLength, ← List.drop_drop, List.take_add, hwhole]
  generalize hr : cs.dropWhile Char.isDigit = r
  by_cases hf : fractionLength r = 0
  · rw [hf, List.drop_zero]
    refine ⟨hr ▸ head?_dropWhile Char.isDigit cs, fun _ x k hk => ?_⟩
    rw [hk] at hf
    exact isDigit_of_fractionLength hf
  · obtain ⟨k, rfl, hlen⟩ := fractionLength_inv hf
    rw [hlen, List.drop_succ_cons, List.take_succ_cons]
    refine ⟨?_, fun hdot => absurd ?_ hdot⟩
    · rw [digitsLength, drop_takeWhile]
      exact head?_dropWhile _ _
    · exact List.mem_append_right _ List.mem_cons_self

end Scan

/-! ### Tokens -/

section

variable {cs : List Char} {c d : Cursor} {n : Nat} {kind : TokenKind} {value : String}
  {segs : List (Segment Token)}

/-- The character before a cursor, as the lexer sees it. -/
lemma Cursor.In.blankBehind_iff (hc : c.In cs) :
    Scan.endsWithBlank c.past = true ↔ BlankBehind cs c.pos := by
  have htake : cs.take c.pos = c.past.reverse := by
    rw [← hc.text, hc.pos, List.take_left' (by rw [List.length_reverse])]
  rw [BlankBehind, htake, List.getLast?_reverse]
  unfold Scan.endsWithBlank
  split
  · rename_i hp
    rw [hp]
    exact iff_of_true rfl (.inl rfl)
  · rename_i hp
    rw [hp]
    exact iff_of_true rfl (.inr rfl)
  · rename_i hblank htab
    refine iff_of_false Bool.false_ne_true ?_
    simp only [List.head?_eq_some_iff, not_or, not_exists]
    exact ⟨hblank, htab⟩

/-- The word `mod` is the operator between white space and nowhere else. -/
lemma Lexeme.mod_iff (h : Lexeme (SnippetAt n) c kind value segs d) (hc : c.In cs) :
    kind = .mod ↔ value = "mod" ∧ BlankBehind cs c.pos ∧ SpaceAhead (cs.drop d.pos) := by
  have hmod : ∀ w, TokenKind.ofWord w ≠ .mod := by
    have hkey : ∀ o ∈ TokenKind.keywords, o.2 ≠ .mod := by decide
    intro w
    rcases TokenKind.ofWord_or w with hw | hw
    · rw [hw]
      decide
    · exact hkey _ hw
  have hd := (h.before (SnippetAt.moves n)).ahead.in_ hc
  rw [hd.drop, ← hc.blankBehind_iff, ← Scan.startsWithSpace_iff]
  by_cases hw : kind ∈ TokenKind.words
  · have hop : ∀ o ∈ TokenKind.operators, o.2 ∉ TokenKind.words := by decide
    cases h with
    | word =>
      rw [Cursor.rest_forward]
      unfold wordKind
      simp only [← and_assoc]
      split
      · rename_i hboth
        simp only [Bool.and_eq_true, beq_iff_eq] at hboth
        exact iff_of_true rfl hboth
      · rename_i hnot
        simp only [Bool.and_eq_true, beq_iff_eq] at hnot
        exact iff_of_false (hmod _) hnot
    | operator h => exact absurd hw (hop _ (Scan.operator?_inv h).1)
    | _ => exact absurd hw (by decide)
  · have hspells := h.spells (SnippetAt.moves n) (SnippetAt.spelled n)
    refine iff_of_false (fun he => hw (by rw [he]; decide)) fun hv => hw ?_
    rw [hspells.word_iff, hv.1]
    exact .mk (.inl rfl) (List.all_iff_forall_prop.mp (by decide))

/-- A word ends where no character goes on with it. -/
lemma Lexeme.word_ends {R : SnippetRel} (h : Lexeme R c kind value segs d)
    (hk : kind ∈ TokenKind.words) : ∀ x ∈ d.rest.head?, x.isAlphanum = false ∧ x ≠ '_' := by
  have hop : ∀ o ∈ TokenKind.operators, o.2 ∉ TokenKind.words := by decide
  cases h with
  | word =>
    intro x hx
    rw [Cursor.rest_forward, Scan.wordLength, Scan.drop_takeWhile] at hx
    simpa [Scan.continuesWord] using Scan.head?_dropWhile _ _ x hx
  | operator h => exact absurd hk (hop _ (Scan.operator?_inv h).1)
  | _ => exact absurd hk (by decide)

/-- A number ends where neither a digit nor its first fraction follows. -/
lemma Lexeme.number_ends {R : SnippetRel} (h : Lexeme R c kind value segs d)
    (hk : kind = .number) : (∀ x ∈ d.rest.head?, x.isDigit = false)
      ∧ ('.' ∉ value.toList → ∀ x k, d.rest = '.' :: x :: k → x.isDigit = false) := by
  have hop : ∀ o ∈ TokenKind.operators, o.2 ≠ .number := by decide
  cases h with
  | number =>
    rw [Cursor.rest_forward, String.toList_ofList]
    exact Scan.numberLength_ends c.rest
  | word => exact absurd (hk ▸ wordKind_mem _ _ _) (by decide)
  | operator h => exact absurd hk (hop _ (Scan.operator?_inv h).1)
  | _ => cases hk

/-- An operator is the longest that begins what is ahead. -/
lemma Lexeme.operator_longest {R : SnippetRel} (h : Lexeme R c kind value segs d)
    (hk : kind ∈ TokenKind.operators.map (·.2)) :
    (value, kind) ∈ TokenKind.operators ∧ value.toList <+: c.rest
      ∧ ∀ o ∈ TokenKind.operators, o.1.toList <+: c.rest → o.1.length ≤ value.length := by
  have hwords : ∀ k ∈ TokenKind.words, k ∉ TokenKind.operators.map (·.2) := by decide
  cases h with
  | operator h =>
    obtain ⟨hmem, k, hrest⟩ := Scan.operator?_inv h
    exact ⟨hmem, ⟨k, hrest.symm⟩, Scan.operator?_longest h⟩
  | word => exact absurd hk (hwords _ (wordKind_mem _ _ _))
  | _ => exact absurd hk (by decide)

/-- A comment ends before the next line end. -/
lemma Lexeme.comment_ends {R : SnippetRel} (h : Lexeme R c kind value segs d)
    (hk : kind = .comment) : ∃ m ≤ c.rest.length, d = c.forward m ∧ c.rest.head? = some '#'
      ∧ '\n' ∉ c.rest.take m ∧ ∀ x ∈ d.rest.head?, x = '\n' := by
  have hop : ∀ o ∈ TokenKind.operators, o.2 ≠ .comment := by decide
  cases h with
  | comment h =>
    refine ⟨Scan.lineLength c.rest, (List.takeWhile_sublist _).length_le, rfl, ?_, ?_, ?_⟩
    · rw [h, List.head?_cons]
    · rw [Scan.lineLength, Scan.take_takeWhile]
      exact fun hmem => absurd (Scan.forall_mem_takeWhile _ _ _ hmem) (by decide)
    · intro x hx
      rw [Cursor.rest_forward, Scan.lineLength, Scan.drop_takeWhile] at hx
      simpa using Scan.head?_dropWhile _ _ x hx
  | word => exact absurd (hk ▸ wordKind_mem _ _ _) (by decide)
  | operator h => exact absurd hk (hop _ (Scan.operator?_inv h).1)
  | _ => cases hk

/-- What is cut off is as long as it can be, and of the right kind. -/
lemma Lexeme.longest (h : Lexeme (SnippetAt n) c kind value segs d) (hc : c.In cs)
    (spaced : Bool) : (Token.between kind value spaced segs c d).Longest cs := by
  have hspells := h.spells (SnippetAt.moves n) (SnippetAt.spelled n)
  have hd : cs.drop d.pos = d.rest := ((h.before (SnippetAt.moves n)).ahead.in_ hc).drop
  refine
    { word := hspells.word_iff
      wordEnds := fun hk => ?_
      keyword := fun k hk => hspells.keyword_iff hk
      mod := h.mod_iff hc
      number := hspells.number_iff
      numberEnds := fun hk => ?_
      operator := fun hk => ?_
      comment := fun hk => ?_ }
  · show ∀ x ∈ (cs.drop d.pos).head?, _
    rw [hd]
    exact h.word_ends hk
  · show (∀ x ∈ (cs.drop d.pos).head?, _) ∧ (_ → ∀ x k, cs.drop d.pos = _ → _)
    rw [hd]
    exact h.number_ends hk
  · show _ ∧ _ <+: cs.drop c.pos ∧ ∀ o ∈ _, _ <+: cs.drop c.pos → _
    rw [hc.drop]
    exact h.operator_longest hk
  · obtain ⟨m, hm, rfl, hhead, hline, hend⟩ := h.comment_ends hk
    show (cs.drop c.pos).head? = _ ∧ _ ∉ Text.slice cs c.pos (c.forward m).pos
      ∧ ∀ x ∈ (cs.drop (c.forward m).pos).head?, _
    rw [hd, hc.drop, hc.slice hm]
    exact ⟨hhead, hline, hend⟩

/-- An end mark is spelled like no other token. -/
lemma longest_eof (spaced : Bool) :
    Token.Longest cs { Token.eofAt c.line c.col c.pos with spaced } := by
  have hkeyword : ∀ k ∈ TokenKind.keywords.map (·.2),
      TokenKind.eof ≠ k ∧ ("", k) ∉ TokenKind.keywords := by decide
  exact
    { word := iff_of_false (show TokenKind.eof ∉ TokenKind.words by decide)
        fun h => h.ne_nil rfl
      wordEnds := fun hk => absurd hk (show TokenKind.eof ∉ TokenKind.words by decide)
      keyword := fun k hk => iff_of_false (hkeyword k hk).1 (hkeyword k hk).2
      mod := iff_of_false (by rintro ⟨⟩) fun h => absurd h.1 (show "" ≠ "mod" by decide)
      number := iff_of_false (by rintro ⟨⟩) fun h => by
        obtain ⟨x, k, hk, -⟩ := h.starts
        cases hk
      numberEnds := by rintro ⟨⟩
      operator := fun hk => absurd hk
        (show TokenKind.eof ∉ TokenKind.operators.map (·.2) by decide)
      comment := by rintro ⟨⟩ }

end

/-- **Tokens are maximal and rightly classified.** Every token of a text, those in its
snippets included, is the longest lexeme at its place: a word, a number, an operator or a
comment could not go on, and its kind is the one that its spelling and, for `mod`, the
white space around it ask for. -/
theorem tokenize_longest {source : String} {limit : Int} {ts : List Token}
    (h : tokenize source limit = .ok ts) :
    ∀ u ∈ ts.flatMap Token.walk, u.Longest source.toList :=
  (⟨fun spaced h hc => h.longest hc spaced, fun spaced _ => longest_eof spaced⟩ :
    Lexical source.toList (Token.Longest source.toList)).tokenize h

/-- Ranges, a pointwise product, the operator `mod` and a name of this spelling, in a
snippet too. -/
theorem tokenize_longest_range :
    ∃ ts, tokenize "1...2 if.mod mod\\\n\"\\\x7b1.*x<=iff\\\x7d\"#.." 1 = .ok ts
      ∧ (ts.flatMap Token.walk).map (·.kind) =
        [.number, .ellipsis, .number, .kwIf, .dot, .identifier, .mod, .string, .number,
          .dotTimes, .identifier, .lessEqual, .identifier, .eof, .comment, .eof]
      ∧ ∀ u ∈ ts.flatMap Token.walk,
        u.Longest "1...2 if.mod mod\\\n\"\\\x7b1.*x<=iff\\\x7d\"#..".toList := by
  obtain ⟨ts, hts, hkinds⟩ := exists_of_map_toOption (show
    (tokenize "1...2 if.mod mod\\\n\"\\\x7b1.*x<=iff\\\x7d\"#.." 1).toOption.map
      (fun ts => (ts.flatMap Token.walk).map (·.kind)) = some
        [.number, .ellipsis, .number, .kwIf, .dot, .identifier, .mod, .string, .number,
          .dotTimes, .identifier, .lessEqual, .identifier, .eof, .comment, .eof] by
      decide +kernel)
  exact ⟨ts, hts, hkinds, tokenize_longest hts⟩

end StpLang
