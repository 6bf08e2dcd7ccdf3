import StpLang.Proofs.Longest
import StpLang.Proofs.Session

/-!
Counting the delimiters of a line.

A session counts the delimiters of a line without cutting it into tokens: it only knows
strings, their escapes and comments. On a line that can be cut into tokens it finds what
the tokens say, as long as it does not take the strings within snippets for what they
are not: for the counter such a string stands outside, and the snippet around it ends
with the next quote.

* `netOpened` counts the delimiters among tokens.
* `Counts` says what the counter makes of the text between two places.
* `Pieces.counts_inside` and `SnippetTokens.counts` go through a string, `Cut.counts` is
  the step from one token of a line to the next.
* `openDelimiters_eq` is the result, `delimiter_miscounted` a line where it fails.
-/

namespace StpLang

open Lexer

/-! ### Counting tokens -/

/-- The opening less the closing delimiters among some tokens. -/
def netOpened (ts : List Token) : Int :=
  (ts.countP (·.kind.closer?.isSome) : Int) - ts.countP (·.kind.isCloser)

/-- What a token of a kind adds to the open delimiters. -/
def TokenKind.opened (kind : TokenKind) : Int :=
  if kind.closer?.isSome then 1 else if kind.isCloser then -1 else 0

lemma netOpened_cons (t : Token) (ts : List Token) :
    netOpened (t :: ts) = t.kind.opened + netOpened ts := by
  have hone : t.kind.isCloser = true → t.kind.closer?.isSome = false := by
    cases t.kind <;> simp [TokenKind.isCloser, TokenKind.closer?]
  simp only [netOpened, TokenKind.opened, List.countP_cons]
  by_cases ho : t.kind.closer?.isSome = true
  · have hc : t.kind.isCloser = false := by
      rw [Bool.eq_false_iff]
      exact fun hc => by rw [hone hc] at ho; cases ho
    simp only [ho, hc, if_pos, Bool.false_eq_true, if_false]
    omega
  · by_cases hc : t.kind.isCloser = true
    · simp only [ho, hc, if_pos, Bool.false_eq_true, if_false]
      omega
    · simp only [ho, hc, Bool.false_eq_true, if_false]
      omega

lemma netOpened_append (ts us : List Token) :
    netOpened (ts ++ us) = netOpened ts + netOpened us := by
  simp only [netOpened, List.countP_append]
  omega

/-! ### Passing over text -/

/-- The marks that the counter looks for outside strings, but for the quote. -/
def countedMarks : List Char := ['#', '(', ')', '[', ']', '{', '}']

/-- No string among the tokens holds a delimiter, a number sign or a backslash. -/
def PlainStrings (ts : List Token) : Prop :=
  ∀ u ∈ ts, u.kind = .string → ∀ x ∈ u.value.toList, x ∉ '\\' :: countedMarks

/-- Between two places the counter finds no delimiter and goes from one state to
another. -/
def Counts (q : Quoting) (c : Cursor) (q' : Quoting) (d : Cursor) : Prop :=
  countDelimiters q c.rest = countDelimiters q' d.rest

section

variable {c d e : Cursor} {w k : List Char} {x : Char} {R : SnippetRel}

lemma Counts.trans {q q' q'' : Quoting} (h : Counts q c q' d) (h' : Counts q' d q'' e) :
    Counts q c q'' e := Eq.trans h h'

/-- Outside strings the counter passes over all characters but its marks. -/
lemma countDelimiters_quiet (h : ∀ x ∈ w, x ∉ '"' :: countedMarks) :
    countDelimiters .outside (w ++ k) = countDelimiters .outside k := by
  induction w with
  | nil => rfl
  | cons x w ih =>
    rw [List.forall_mem_cons] at h
    have hx := h.1
    simp only [countedMarks, List.mem_cons, not_or] at hx
    obtain ⟨hquote, hsign, hp, hp', hb, hb', hc, hc', -⟩ := hx
    rw [List.cons_append, countDelimiters, if_neg hsign, if_neg hquote,
      if_neg (by simp [hp, hb, hc]), if_neg (by simp [hp', hb', hc']), ih h.2]

/-- Inside a string it passes over all characters that stand for themselves. -/
lemma countDelimiters_plain (h : ∀ x ∈ w, Scan.isPlain x = true) :
    countDelimiters .inside (w ++ k) = countDelimiters .inside k := by
  induction w with
  | nil => rfl
  | cons x w ih =>
    rw [List.forall_mem_cons] at h
    have hx := h.1
    simp only [Scan.isPlain, Bool.and_eq_true, bne_iff_ne] at hx
    rw [List.cons_append, countDelimiters, if_neg hx.2, if_neg hx.1, ih h.2]

lemma counts_plain {n : Nat} (h : ∀ x ∈ c.rest.take n, Scan.isPlain x = true) :
    Counts .inside c .inside (c.forward n) := by
  have hsplit := countDelimiters_plain (k := c.rest.drop n) h
  rwa [List.take_append_drop, ← Cursor.rest_forward] at hsplit

lemma counts_quiet {n : Nat} (h : ∀ x ∈ c.rest.take n, x ∉ '"' :: countedMarks) :
    Counts .outside c .outside (c.forward n) := by
  have hsplit := countDelimiters_quiet (k := c.rest.drop n) h
  rwa [List.take_append_drop, ← Cursor.rest_forward] at hsplit

/-- Inside a string a backslash takes the next character with it. -/
lemma counts_escape (h : c.rest = '\\' :: x :: k) : Counts .inside c .inside (c.forward 2) := by
  rw [Counts, Cursor.rest_forward, h]
  rfl

lemma not_mem_forward (h : '\n' ∉ c.rest) (n : Nat) : '\n' ∉ (c.forward n).rest := by
  rw [Cursor.rest_forward]
  exact fun hmem => h (List.mem_of_mem_drop hmem)

lemma Cursor.Ahead.not_mem (h : c.Ahead d) (hc : '\n' ∉ c.rest) : '\n' ∉ d.rest := by
  obtain ⟨n, -, rfl⟩ := h
  exact not_mem_forward hc n

/-- Within a line white space is blanks, tabs and carriage returns. -/
lemma Blank.of_line {lineEnds : Bool} (h : Blank lineEnds w) (hw : '\n' ∉ w) :
    ∀ x ∈ w, x = ' ' ∨ x = '\t' ∨ x = '\r' := by
  induction h with
  | nil => simp
  | blank hx _ ih =>
    exact List.forall_mem_cons.mpr ⟨hx, ih fun hmem => hw (List.mem_cons_of_mem _ hmem)⟩
  | lineEnd | continuation | returnContinuation => simp at hw

lemma blank_of_gap (hc : '\n' ∉ c.rest) (inSnippet : Bool) (groups : List Token) :
    ∀ x ∈ c.rest.take (gap inSnippet groups c), x = ' ' ∨ x = '\t' ∨ x = '\r' :=
  (Scan.blank_take _ _).of_line fun hmem => hc (List.mem_of_mem_take hmem)

lemma counts_gap_inside (hc : '\n' ∉ c.rest) (inSnippet : Bool) (groups : List Token) :
    Counts .inside c .inside (c.forward (gap inSnippet groups c)) := by
  refine counts_plain fun x hx => ?_
  rcases blank_of_gap hc inSnippet groups x hx with rfl | rfl | rfl <;> rfl

lemma counts_gap_outside (hc : '\n' ∉ c.rest) (inSnippet : Bool) (groups : List Token) :
    Counts .outside c .outside (c.forward (gap inSnippet groups c)) := by
  refine counts_quiet fun x hx => ?_
  rcases blank_of_gap hc inSnippet groups x hx with rfl | rfl | rfl <;> decide

/-! ### Words, numbers and operators -/

/-- The characters of words and numbers mean nothing to the counter. -/
lemma quiet_of_continuesWord (h : Scan.continuesWord x = true ∨ x = '.') :
    x ∉ '"' :: countedMarks ∧ Scan.isPlain x = true := by
  have hmarks : ∀ y ∈ '\\' :: '"' :: countedMarks, Scan.continuesWord y = false ∧ y ≠ '.' :=
    List.all_iff_forall_prop.mp (by decide)
  have hx : x ∉ '\\' :: '"' :: countedMarks := by
    intro hmem
    obtain ⟨hword, hdot⟩ := hmarks x hmem
    rcases h with h | h
    · rw [hword] at h
      cases h
    · exact hdot h
  rw [List.mem_cons, not_or] at hx
  refine ⟨hx.2, ?_⟩
  simp only [Scan.isPlain, Bool.and_eq_true, bne_iff_ne]
  exact ⟨fun hq => hx.2 (hq ▸ List.mem_cons_self), hx.1⟩

/-- Words and numbers consist of characters that mean nothing to the counter. -/
lemma Lexeme.word_or_number {kind : TokenKind} {value : String} {segs : List (Segment Token)}
    (h : Lexeme R c kind value segs d) (hc : '\n' ∉ c.rest) (hk : kind ≠ .comment)
    (hs : kind ≠ .string) :
    (kind.opened = 0 ∧ ∃ n, d = c.forward n
        ∧ ∀ x ∈ c.rest.take n, Scan.continuesWord x = true ∨ x = '.')
      ∨ Scan.operator? c.rest = some (value, kind) ∧ d = c.forward value.length := by
  have hwords : ∀ k ∈ TokenKind.words, k.opened = 0 := by decide
  cases h with
  | lineEnd h => exact absurd (h ▸ List.mem_cons_self) hc
  | comment => exact absurd rfl hk
  | string => exact absurd rfl hs
  | word =>
    refine .inl ⟨hwords _ (wordKind_mem _ _ _), _, rfl, fun x hx => .inl ?_⟩
    rw [Scan.wordLength, Scan.take_takeWhile] at hx
    exact Scan.forall_mem_takeWhile _ _ x hx
  | number h hd =>
    refine .inl ⟨rfl, _, rfl, fun x hx => ?_⟩
    rw [h] at hx
    refine ((Scan.numeral_take hd).mem hx).imp_left fun hx => ?_
    simp [Scan.continuesWord, Char.isAlphanum, hx]
  | operator h => exact .inr ⟨h, rfl⟩

lemma Lexeme.counts_inside {kind : TokenKind} {value : String} {segs : List (Segment Token)}
    (h : Lexeme R c kind value segs d) (hc : '\n' ∉ c.rest) (hk : kind ≠ .comment)
    (hs : kind ≠ .string) : Counts .inside c .inside d := by
  have hop : ∀ o ∈ TokenKind.operators, o.1.toList.all Scan.isPlain = true := by decide
  rcases h.word_or_number hc hk hs with ⟨-, n, rfl, hn⟩ | ⟨ho, rfl⟩
  · exact counts_plain fun x hx => (quiet_of_continuesWord (hn x hx)).2
  · obtain ⟨hmem, k, hrest⟩ := Scan.operator?_inv ho
    refine counts_plain fun x hx => List.all_eq_true.mp (hop _ hmem) x ?_
    rwa [hrest, ← String.length_toList, List.take_left] at hx

lemma Lexeme.counts_outside {kind : TokenKind} {value : String} {segs : List (Segment Token)}
    (h : Lexeme R c kind value segs d) (hc : '\n' ∉ c.rest) (hk : kind ≠ .comment)
    (hs : kind ≠ .string) :
    countDelimiters .outside c.rest = kind.opened + countDelimiters .outside d.rest := by
  have hop : ∀ o ∈ TokenKind.operators,
      (o.2.opened = 0 ∧ o.1.toList.all (· ∉ '"' :: countedMarks) = true)
        ∨ (o.2.opened = 1 ∧ o.1.toList ∈ ['(', '[', '{'].map ([·]))
        ∨ (o.2.opened = -1 ∧ o.1.toList ∈ [')', ']', '}'].map ([·])) := by
    decide
  rcases h.word_or_number hc hk hs with ⟨ho, n, rfl, hn⟩ | ⟨ho, rfl⟩
  · rw [ho, Int.zero_add]
    exact counts_quiet fun x hx => (quiet_of_continuesWord (hn x hx)).1
  · obtain ⟨hmem, k, hrest⟩ := Scan.operator?_inv ho
    rw [Cursor.rest_forward, hrest, ← String.length_toList, List.drop_left]
    rcases hop _ hmem with ⟨ho, hq⟩ | ⟨ho, hv⟩ | ⟨ho, hv⟩
    · rw [ho, countDelimiters_quiet (List.all_iff_forall_prop.mp hq), Int.zero_add]
    · obtain ⟨x, hx, hv⟩ := List.mem_map.mp hv
      have hone : countDelimiters .outside (x :: k) = countDelimiters .outside k + 1 := by
        simp only [List.mem_cons, List.not_mem_nil, or_false] at hx
        rcases hx with rfl | rfl | rfl <;> rfl
      rw [ho, ← hv, List.singleton_append, hone, Int.add_comm]
    · obtain ⟨x, hx, hv⟩ := List.mem_map.mp hv
      have hone : countDelimiters .outside (x :: k) = countDelimiters .outside k - 1 := by
        simp only [List.mem_cons, List.not_mem_nil, or_false] at hx
        rcases hx with rfl | rfl | rfl <;> rfl
      rw [ho, ← hv, List.singleton_append, hone]
      omega

/-! ### Strings -/

/-- A quote begins a string, for the counter, or ends one. -/
lemma counts_quote {q q' : Quoting} (h : c.rest = '"' :: k)
    (hq : q = .outside ∧ q' = .inside ∨ q = .inside ∧ q' = .outside) :
    Counts q c q' (c.forward 1) := by
  rw [Counts, Cursor.rest_forward, h]
  rcases hq with ⟨rfl, rfl⟩ | ⟨rfl, rfl⟩ <;> rfl

/-- A string in a snippet: the counter takes its quotes for those of the string around
it. -/
lemma Pieces.counts_outside {segs : List (Segment Token)} (h : Pieces R c segs d)
    (hR : R.Moves) (hp : ∀ x ∈ (c.textTo d).toList, x ∉ '\\' :: countedMarks) :
    Counts .outside c .inside d := by
  rw [Cursor.textTo, String.toList_ofList] at hp
  induction h with
  | close h =>
    rw [Counts, Cursor.rest_forward, h]
    rfl
  | @plain c d segs x k h hx hs ih =>
    have hlt := (hs.before hR).lt
    rw [Cursor.pos_forward (List.takeWhile_sublist _).length_le] at hlt ih
    have hsplit : c.rest.take (d.pos - c.pos) = c.rest.takeWhile Scan.isPlain
        ++ (c.forward (c.rest.takeWhile Scan.isPlain).length).rest.take
          (d.pos - (c.pos + (c.rest.takeWhile Scan.isPlain).length)) := by
      rw [Cursor.rest_forward, ← Nat.sub_sub]
      conv_lhs => rw [← Nat.add_sub_cancel' (show (c.rest.takeWhile Scan.isPlain).length
        ≤ d.pos - c.pos by omega), List.take_add, Scan.take_takeWhile]
    rw [hsplit, List.forall_mem_append] at hp
    refine Counts.trans (counts_quiet fun y hy => ?_) (ih hp.2)
    rw [Scan.take_takeWhile] at hy
    have hplain := Scan.forall_mem_takeWhile _ _ y hy
    have hmarks := hp.1 y hy
    simp only [Scan.isPlain, Bool.and_eq_true, bne_iff_ne] at hplain
    rw [List.mem_cons, not_or] at hmarks ⊢
    exact ⟨hplain.1, hmarks.2⟩
  | @escape c d e form segs h hs _ =>
    obtain ⟨x, k, hk⟩ := h.starts
    have hlt := ((h.before hR).trans (hs.before hR)).lt
    refine absurd List.mem_cons_self (hp '\\' ?_)
    obtain ⟨m, hm⟩ : ∃ m, e.pos - c.pos = m + 1 := ⟨e.pos - c.pos - 1, by omega⟩
    rw [hm, hk, List.take_succ_cons]
    exact List.mem_cons_self

/-- A string: the counter comes to its closing quote. -/
lemma Pieces.counts_inside {segs : List (Segment Token)} (h : Pieces R c segs d) (hR : R.Moves)
    (hS : ∀ ⦃c ts d⦄, R c ts d → '\n' ∉ c.rest → PlainStrings ts → Counts .inside c .inside d)
    (hc : '\n' ∉ c.rest) (hp : PlainStrings (segs.flatMap Segment.snippetTokens)) :
    Counts .inside c .outside d := by
  induction h with
  | close h =>
    rw [Counts, Cursor.rest_forward, h]
    rfl
  | @plain c d segs x k h hx hs ih =>
    refine Counts.trans (counts_plain fun y hy => ?_) (ih (not_mem_forward hc _) hp)
    rw [Scan.take_takeWhile] at hy
    exact Scan.forall_mem_takeWhile _ _ y hy
  | @escape c d e form segs h hs ih =>
    rw [List.flatMap_cons, PlainStrings, List.forall_mem_append] at hp
    refine Counts.trans ?_ (ih ((h.before hR).ahead.not_mem hc) hp.2)
    cases h with
    | simple h => exact counts_escape h
    | @unicode k n h hn =>
      rw [Nat.add_comm, Cursor.forward_add]
      refine (counts_escape h).trans (counts_plain fun y hy => ?_)
      rw [Cursor.rest_forward, h] at hy
      exact Scan.isPlain_of_isHexDigit (Scan.hex_take hn y hy)
    | @octal k h hn =>
      obtain ⟨hlen, hdigits⟩ := Scan.octal_take hn
      cases k with
      | nil => cases hlen
      | cons x k =>
        rw [show 4 = 2 + 2 from rfl, Cursor.forward_add]
        refine (counts_escape h).trans (counts_plain fun y hy => ?_)
        rw [Cursor.rest_forward, h] at hy
        rw [List.take_succ_cons, List.forall_mem_cons] at hdigits
        exact Scan.isPlain_of_isHexDigit (Scan.isHexDigit_of_isOctalDigit (hdigits.2 y hy))
    | snippet h hs =>
      exact (counts_escape h).trans (hS hs (not_mem_forward hc _) hp.1)

/-- A comment takes the rest of its line. -/
lemma Lexeme.rest_of_comment {value : String} {segs : List (Segment Token)}
    (h : Lexeme R c .comment value segs d) (hR : R.Moves) (hc : '\n' ∉ c.rest) :
    c.rest.head? = some '#' ∧ d.rest = [] := by
  obtain ⟨m, -, -, hhead, -, hend⟩ := h.comment_ends rfl
  have hd := (h.before hR).ahead.not_mem hc
  refine ⟨hhead, ?_⟩
  cases hrest : d.rest with
  | nil => rfl
  | cons x k =>
    rw [hrest] at hd hend
    exact absurd (hend x rfl ▸ List.mem_cons_self) hd

/-- A string in a snippet, from before its opening quote on. -/
lemma Lexeme.counts_nested {value : String} {segs : List (Segment Token)}
    (h : Lexeme R c .string value segs d) (hR : R.Moves)
    (hp : ∀ x ∈ value.toList, x ∉ '\\' :: countedMarks) : Counts .inside c .inside d := by
  obtain ⟨k, hk, hpieces, rfl⟩ := h.string_inv
  refine (counts_quote hk (.inr ⟨rfl, rfl⟩)).trans
    (hpieces.counts_outside hR fun x hx => hp x ?_)
  have hpos : (c.forward 1).pos = c.pos + 1 := Cursor.pos_forward (by rw [hk]; simp)
  have hlt := (hpieces.before hR).lt
  obtain ⟨m, hm⟩ : ∃ m, d.pos - c.pos = m + 1 := ⟨d.pos - c.pos - 1, by omega⟩
  rw [Cursor.textTo, String.toList_ofList] at hx ⊢
  rw [Cursor.rest_forward, hk, hpos, show d.pos - (c.pos + 1) = m by omega] at hx
  rw [hk, hm, List.take_succ_cons]
  exact List.mem_cons_of_mem _ hx

/-- Within a snippet the counter stays in the string around it. -/
lemma SnippetTokens.counts {groups ts : List Token} {spaced : Bool}
    (h : SnippetTokens R groups spaced c ts d) (hR : R.Moves) (hc : '\n' ∉ c.rest)
    (hp : PlainStrings ts) : Counts .inside c .inside d := by
  induction h with
  | @close spaced c d k hd h =>
    subst hd
    exact (counts_gap_inside hc true []).trans (counts_escape h)
  | @more groups spaced c d e t ts h hs ih =>
    rw [PlainStrings, List.forall_mem_cons] at hp
    refine Counts.trans ?_ (ih ((h.before hR).ahead.not_mem hc) hp.2)
    obtain ⟨hlex⟩ := h
    rename_i kind value segs
    have hat := not_mem_forward hc (gap true groups c)
    refine (counts_gap_inside hc true groups).trans ?_
    by_cases hk : kind = .comment
    · -- a comment leaves nothing with which the snippet could end
      subst hk
      have hlt := (hs.before hR).rest_lt
      rw [(hlex.rest_of_comment hR hat).2] at hlt
      exact absurd hlt (Nat.not_lt_zero _)
    by_cases hstring : kind = .string
    · subst hstring
      exact hlex.counts_nested hR (hp.1 rfl)
    · exact hlex.counts_inside hat hk hstring

lemma SnippetAt.counts (allowance : Nat) ⦃c : Cursor⦄ ⦃ts : List Token⦄ ⦃d : Cursor⦄
    (h : SnippetAt allowance c ts d) (hc : '\n' ∉ c.rest) (hp : PlainStrings ts) :
    Counts .inside c .inside d := by
  cases allowance with
  | zero => exact h.elim
  | succ n => exact SnippetTokens.counts h (SnippetAt.moves n) hc hp

/-! ### Lines -/

/-- One token of a line: the counter adds what the token opens. -/
lemma Cut.counts {n : Nat} {spaced : Bool} {groups : List Token} {t : Token}
    (h : Cut (SnippetAt n) false groups spaced c t d) (hc : '\n' ∉ c.rest)
    (hp : PlainStrings t.snippetTokens) :
    countDelimiters .outside c.rest = t.kind.opened + countDelimiters .outside d.rest := by
  obtain ⟨hlex⟩ := h
  rename_i kind value segs
  have hat := not_mem_forward hc (gap false groups c)
  have hR := SnippetAt.moves n
  refine Eq.trans (counts_gap_outside hc false groups) ?_
  by_cases hk : kind = .comment
  · subst hk
    obtain ⟨hhead, hrest⟩ := hlex.rest_of_comment hR hat
    obtain ⟨k, hk⟩ := List.head?_eq_some_iff.mp hhead
    rw [hk, hrest]
    rfl
  by_cases hstring : kind = .string
  · subst hstring
    obtain ⟨k, hk, hpieces, -⟩ := hlex.string_inv
    have hstr := hpieces.counts_inside hR (SnippetAt.counts n) (not_mem_forward hat 1) hp
    exact Eq.trans (counts_quote hk (.inl ⟨rfl, rfl⟩))
      (Eq.trans hstr (Int.zero_add _).symm)
  · exact hlex.counts_outside hat hk hstring

end

/-- The leading tokens of a line. -/
lemma Lexes.counts {limit : Int} {s t : Lexer} {us : List Token} (h : Lexes limit s us t)
    (hc : '\n' ∉ s.cursor.rest) (hp : ∀ u ∈ us, PlainStrings u.snippetTokens) :
    countDelimiters .outside s.cursor.rest
      = netOpened us + countDelimiters .outside t.cursor.rest := by
  induction h with
  | nil => exact (Int.zero_add _).symm
  | cons h hu hs ih =>
    have hcut := (textToken_cut h hu).1
    rw [List.forall_mem_cons] at hp
    rw [hcut.counts hc hp.1, netOpened_cons,
      ih ((hcut.before (SnippetAt.moves _)).ahead.not_mem hc) hp.2, Int.add_assoc]

/-- **A session counts the delimiters that the tokens of a line leave open**, as long as
no string in a snippet of the line holds a delimiter, a number sign or a backslash. Then
the line leaves an entry open if its tokens open more than they close, or if it ends with
a backslash, and in no other case. -/
theorem openDelimiters_eq {line : String} {limit : Int} {ts : List Token}
    (hline : '\n' ∉ line.toList) (h : tokenize line limit = .ok ts)
    (hp : ∀ u ∈ ts, PlainStrings u.snippetTokens) :
    openDelimiters line = netOpened ts
      ∧ (leavesOpen [line] = true ↔ 0 < netOpened ts ∨ line.toList.getLast? = some '\\') := by
  have hcount : openDelimiters line = netOpened ts := by
    obtain ⟨us, e, t, v, rfl, hus, he, hk⟩ := lexes_of_tokenize h
    have hlexes := hus.counts hline fun u hu => hp u (List.mem_append_left _ hu)
    -- past the last token there is only white space
    have hend := counts_gap_outside (hus.ahead.not_mem hline) false t.groups
    rw [Counts, rest_of_eof he hk] at hend
    have hzero : netOpened [e] = 0 := by
      rw [netOpened_cons, hk]
      rfl
    rw [hend] at hlexes
    rw [netOpened_append, hzero]
    exact hlexes
  refine ⟨hcount, ?_⟩
  have hsum : ([line].map openDelimiters).sum = netOpened ts := by
    simp [hcount]
  rw [leavesOpen, hsum, Bool.or_eq_true, decide_eq_true_iff, beq_iff_eq]
  rfl

/-- A line that opens three delimiters and closes one of them, with a delimiter in a
string, a call on a string in a snippet, and a comment. -/
theorem openDelimiters_eq_snippet :
    ∃ ts, tokenize "f([\"a(\\\x7bg(\"b\", x)\\\x7d\", \x7b) # (" 1 = .ok ts ∧ netOpened ts = 2
      ∧ openDelimiters "f([\"a(\\\x7bg(\"b\", x)\\\x7d\", \x7b) # (" = netOpened ts
      ∧ (leavesOpen ["f([\"a(\\\x7bg(\"b\", x)\\\x7d\", \x7b) # ("] = true
        ↔ 0 < netOpened ts
          ∨ ("f([\"a(\\\x7bg(\"b\", x)\\\x7d\", \x7b) # (").toList.getLast? = some '\\') := by
  obtain ⟨ts, hts, hcount⟩ := exists_of_map_toOption (show
    (tokenize "f([\"a(\\\x7bg(\"b\", x)\\\x7d\", \x7b) # (" 1).toOption.map
      (fun ts => (netOpened ts, decide (∀ u ∈ ts, ∀ v ∈ u.snippetTokens, v.kind = .string →
        v.value.toList.all (· ∉ '\\' :: countedMarks)))) = some (2, true) by decide +kernel)
  rw [Prod.mk.injEq, decide_eq_true_iff] at hcount
  exact ⟨ts, hts, hcount.1, openDelimiters_eq (by decide +kernel) hts fun u hu v hv hk =>
    List.all_iff_forall_prop.mp (hcount.2 u hu v hv hk)⟩

/-- A bracket in a string within a snippet: no token opens anything, but the counter
takes the string for the end of the one around it and has the session wait for more. -/
theorem delimiter_miscounted :
    (tokenize "\"\\\x7b\"(\"\\\x7d\"" 1).toOption.map netOpened = some 0
      ∧ openDelimiters "\"\\\x7b\"(\"\\\x7d\"" = 1
      ∧ leavesOpen ["\"\\\x7b\"(\"\\\x7d\""] = true := by
  decide +kernel

end StpLang
