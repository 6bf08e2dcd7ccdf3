import StpLang.Proofs.RoundTrip.Held
import StpLang.Proofs.RoundTrip.WellFormed

/-!
Words, numbers and marks as texts.

* `Single` is one token of a kind with a spelling.
* `tells_name`, `tells_number`, `tells_mark` and `tells_keyword` read a token by
  itself.
* `tells_binary` reads a binary operator between blanks, `mod` among them.
-/

namespace StpLang

open Lexer

/-- One token of a kind with a spelling. -/
def Single (kind : TokenKind) (value : String) (b : Bool) (us : List Token) : Prop :=
  ∃ t, us = [t] ∧ t.kind = kind ∧ t.value = value ∧ t.spaced = b

lemma Single.lastKind_eq {kind : TokenKind} {value : String} {b : Bool} {us : List Token}
    (h : Single kind value b us) (last : Option TokenKind) : lastKind last us = some kind := by
  obtain ⟨t, rfl, rfl, -, -⟩ := h
  rfl

/-! ### Spellings -/

/-- Comments are spelled as remarks. -/
lemma Spells.isRemark {P : List Token → Prop} {s : String} {segs : List (Segment Token)}
    (h : Spells P .comment s segs) : isRemark s = true := by
  simp only [StpLang.isRemark, Bool.and_eq_true, beq_iff_eq, Bool.not_eq_true', bne_iff_ne,
    List.contains_eq_mem, decide_eq_false_iff_not]
  obtain ⟨w, rfl, hw, trimmed⟩ := h.comment_inv
  rw [String.toList_ofList]
  refine ⟨⟨rfl, fun hn => ?_⟩, fun hlast => ?_⟩
  · exact hw _ ((List.mem_cons.mp hn).resolve_left (by decide)) rfl
  · have hends := Scan.getLast?_trimEnd (· == '\r') ('#' :: w)
    rw [trimmed] at hends
    cases hends _ hlast

/-- Remarks are the spellings of comments. -/
lemma spells_comment_iff {P : List Token → Prop} {s : String} :
    Spells P .comment s [] ↔ isRemark s = true := by
  refine ⟨Spells.isRemark, ?_⟩
  simp only [isRemark, Bool.and_eq_true, beq_iff_eq, Bool.not_eq_true', bne_iff_ne,
    List.contains_eq_mem, decide_eq_false_iff_not]
  rintro ⟨⟨hhead, hline⟩, hlast⟩
  obtain ⟨w, hw⟩ := List.head?_eq_some_iff.mp hhead
  rw [hw] at hline hlast
  rw [← String.ofList_toList (s := s), hw]
  refine .comment (fun x hx hn => hline (hn ▸ List.mem_cons_of_mem _ hx)) ?_
  refine Scan.trimEnd_eq_self fun x hx => ?_
  rw [beq_eq_false_iff_ne]
  exact fun hr => hlast (hr ▸ hx)

lemma word_of_isName {s : String} (h : isName s = true) :
    ∃ x w, s = String.ofList (x :: w) ∧ Scan.startsWord x = true
      ∧ (∀ y ∈ w, Scan.continuesWord y = true) ∧ TokenKind.ofWord s = .identifier := by
  unfold isName at h
  split at h
  · cases h
  · rename_i x w hs
    simp only [Bool.and_eq_true, beq_iff_eq, List.all_eq_true] at h
    exact ⟨x, w, by rw [← hs, String.ofList_toList], h.1.1, h.1.2, h.2⟩

lemma numeral_of_isNumeral {s : String} (h : isNumeral s = true) : Numeral s.toList := by
  simp only [isNumeral, Bool.and_eq_true, beq_iff_eq] at h
  obtain ⟨hhead, hlen⟩ := h
  cases hs : s.toList with
  | nil =>
    rw [hs] at hhead
    cases hhead
  | cons x w =>
    rw [hs] at hhead hlen
    have := Scan.numeral_take (k := w) (hhead : x.isDigit = true)
    rwa [hlen, List.take_length] at this

lemma split_of_isPercentage {s : String} (h : isPercentage s = true) :
    ∃ w, s = w ++ "%" ∧ isNumeral w = true := by
  simp only [isPercentage, Bool.and_eq_true, beq_iff_eq] at h
  obtain ⟨w, hw⟩ := List.getLast?_eq_some_iff.mp h.1
  rw [hw, List.dropLast_concat] at h
  refine ⟨String.ofList w, ?_, h.2⟩
  rw [← String.toList_inj, hw, String.toList_append, String.toList_ofList]
  rfl

/-- Marks, keywords and `mod` are spelled in one way. -/
lemma TokenKind.ofSpelling?_inv {s : String} {kind : TokenKind} (h : ofSpelling? s = some kind) :
    (s, kind) ∈ operators ∨ (s, kind) ∈ keywords ∨ (s = "mod" ∧ kind = .mod) := by
  unfold ofSpelling? at h
  rw [List.lookup_eq_findSome?] at h
  obtain ⟨o, ho, hk⟩ := List.exists_of_findSome?_eq_some h
  split at hk
  · rename_i hs
    obtain rfl : s = o.1 := eq_of_beq hs
    obtain rfl : o.2 = kind := Option.some.inj hk
    rcases List.mem_cons.mp ho with rfl | ho
    · exact .inr (.inr ⟨rfl, rfl⟩)
    · rcases List.mem_append.mp ho with ho | ho
      · exact .inl ho
      · exact .inr (.inl ho)
  · cases hk

/-! ### Tokens -/

section

variable {n : Nat} {S : Option TokenKind → Prop} {K : List Char → Prop} {v : List Char}
  {P : Bool → List Token → Prop}

/-- A token that stands wherever its spelling does. -/
lemma tells_of_lexeme (hfirst : ∃ x w, v = x :: w ∧ startsToken x = true)
    (h : ∀ (c : Cursor) (last : Option TokenKind) (k : List Char), S last → c.rest = v ++ k →
      K k → ∃ kind value segs, Lexeme (SnippetAt n) c kind value segs (c.forward v.length)
        ∧ kind.endsLine = false
        ∧ ∀ b, P b [.between (kind.settled last) value b segs c (c.forward v.length)]) :
    Tells n S K v P := by
  intro s k hs hrest hk
  obtain ⟨x, w, rfl, hx⟩ := hfirst
  obtain ⟨kind, value, segs, hlex, hline, hP⟩ := h s.cursor s.last k hs hrest hk
  refine ⟨_, hP s.spaced, by simp, ?_⟩
  have hheld := Held.token (s := s) (m := 0) (k := w ++ k) hrest hx hlex hline .nil
  rwa [show (s.spaced || (0 : Nat) != 0) = s.spaced by simp] at hheld

/-- A kind that no token before it changes. -/
lemma TokenKind.settled_eq {kind : TokenKind} (h : kind ≠ .mod) (last : Option TokenKind) :
    kind.settled last = kind := by
  unfold settled
  rw [beq_false_of_ne h, Bool.false_and, if_neg Bool.false_ne_true]

lemma single_between {kind : TokenKind} {value : String} {segs : List (Segment Token)}
    {c d : Cursor} {b : Bool} : Single kind value b [.between kind value b segs c d] :=
  ⟨_, rfl, rfl, rfl, rfl⟩

/-- A mark that the text behind it does not carry on. -/
lemma tells_mark {value : String} {kind : TokenKind} (h : (value, kind) ∈ TokenKind.operators) :
    Tells n Anywhere Scan.EndsOperator value.toList (Single kind value) := by
  have hplain : ∀ o ∈ TokenKind.operators, o.2 ≠ .mod ∧ o.2.endsLine = false := by decide
  obtain ⟨hmod, hline⟩ := hplain _ h
  refine tells_of_lexeme (startsToken_of_mem h) fun c last k _ hc hk => ?_
  refine ⟨kind, value, [], lexeme_operator h hk hc, hline, fun b => ?_⟩
  rw [TokenKind.settled_eq hmod]
  exact single_between

/-- A number that the text behind it does not carry on. -/
lemma tells_number {w : String} (hw : isNumeral w = true) :
    Tells n Anywhere (fun k => (∀ x ∈ k.head?, x.isDigit = false) ∧ Scan.fractionLength k = 0)
      w.toList (Single .number w) := by
  have hnumeral := numeral_of_isNumeral hw
  obtain ⟨x, v, hv, hx⟩ := hnumeral.digit
  refine tells_of_lexeme ⟨x, v, hv, startsToken_of_isDigit hx⟩ fun c last k _ hc hk => ?_
  refine ⟨_, _, [], lexeme_number hnumeral hk.1 hk.2 hc, rfl, fun b => ?_⟩
  rw [String.ofList_toList, TokenKind.settled_eq (by decide)]
  exact single_between

/-- Behind a number that ends, no digit follows. -/
lemma Scan.EndsToken.endsNumber {k : List Char} (h : Scan.EndsToken k) :
    (∀ x ∈ k.head?, x.isDigit = false) ∧ Scan.fractionLength k = 0 := by
  refine ⟨fun x hx => ?_, h.fractionLength_eq⟩
  cases hd : x.isDigit with
  | false => rfl
  | true => exact absurd (Scan.continuesWord_of_isDigit hd) (by simp [h.word x hx])

/-- A word and the kinds that it can have. -/
lemma tells_word {w : String} {kind : TokenKind} {x : Char} {v : List Char}
    (hw : w = String.ofList (x :: v)) (hx : Scan.startsWord x = true)
    (hv : ∀ y ∈ v, Scan.continuesWord y = true)
    (h : ∀ past last k, S last → K k → Scan.EndsWord k
      ∧ (wordKind past w k).settled last = kind) : Tells n S K w.toList (Single kind w) := by
  subst hw
  rw [String.toList_ofList]
  refine tells_of_lexeme ⟨x, v, rfl, startsToken_of_startsWord hx⟩ fun c last k hs hc hk => ?_
  obtain ⟨hend, hkind⟩ := h c.past last k hs hk
  obtain ⟨-, -, -, -, hline⟩ := wordKind_plain c.past (String.ofList (x :: v)) k
  refine ⟨_, _, [], lexeme_word hx hv hend hc, hline, fun b => ?_⟩
  rw [hkind]
  exact single_between

/-- A name is the word `mod` only where no operand ends. -/
lemma tells_name {w : String} (hw : isName w = true) :
    Tells n (fun last => w = "mod" → Fresh last) Scan.EndsWord w.toList (Single .identifier w) := by
  obtain ⟨x, v, hword, hx, hv, hkind⟩ := word_of_isName hw
  refine tells_word hword hx hv fun past last k hs hk => ⟨hk, ?_⟩
  unfold wordKind
  split
  · rename_i hmod
    simp only [Bool.and_eq_true, beq_iff_eq] at hmod
    simp [TokenKind.settled, hs hmod.1.1]
  · rw [hkind, TokenKind.settled_eq (by decide)]

/-- The first character of a reserved word. -/
lemma startsWord_of_mem {o : String × TokenKind} (ho : o ∈ TokenKind.keywords) :
    (∃ x v, o.1 = String.ofList (x :: v) ∧ Scan.startsWord x = true
      ∧ ∀ y ∈ v, Scan.continuesWord y = true) ∧ o.1 ≠ "mod" ∧ o.2 ≠ .mod
      ∧ TokenKind.ofWord o.1 = o.2 := by
  have hkey : ∀ o ∈ TokenKind.keywords, (o.1.toList.head?.any Scan.startsWord) = true
      ∧ o.1.toList.tail.all Scan.continuesWord = true ∧ o.1 ≠ "mod" ∧ o.2 ≠ .mod
      ∧ TokenKind.ofWord o.1 = o.2 := by decide +kernel
  obtain ⟨hx, hv, hrest⟩ := hkey o ho
  refine ⟨?_, hrest⟩
  cases hs : o.1.toList with
  | nil =>
    rw [hs] at hx
    cases hx
  | cons x v =>
    rw [hs] at hx hv
    refine ⟨x, v, by rw [← hs, String.ofList_toList], hx, ?_⟩
    simpa using hv

/-- A reserved word. -/
lemma tells_keyword {w : String} {kind : TokenKind} (h : (w, kind) ∈ TokenKind.keywords) :
    Tells n Anywhere Scan.EndsWord w.toList (Single kind w) := by
  obtain ⟨⟨x, v, hword, hx, hv⟩, hne, hmod, hkind⟩ := startsWord_of_mem h
  refine tells_word hword hx hv fun past last k _ hk => ⟨hk, ?_⟩
  dsimp only at hne hmod hkind
  rw [wordKind, beq_false_of_ne hne, Bool.false_and, Bool.false_and, if_neg Bool.false_ne_true,
    hkind, TokenKind.settled_eq hmod]

/-- Blanks stand on both sides of a binary operator, so that behind an operand
`mod` is one. -/
lemma tells_binary {op : String} {kind : TokenKind} {binding : Nat × Assoc}
    (h : TokenKind.ofSpelling? op = some kind) (hb : kind.binary? = some binding) :
    Tells n (fun last => last.any (·.endsOperand) = true) (fun k => k.head? = some ' ')
      (' ' :: op.toList) fun _ us => Single kind op true us := by
  have hend {k : List Char} (hk : k.head? = some ' ') : Scan.EndsToken k := by
    cases k with
    | nil => cases hk
    | cons x k =>
      cases hk
      exact Scan.endsToken_cons rfl rfl
  rcases TokenKind.ofSpelling?_inv h with h | h | ⟨rfl, rfl⟩
  · exact (tells_mark h).blank.weaken (fun _ _ => trivial) fun k hk => (hend hk).operator
  · exact (tells_keyword h).blank.weaken (fun _ _ => trivial) fun k hk => (hend hk).word
  · intro s k hs hrest hk
    have hrest' : (s.cursor.forward 1).rest = 'm' :: ['o', 'd'] ++ k := by
      rw [Cursor.rest_forward, hrest]
      rfl
    have hpast : (s.cursor.forward 1).past = ' ' :: s.cursor.past := by
      have := Cursor.past_forward (c := s.cursor) (w := [' ']) hrest
      simpa using this
    have hlex := lexeme_word (n := n) (by decide) (List.all_eq_true.mp rfl) (hend hk).word hrest'
    have hspace : Scan.startsWithSpace k = true := by
      cases k with
      | nil => cases hk
      | cons x k =>
        cases hk
        rfl
    have hkind : wordKind (s.cursor.forward 1).past (String.ofList ['m', 'o', 'd']) k = .mod := by
      rw [wordKind, hpast, hspace]
      rfl
    rw [hkind] at hlex
    have hheld := Held.token (s := s) (m := 1) (k := 'o' :: 'd' :: k) hrest (by decide) hlex rfl
      .nil
    have hsettled : TokenKind.settled s.last .mod = .mod := by simp [TokenKind.settled, hs]
    rw [hsettled] at hheld
    refine ⟨_, ?_, by simp, hheld⟩
    rw [show (s.spaced || (1 : Nat) != 0) = true by simp]
    exact single_between

end

end StpLang
