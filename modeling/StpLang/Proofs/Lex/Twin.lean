import StpLang.Proofs.Lex.Lexeme

/-!
Tokens before a change of the text.

Two texts agree up to a line end or a semicolon and may differ behind it. The
tokens that end before that mark are the same in both: what the lexer looks at
behind a token never reaches beyond the mark.

* `Twin` relates the places of the two texts that have the mark ahead.
* `Lexeme.twin` and `Cut.twin` carry a token over to the other text.
-/

namespace StpLang

open Lexer

/-- The characters that end a statement. -/
def IsMark (x : Char) : Prop := x = '\n' ∨ x = ';'

/-- One place of two texts, which agree on the characters `w` and the mark `x`
ahead. -/
structure Twin (w : List Char) (x : Char) (c c' : Cursor) : Prop where
  past : c'.past = c.past
  pos : c'.pos = c.pos
  line : c'.line = c.line
  col : c'.col = c.col
  rest : ∃ k, c.rest = w ++ x :: k
  rest' : ∃ k, c'.rest = w ++ x :: k

section

variable {w : List Char} {x : Char} {c c' d : Cursor} {n : Nat}

namespace Twin

lemma step {y : Char} (h : Twin (y :: w) x c c') : Twin w x c.step c'.step := by
  obtain ⟨k, hk⟩ := h.rest
  obtain ⟨k', hk'⟩ := h.rest'
  rw [List.cons_append] at hk hk'
  refine ⟨?_, ?_, ?_, ?_, ⟨k, by simp [hk]⟩, ⟨k', by simp [hk']⟩⟩
  all_goals simp [Cursor.step, hk, hk', h.past, h.pos, h.line, h.col]

/-- Moving ahead before the mark. -/
lemma forward (h : Twin w x c c') (hn : n ≤ w.length) :
    Twin (w.drop n) x (c.forward n) (c'.forward n) := by
  induction n generalizing w c c' with
  | zero => exact h
  | succ n ih =>
    cases w with
    | nil => simp at hn
    | cons y w => exact ih h.step (Nat.le_of_succ_le_succ hn)

lemma le_rest (h : Twin w x c c') (hn : n ≤ w.length) :
    n ≤ c.rest.length ∧ n ≤ c'.rest.length := by
  obtain ⟨k, hk⟩ := h.rest
  obtain ⟨k', hk'⟩ := h.rest'
  rw [hk, hk', List.length_append, List.length_append]
  omega

lemma pos_forward (h : Twin w x c c') (hn : n ≤ w.length) :
    (c'.forward n).pos = (c.forward n).pos := (h.forward hn).pos

lemma take (h : Twin w x c c') (hn : n ≤ w.length) : c'.rest.take n = c.rest.take n := by
  obtain ⟨k, hk⟩ := h.rest
  obtain ⟨k', hk'⟩ := h.rest'
  rw [hk, hk', List.take_append_of_le_length hn, List.take_append_of_le_length hn]

lemma textTo (h : Twin w x c c') (hn : n ≤ w.length) :
    c'.textTo (c'.forward n) = c.textTo (c.forward n) := by
  rw [Cursor.textTo_forward_take (h.le_rest hn).2, Cursor.textTo_forward_take (h.le_rest hn).1,
    h.take hn]

/-- A bound on the place behind a piece of known length. -/
lemma le_of_pos (_ : Twin w x c c') (hn : n ≤ c.rest.length)
    (hd : (c.forward n).pos ≤ c.pos + w.length) : n ≤ w.length := by
  rw [Cursor.pos_forward hn] at hd
  omega

end Twin

/-! ### What the lexer looks at -/

/-- A run of characters that neither mark continues ends before the mark. -/
lemma takeWhile_mark {p : Char → Bool} (hp : p x = false) (w k : List Char) :
    (w ++ x :: k).takeWhile p = w.takeWhile p := by
  induction w with
  | nil => simp [hp]
  | cons y w ih =>
    rw [List.cons_append, List.takeWhile_cons, List.takeWhile_cons, ih]

lemma IsMark.eq_false {p : Char → Bool} (hx : IsMark x) (hn : p '\n' = false) (hs : p ';' = false) :
    p x = false := by
  rcases hx with rfl | rfl
  · exact hn
  · exact hs

lemma wordLength_mark (hx : IsMark x) (w k : List Char) :
    Scan.wordLength (w ++ x :: k) = Scan.wordLength w := by
  unfold Scan.wordLength
  rw [takeWhile_mark (hx.eq_false rfl rfl)]

lemma digitsLength_mark (hx : IsMark x) (w k : List Char) :
    Scan.digitsLength (w ++ x :: k) = Scan.digitsLength w := by
  unfold Scan.digitsLength
  rw [takeWhile_mark (hx.eq_false rfl rfl)]

lemma fractionLength_mark (hx : IsMark x) (w k : List Char) :
    Scan.fractionLength (w ++ x :: k) = Scan.fractionLength w := by
  cases w with
  | nil => rcases hx with rfl | rfl <;> rfl
  | cons y w =>
    by_cases hy : y = '.'
    · subst hy
      simp only [List.cons_append, Scan.fractionLength, digitsLength_mark hx]
    · simp [Scan.fractionLength, hy]

lemma numberLength_mark (hx : IsMark x) (w k : List Char) :
    Scan.numberLength (w ++ x :: k) = Scan.numberLength w := by
  have hle : Scan.digitsLength w ≤ w.length := (List.takeWhile_sublist _).length_le
  simp only [Scan.numberLength, digitsLength_mark hx, List.drop_append_of_le_length hle,
    fractionLength_mark hx]

/-- A continuation is a backslash and a line end behind it. -/
lemma isContinuation_cons (y : Char) (k : List Char) : Scan.isContinuation (y :: k)
    = (y == '\\' && (k.head? == some '\n' || k.head? == some '\r' && k.tail.head? == some '\n')) := by
  unfold Scan.isContinuation
  split
  · rename_i h
    cases h
    rfl
  · rename_i h
    cases h
    rfl
  · rename_i h h'
    rw [eq_comm, Bool.eq_false_iff]
    intro hc
    simp only [Bool.and_eq_true, Bool.or_eq_true, beq_iff_eq, List.head?_eq_some_iff] at hc
    obtain ⟨rfl, ⟨v, rfl⟩ | ⟨⟨v, rfl⟩, u, hu⟩⟩ := hc
    · exact h v rfl
    · rw [List.tail_cons] at hu
      exact h' u (by rw [hu])

lemma isContinuation_mark (hx : IsMark x) (w k k' : List Char) :
    Scan.isContinuation (w ++ x :: k') = Scan.isContinuation (w ++ x :: k) := by
  have hslash : (x == '\\') = false := hx.eq_false (p := (· == '\\')) rfl rfl
  have hreturn : (some x == some '\r') = false := hx.eq_false (p := (some · == some '\r')) rfl rfl
  match w with
  | [] =>
    rw [List.nil_append, List.nil_append, isContinuation_cons, isContinuation_cons, hslash,
      Bool.false_and, Bool.false_and]
  | [y] =>
    simp only [List.cons_append, List.nil_append, isContinuation_cons, List.head?_cons, hreturn,
      Bool.false_and]
  | y :: z :: w =>
    simp only [List.cons_append, isContinuation_cons, List.head?_cons, List.tail_cons]
    cases w <;> rfl

lemma startsWithSpace_mark (hx : IsMark x) (w k k' : List Char) :
    Scan.startsWithSpace (w ++ x :: k') = Scan.startsWithSpace (w ++ x :: k) := by
  have h := isContinuation_mark hx w k k'
  cases w with
  | nil =>
    simp only [List.nil_append] at h
    simp [Scan.startsWithSpace, h]
  | cons y w =>
    simp only [List.cons_append] at h
    simp [Scan.startsWithSpace, h]

/-- What is no white space. -/
lemma startsWithSpace_eq_false {l : List Char} (h1 : ∀ cs, l = ' ' :: cs → False)
    (h2 : ∀ cs, l = '\t' :: cs → False) (h3 : ∀ cs, l = '\r' :: cs → False)
    (h4 : ∀ cs, l = '\n' :: cs → False) (h5 : ∀ cs, l = '\\' :: '\n' :: cs → False)
    (h6 : ∀ cs, l = '\\' :: '\r' :: '\n' :: cs → False) : Scan.startsWithSpace l = false := by
  cases l with
  | nil => rfl
  | cons y l =>
    have hcontinued : Scan.isContinuation (y :: l) = false := by
      unfold Scan.isContinuation
      split
      · rename_i hl
        exact (h5 _ hl).elim
      · rename_i hl
        exact (h6 _ hl).elim
      · rfl
    simp only [Scan.startsWithSpace, hcontinued, Bool.or_false, Bool.or_eq_false_iff,
      decide_eq_false_iff_not]
    refine ⟨⟨⟨?_, ?_⟩, ?_⟩, ?_⟩ <;> rintro rfl
    · exact h1 l rfl
    · exact h2 l rfl
    · exact h3 l rfl
    · exact h4 l rfl

/-- Nothing is blank before a character that is no white space. -/
lemma blankLength_eq_zero {l : List Char} (h : Scan.startsWithSpace l = false) (b : Bool) :
    Scan.blankLength b l = 0 := by
  fun_cases Scan.blankLength b l with
  | case1 | case2 | case3 | case4 | case6 | case7 => cases h
  | case5 | case8 => rfl

/-- No operator has a mark behind its first character. -/
lemma operatorOfLength?_mark (hx : IsMark x) (y : Char) (w k : List Char) (n : Nat) :
    Scan.operatorOfLength? (y :: w ++ x :: k) n
      = if n ≤ w.length + 1 then Scan.operatorOfLength? (y :: w) n else none := by
  have hno : ∀ o ∈ TokenKind.operators,
      (o.1.toList.tail.all fun z => z != '\n' && z != ';') = true := by
    decide
  unfold Scan.operatorOfLength?
  split
  · rename_i hn
    rw [List.take_append_of_le_length (by simpa using hn)]
  · rename_i hn
    rw [List.find?_eq_none]
    intro o ho heq
    rw [beq_iff_eq] at heq
    have hmem : x ∈ o.1.toList.tail := by
      rw [heq]
      obtain ⟨m, rfl⟩ : ∃ m, n = w.length + 1 + 1 + m := ⟨n - (w.length + 2), by omega⟩
      rw [List.cons_append, show w.length + 1 + 1 + m = (w.length + (1 + m)) + 1 by omega,
        List.take_succ_cons, List.tail_cons, List.take_length_add_append, Nat.add_comm 1 m,
        List.take_succ_cons]
      simp
    have hother := List.all_eq_true.mp (hno o ho) x hmem
    rcases hx with rfl | rfl <;> cases hother

lemma operator?_semicolon (k : List Char) :
    Scan.operator? (';' :: k) = some (";", .semicolon) := by
  match k with
  | [] => decide
  | [y] => simp [Scan.operator?, Scan.operatorOfLength?, TokenKind.operators]
  | y :: z :: k => simp [Scan.operator?, Scan.operatorOfLength?, TokenKind.operators]

lemma operator?_lineEnd (k : List Char) : Scan.operator? ('\n' :: k) = none := by
  simp [Scan.operator?, Scan.operatorOfLength?, TokenKind.operators]

lemma operator?_mark (hx : IsMark x) (w k k' : List Char) :
    Scan.operator? (w ++ x :: k') = Scan.operator? (w ++ x :: k) := by
  cases w with
  | nil =>
    rcases hx with rfl | rfl
    · rw [List.nil_append, List.nil_append, operator?_lineEnd, operator?_lineEnd]
    · rw [List.nil_append, List.nil_append, operator?_semicolon, operator?_semicolon]
  | cons y w =>
    unfold Scan.operator?
    rw [funext (operatorOfLength?_mark hx y w k'), funext (operatorOfLength?_mark hx y w k)]

lemma blankLength_mark (hx : IsMark x) (b : Bool) (w k k' : List Char)
    (h : Scan.blankLength b (w ++ x :: k) ≤ w.length) :
    Scan.blankLength b (w ++ x :: k') = Scan.blankLength b (w ++ x :: k) := by
  generalize hl : w ++ x :: k = l at h
  fun_induction Scan.blankLength b l generalizing w with
  | case1 cs ih | case2 cs ih | case3 cs ih =>
    cases w with
    | nil => rcases hx with rfl | rfl <;> cases hl
    | cons y w =>
      cases hl
      rw [← ih w rfl (Nat.le_of_succ_le_succ h)]
      rfl
  | case4 cs hb ih =>
    cases w with
    | nil => simp at h
    | cons y w =>
      cases hl
      rw [← ih w rfl (Nat.le_of_succ_le_succ h), List.cons_append, Scan.blankLength, if_pos hb]
  | case5 cs hb =>
    cases w with
    | nil =>
      cases hl
      rw [List.nil_append, Scan.blankLength, if_neg hb]
    | cons y w =>
      cases hl
      rw [List.cons_append, Scan.blankLength, if_neg hb]
  | case6 cs ih =>
    match w with
    | [] => rcases hx with rfl | rfl <;> cases hl
    | [y] =>
      simp at h
    | y :: z :: w =>
      cases hl
      rw [← ih w rfl (by simpa using h)]
      rfl
  | case7 cs ih =>
    match w with
    | [] => rcases hx with rfl | rfl <;> cases hl
    | [y] => simp at h
    | [y, z] => simp at h
    | y :: z :: a :: w =>
      cases hl
      rw [← ih w rfl (by simpa using h)]
      rfl
  | case8 l h1 h2 h3 h4 h5 h6 =>
    subst hl
    refine blankLength_eq_zero ?_ b
    rw [startsWithSpace_mark hx w k k']
    exact startsWithSpace_eq_false h1 h2 h3 h4 h5 h6

/-! ### Tokens -/

/-- What the other text has at the place that corresponds to `d`. -/
def Carried (w : List Char) (c c' d : Cursor) (P : Cursor → Prop) : Prop :=
  ∃ n, n ≤ w.length ∧ c.forward n = d ∧ P (c'.forward n)

/-- Snippets that end before the mark are the same in both texts. -/
def SnippetRel.Steady (R : SnippetRel) (x : Char) : Prop :=
  ∀ ⦃w c c' ts d⦄, Twin w x c c' → R c ts d → d.pos ≤ c.pos + w.length →
    Carried w c c' d (R c' ts)

variable {R : SnippetRel} {kind : TokenKind} {value : String} {segs : List (Segment Token)}

/-- What follows a piece before the mark. -/
lemma Carried.after {P : Cursor → Prop} {e : Cursor} (hn : n ≤ w.length)
    (h : Carried (w.drop n) (c.forward n) (c'.forward n) e P) : Carried w c c' e P := by
  obtain ⟨m, hm, rfl, hP⟩ := h
  rw [List.length_drop] at hm
  refine ⟨n + m, by omega, Cursor.forward_add n m c, ?_⟩
  rwa [Cursor.forward_add]

lemma Carried.imp {P Q : Cursor → Prop} (h : Carried w c c' d P)
    (hPQ : ∀ n, n ≤ w.length → c.forward n = d → P (c'.forward n) → Q (c'.forward n)) :
    Carried w c c' d Q := by
  obtain ⟨n, hn, hd, hP⟩ := h
  exact ⟨n, hn, hd, hPQ n hn hd hP⟩

lemma Twin.between (h : Twin w x c c') (hn : n ≤ w.length) (form : SegmentForm Token) :
    Segment.between form c' (c'.forward n) = Segment.between form c (c.forward n) := by
  simp only [Segment.between, h.textTo hn, h.line, h.col, h.pos, h.pos_forward hn]

lemma takeWhile_take_mark {p : Char → Bool} (hp : p x = false) (w k : List Char) (m : Nat) :
    ((w ++ x :: k).take m).takeWhile p = (w.take m).takeWhile p := by
  induction w generalizing m with
  | nil => cases m <;> simp [hp]
  | cons y w ih =>
    cases m with
    | zero => rfl
    | succ m => simp only [List.cons_append, List.take_succ_cons, List.takeWhile_cons, ih]

/-- A run of characters that ends before the mark is the same in both texts. -/
lemma takeWhile_mark_of_le {p : Char → Bool} {k : List Char} (k' : List Char)
    (h : ((w ++ x :: k).takeWhile p).length ≤ w.length) :
    (w ++ x :: k').takeWhile p = (w ++ x :: k).takeWhile p := by
  induction w with
  | nil =>
    cases hp : p x with
    | false => simp [hp]
    | true => simp [hp] at h
  | cons y w ih =>
    rw [List.cons_append, List.takeWhile_cons] at h
    rw [List.cons_append, List.cons_append, List.takeWhile_cons, List.takeWhile_cons]
    split at h
    · rename_i hy
      rw [hy, ih (by simpa using h)]
    · rename_i hy
      simp [hy]

/-- The first two characters before the mark. -/
lemma Twin.rest_two (h : Twin w x c c') (hw : 2 ≤ w.length) {y z : Char} {k : List Char}
    (hk : c.rest = y :: z :: k) :
    ∃ v k', w = y :: z :: v ∧ c'.rest = y :: z :: (v ++ x :: k') ∧ ∃ k'', k = v ++ x :: k'' := by
  obtain ⟨k0, h0⟩ := h.rest
  obtain ⟨k1, h1⟩ := h.rest'
  match w with
  | [] => simp at hw
  | [_] => simp at hw
  | y' :: z' :: v =>
    rw [hk] at h0
    cases h0
    exact ⟨v, k1, rfl, h1, k0, rfl⟩

lemma Escape.twin (hR : R.Moves) (hS : R.Steady x) (hx : IsMark x) {form : SegmentForm Token}
    (h : Escape R c form d) (ht : Twin w x c c') (hd : d.pos ≤ c.pos + w.length) :
    Carried w c c' d (Escape R c' form) := by
  have hle := (h.before hR).ahead
  cases h with
  | simple hk hy =>
    have hn := ht.le_of_pos (by rw [hk]; simp) hd
    obtain ⟨v, k', -, hk', -⟩ := ht.rest_two hn hk
    exact ⟨2, hn, rfl, .simple hk' hy⟩
  | @unicode k n hk hn =>
    have hlen : n ≤ Scan.hexLength k := by simpa using List.find?_some hn
    have hhex : Scan.hexLength k ≤ (k.take 8).length := (List.takeWhile_sublist _).length_le
    rw [List.length_take] at hhex
    have hw := ht.le_of_pos (by rw [hk]; simp; omega) hd
    obtain ⟨v, k', rfl, hk', k'', rfl⟩ := ht.rest_two (by omega) hk
    have hp : Scan.isHexDigit x = false := hx.eq_false rfl rfl
    have hnv : n ≤ v.length := by simpa using hw
    refine ⟨n + 2, hw, rfl, ?_⟩
    have hform : (v ++ x :: k'').take n = (v ++ x :: k').take n := by
      rw [List.take_append_of_le_length hnv, List.take_append_of_le_length hnv]
    rw [hform]
    refine .unicode hk' ?_
    unfold Scan.hexLength at hn ⊢
    rwa [takeWhile_take_mark hp] at hn ⊢
  | @octal k hk hn =>
    have hoct : Scan.octalLength k ≤ (k.take 3).length := (List.takeWhile_sublist _).length_le
    rw [List.length_take] at hoct
    have hw := ht.le_of_pos (by rw [hk, List.length_cons]; omega) hd
    cases k with
    | nil => contradiction
    | cons y k =>
      obtain ⟨v, k', rfl, hk', k'', rfl⟩ := ht.rest_two (by omega) hk
      have hp : Scan.isOctalDigit x = false := hx.eq_false rfl rfl
      refine ⟨4, hw, rfl, .octal hk' ?_⟩
      unfold Scan.octalLength at hn ⊢
      rw [← List.cons_append, takeWhile_take_mark hp] at hn ⊢
      exact hn
  | @snippet k ts d hk hs =>
    have h2 : 2 ≤ c.rest.length := by rw [hk]; simp
    have hw := ht.le_of_pos h2 (Nat.le_trans (hR hs).pos_le hd)
    obtain ⟨v, k', -, hk', -⟩ := ht.rest_two hw hk
    have hpos := Cursor.pos_forward h2
    refine (Carried.after hw (hS (ht.forward hw) hs ?_)).imp fun n _ _ hs' => .snippet hk' hs'
    rw [List.length_drop]
    omega

lemma Pieces.twin (hR : R.Moves) (hS : R.Steady x) (hx : IsMark x) (h : Pieces R c segs d)
    (ht : Twin w x c c') (hd : d.pos ≤ c.pos + w.length) :
    Carried w c c' d (Pieces R c' segs) := by
  induction h generalizing w c' with
  | @close c k hk =>
    have hw := ht.le_of_pos (by rw [hk]; simp) hd
    obtain ⟨k0, h0⟩ := ht.rest
    obtain ⟨k1, h1⟩ := ht.rest'
    cases w with
    | nil => simp at hw
    | cons y v =>
      rw [hk] at h0
      cases h0
      exact ⟨1, hw, rfl, .close h1⟩
  | @plain c d segs y k hk hy hs ih =>
    have hle : (c.rest.takeWhile Scan.isPlain).length ≤ c.rest.length :=
      (List.takeWhile_sublist _).length_le
    have hpos := Cursor.pos_forward hle
    have hlt := (hs.before hR).lt
    -- the closing quote comes before the mark, so the run of characters ends there
    have hn : (c.rest.takeWhile Scan.isPlain).length < w.length := by omega
    obtain ⟨k0, h0⟩ := ht.rest
    obtain ⟨k1, h1⟩ := ht.rest'
    have hrun : c'.rest.takeWhile Scan.isPlain = c.rest.takeWhile Scan.isPlain := by
      rw [h0] at hn
      rw [h0, h1, takeWhile_mark_of_le _ (Nat.le_of_lt hn)]
    have hmore := ih (ht.forward (Nat.le_of_lt hn)) (by rw [List.length_drop]; omega)
    refine (Carried.after (Nat.le_of_lt hn) hmore).imp fun m _ _ hs' => ?_
    rw [← ht.between (Nat.le_of_lt hn), ← hrun]
    rw [← hrun] at hs'
    cases w with
    | nil => simp at hn
    | cons y' v =>
      rw [hk] at h0
      cases h0
      exact .plain h1 hy hs'
  | @escape c d e form segs h hs ih =>
    have hmid := (hs.before hR).lt
    obtain ⟨n, hn, rfl, h'⟩ := h.twin hR hS hx ht (by omega)
    have hpos := Cursor.pos_forward (ht.le_rest hn).1
    have hmore := ih (ht.forward hn) (by rw [List.length_drop]; omega)
    refine (Carried.after hn hmore).imp fun m _ _ hs' => ?_
    rw [← ht.between hn]
    exact .escape h' hs'

/-- The first character before the mark. -/
lemma Twin.rest_one (h : Twin w x c c') (hw : 0 < w.length) {y : Char} {k : List Char}
    (hk : c.rest = y :: k) : ∃ v k', w = y :: v ∧ c'.rest = y :: (v ++ x :: k') := by
  obtain ⟨k0, h0⟩ := h.rest
  obtain ⟨k1, h1⟩ := h.rest'
  cases w with
  | nil => simp at hw
  | cons y' v =>
    rw [hk] at h0
    cases h0
    exact ⟨v, k1, rfl, h1⟩

/-- A token that ends before the mark is the same in both texts. -/
lemma Lexeme.twin (hR : R.Moves) (hS : R.Steady x) (hx : IsMark x)
    (h : Lexeme R c kind value segs d) (ht : Twin w x c c') (hd : d.pos ≤ c.pos + w.length) :
    Carried w c c' d (Lexeme R c' kind value segs) := by
  have hpos := (h.before hR).lt
  have hw : 0 < w.length := by omega
  obtain ⟨k0, h0⟩ := ht.rest
  obtain ⟨k1, h1⟩ := ht.rest'
  cases h with
  | lineEnd hk =>
    obtain ⟨v, k', -, hk'⟩ := ht.rest_one hw hk
    exact ⟨1, hw, rfl, .lineEnd hk'⟩
  | comment hk =>
    have hle : Scan.lineLength c.rest ≤ w.length :=
      ht.le_of_pos (List.takeWhile_sublist _).length_le hd
    have hlen : Scan.lineLength c'.rest = Scan.lineLength c.rest := by
      rw [h0] at hle
      unfold Scan.lineLength at hle ⊢
      rw [h0, h1, takeWhile_mark_of_le _ hle]
    obtain ⟨v, k', -, hk'⟩ := ht.rest_one hw hk
    have hcomment := Lexeme.comment (R := R) hk'
    rw [hlen, ht.take hle] at hcomment
    exact ⟨_, hle, rfl, hcomment⟩
  | word hk hy =>
    have hle := ht.le_of_pos Scan.wordLength_le hd
    have hlen : Scan.wordLength c'.rest = Scan.wordLength c.rest := by
      rw [h0, h1, wordLength_mark hx, wordLength_mark hx]
    have hspace : Scan.startsWithSpace (c'.rest.drop (Scan.wordLength c.rest))
        = Scan.startsWithSpace (c.rest.drop (Scan.wordLength c.rest)) := by
      obtain ⟨l, hl⟩ := (ht.forward hle).rest
      obtain ⟨l', hl'⟩ := (ht.forward hle).rest'
      rw [Cursor.rest_forward] at hl hl'
      rw [hl, hl', startsWithSpace_mark hx _ l l']
    obtain ⟨v, k', -, hk'⟩ := ht.rest_one hw hk
    have hword := Lexeme.word (R := R) hk' hy
    rw [hlen, ht.take hle, ht.past, wordKind, hspace] at hword
    exact ⟨_, hle, rfl, hword⟩
  | number hk hy =>
    have hle := ht.le_of_pos Scan.numberLength_le hd
    have hlen : Scan.numberLength c'.rest = Scan.numberLength c.rest := by
      rw [h0, h1, numberLength_mark hx, numberLength_mark hx]
    obtain ⟨v, k', -, hk'⟩ := ht.rest_one hw hk
    have hnumber := Lexeme.number (R := R) hk' hy
    rw [hlen, ht.take hle] at hnumber
    exact ⟨_, hle, rfl, hnumber⟩
  | string hk hs =>
    obtain ⟨v, k', -, hk'⟩ := ht.rest_one hw hk
    have h1 : 1 ≤ c.rest.length := by rw [hk]; simp
    have hpos1 := Cursor.pos_forward h1
    have hmore := hs.twin hR hS hx (ht.forward hw) (by rw [List.length_drop]; omega)
    refine (Carried.after hw hmore).imp fun n hn hd' hs' => ?_
    rw [← hd', ← ht.textTo hn]
    exact .string hk' hs'
  | operator hop =>
    have hop' : Scan.operator? c'.rest = some (value, kind) := by
      rw [h1, operator?_mark hx w k0 k1, ← h0, hop]
    obtain ⟨-, k, hk⟩ := Scan.operator?_inv hop
    have hle := ht.le_of_pos (by rw [hk, List.length_append, String.length_toList]; omega) hd
    exact ⟨_, hle, rfl, .operator hop'⟩

/-- White space that ends before the mark is the same in both texts. -/
lemma Twin.gap_eq (hx : IsMark x) (ht : Twin w x c c') {inSnippet : Bool} {groups : List Token}
    (hw : gap inSnippet groups c ≤ w.length) :
    gap inSnippet groups c' = gap inSnippet groups c := by
  obtain ⟨k0, h0⟩ := ht.rest
  obtain ⟨k1, h1⟩ := ht.rest'
  unfold gap at hw ⊢
  rw [h0] at hw
  rw [h0, h1, blankLength_mark hx _ _ _ _ hw]

/-- A token behind white space that ends before the mark. -/
lemma Cut.twin (hR : R.Moves) (hS : R.Steady x) (hx : IsMark x) {inSnippet spaced : Bool}
    {groups : List Token} {u : Token} (h : Cut R inSnippet groups spaced c u d)
    (ht : Twin w x c c') (hd : d.pos ≤ c.pos + w.length) :
    Carried w c c' d (Cut R inSnippet groups spaced c' u) := by
  obtain ⟨h⟩ := h
  have hle : gap inSnippet groups c ≤ c.rest.length := Scan.blankLength_le _ _
  have hpos := Cursor.pos_forward hle
  have hlt := (h.before hR).lt
  have hw : gap inSnippet groups c ≤ w.length := by omega
  have hgap := ht.gap_eq hx hw
  have hmore := h.twin hR hS hx (ht.forward hw) (by rw [List.length_drop]; omega)
  refine (Carried.after hw hmore).imp fun n hn hd' h' => ?_
  rw [← hgap] at h'
  have hcut : Cut R inSnippet groups spaced c' _ _ := .mk h'
  have hplace := ht.forward hw
  have hstop := ht.pos_forward hn
  rw [hd'] at hstop
  rw [hgap] at hcut
  simp only [Token.between, hplace.line, hplace.col, hplace.pos, hstop] at hcut
  exact hcut

lemma SnippetTokens.twin (hR : R.Moves) (hS : R.Steady x) (hx : IsMark x) {groups ts : List Token}
    {spaced : Bool} (h : SnippetTokens R groups spaced c ts d) (ht : Twin w x c c')
    (hd : d.pos ≤ c.pos + w.length) : Carried w c c' d (SnippetTokens R groups spaced c' ts) := by
  induction h generalizing w c' with
  | @close spaced c d k hgap hk =>
    subst hgap
    have hle : gap true [] c ≤ c.rest.length := Scan.blankLength_le _ _
    have hpos := Cursor.pos_forward hle
    have h2 : 2 ≤ (c.forward (gap true [] c)).rest.length := by rw [hk]; simp
    have hpos2 := Cursor.pos_forward h2
    have hw : gap true [] c + 2 ≤ w.length := by omega
    have hgap : gap true [] c' = gap true [] c := ht.gap_eq hx (by omega)
    have hplace := ht.forward (n := gap true [] c) (by omega)
    obtain ⟨v, k', -, hk', -⟩ := hplace.rest_two (by rw [List.length_drop]; omega) hk
    refine ⟨gap true [] c + 2, hw, Cursor.forward_add _ _ _, ?_⟩
    have hclose : SnippetTokens R [] spaced c' _ _ := .close rfl (hgap ▸ hk')
    rw [hgap, ← Cursor.forward_add, hplace.line, hplace.col, hplace.pos] at hclose
    exact hclose
  | @more groups spaced c d e u us h hs ih =>
    have hmid := (hs.before hR).lt
    obtain ⟨n, hn, rfl, h'⟩ := h.twin hR hS hx ht (by omega)
    have hpos := Cursor.pos_forward (ht.le_rest hn).1
    have hmore := ih (ht.forward hn) (by rw [List.length_drop]; omega)
    exact (Carried.after hn hmore).imp fun m _ _ hs' => .more h' hs'

/-- The snippets of a text do not depend on what stands behind the mark. -/
lemma SnippetAt.steady (hx : IsMark x) (allowance : Nat) :
    SnippetRel.Steady (SnippetAt allowance) x := by
  induction allowance with
  | zero => exact fun _ _ _ _ _ _ h => h.elim
  | succ n ih => exact fun _ _ _ _ _ ht h hd => SnippetTokens.twin (SnippetAt.moves n) ih hx h ht hd

end

end StpLang
