import Mathlib.Data.List.Forall2
import StpLang.Proofs.Lex.Leading
import StpLang.Proofs.Lex.Spelled

/-!
Cutting a text with other line ends.

Where a text has a line end, another one has a carriage return and a line end. The
return is white space before the line end, or it belongs to a comment, which loses it
again, or it stands in a string. So the tokens of the two texts correspond: only the
places of line ends and the text of strings differ.

* `withReturns` puts a return before every line end.
* `Returned` relates the places of the two texts at the same character, and `Midway`
  those where the second text has passed the return but not the line end.
* `Token.Alike` says what corresponding tokens have in common.
* `Lexeme.returned` and `Cut.returned` carry a token over, `Lexes.returned` a text.
-/

namespace StpLang

open Lexer

/-- The characters with a carriage return before every line end. -/
def withReturns (cs : List Char) : List Char :=
  cs.flatMap fun x => if x = '\n' then ['\r', '\n'] else [x]

@[simp] lemma withReturns_nil : withReturns [] = [] := rfl

@[simp] lemma withReturns_lineEnd (k : List Char) :
    withReturns ('\n' :: k) = '\r' :: '\n' :: withReturns k := rfl

lemma withReturns_cons {x : Char} (hx : x ≠ '\n') (k : List Char) :
    withReturns (x :: k) = x :: withReturns k := by
  rw [withReturns, List.flatMap_cons, if_neg hx]
  rfl

lemma withReturns_append (w k : List Char) :
    withReturns (w ++ k) = withReturns w ++ withReturns k := List.flatMap_append

lemma withReturns_eq {w : List Char} (h : '\n' ∉ w) : withReturns w = w := by
  induction w with
  | nil => rfl
  | cons x w ih =>
    rw [List.mem_cons, not_or] at h
    rw [withReturns_cons (Ne.symm h.1), ih h.2]

/-! ### What the lexer looks at -/

section

variable {k w : List Char} {n : Nat}

/-- Characters without a line end stay the same. -/
lemma take_withReturns (h : '\n' ∉ k.take n) : (withReturns k).take n = k.take n := by
  induction n generalizing k with
  | zero => rfl
  | succ n ih =>
    cases k with
    | nil => rfl
    | cons x k =>
      rw [List.take_succ_cons, List.mem_cons, not_or] at h
      rw [withReturns_cons (Ne.symm h.1), List.take_succ_cons, List.take_succ_cons, ih h.2]

lemma drop_withReturns (h : '\n' ∉ k.take n) : (withReturns k).drop n = withReturns (k.drop n) := by
  induction n generalizing k with
  | zero => rfl
  | succ n ih =>
    cases k with
    | nil => rfl
    | cons x k =>
      rw [List.take_succ_cons, List.mem_cons, not_or] at h
      rw [withReturns_cons (Ne.symm h.1), List.drop_succ_cons, List.drop_succ_cons, ih h.2]

/-- A run of characters that neither a return nor a line end continues. -/
lemma takeWhile_withReturns {p : Char → Bool} (hn : p '\n' = false) (hr : p '\r' = false)
    (k : List Char) : (withReturns k).takeWhile p = k.takeWhile p := by
  induction k with
  | nil => rfl
  | cons x k ih =>
    by_cases hx : x = '\n'
    · subst hx
      rw [withReturns_lineEnd, List.takeWhile_cons_of_neg (by simp [hr]),
        List.takeWhile_cons_of_neg (by simp [hn])]
    · rw [withReturns_cons hx, List.takeWhile_cons, List.takeWhile_cons, ih]

/-- A run of at most `n` characters that neither a return nor a line end continues. -/
lemma takeWhile_take_withReturns {p : Char → Bool} (hn : p '\n' = false) (hr : p '\r' = false)
    (k : List Char) (n : Nat) :
    ((withReturns k).take n).takeWhile p = (k.take n).takeWhile p := by
  induction n generalizing k with
  | zero => rfl
  | succ n ih =>
    cases k with
    | nil => rfl
    | cons x k =>
      by_cases hx : x = '\n'
      · subst hx
        rw [withReturns_lineEnd, List.take_succ_cons, List.take_succ_cons,
          List.takeWhile_cons_of_neg (by simp [hr]), List.takeWhile_cons_of_neg (by simp [hn])]
      · rw [withReturns_cons hx, List.take_succ_cons, List.take_succ_cons, List.takeWhile_cons,
          List.takeWhile_cons, ih]

lemma digitsLength_withReturns (k : List Char) :
    Scan.digitsLength (withReturns k) = Scan.digitsLength k := by
  rw [Scan.digitsLength, takeWhile_withReturns rfl rfl, Scan.digitsLength]

lemma fractionLength_withReturns (k : List Char) :
    Scan.fractionLength (withReturns k) = Scan.fractionLength k := by
  cases k with
  | nil => rfl
  | cons x k =>
    by_cases hx : x = '\n'
    · subst hx
      rfl
    · rw [withReturns_cons hx]
      by_cases hd : x = '.'
      · subst hd
        rw [Scan.fractionLength, digitsLength_withReturns, Scan.fractionLength]
      · simp [Scan.fractionLength, hd]

lemma not_mem_takeWhile {p : Char → Bool} (hp : p '\n' = false) (k : List Char) :
    '\n' ∉ k.takeWhile p := fun h => by
  rw [Scan.forall_mem_takeWhile p k _ h] at hp
  cases hp

lemma numberLength_withReturns (k : List Char) :
    Scan.numberLength (withReturns k) = Scan.numberLength k := by
  have hline : '\n' ∉ k.take (Scan.digitsLength k) := by
    rw [Scan.digitsLength, Scan.take_takeWhile]
    exact not_mem_takeWhile rfl k
  simp only [Scan.numberLength, digitsLength_withReturns, drop_withReturns hline,
    fractionLength_withReturns]

/-- A text continues a line where the other one does. -/
lemma isContinuation_withReturns (hk : '\r' ∉ k) :
    Scan.isContinuation (withReturns k) = Scan.isContinuation k := by
  match k with
  | [] => rfl
  | [x] => by_cases hx : x = '\n' <;> simp [withReturns, hx, isContinuation_cons]
  | x :: y :: k =>
    simp only [List.mem_cons, not_or] at hk
    by_cases hx : x = '\n'
    · subst hx
      rfl
    · rw [withReturns_cons hx, isContinuation_cons, isContinuation_cons]
      by_cases hy : y = '\n'
      · subst hy
        simp
      · have hr : (y == '\r') = false := beq_eq_false_iff_ne.mpr (Ne.symm hk.2.1)
        simp [withReturns_cons hy, hr]

lemma startsWithSpace_withReturns (hk : '\r' ∉ k) :
    Scan.startsWithSpace (withReturns k) = Scan.startsWithSpace k := by
  cases k with
  | nil => rfl
  | cons x k =>
    by_cases hx : x = '\n'
    · subst hx
      rfl
    · have hcontinued := isContinuation_withReturns hk
      rw [withReturns_cons hx] at hcontinued ⊢
      simp only [Scan.startsWithSpace, hcontinued]

lemma mem_take_withReturns (h : '\n' ∈ k.take n) : '\r' ∈ (withReturns k).take n := by
  induction n generalizing k with
  | zero => simp at h
  | succ n ih =>
    cases k with
    | nil => cases h
    | cons x k =>
      by_cases hx : x = '\n'
      · subst hx
        exact List.mem_cons_self
      · rw [List.take_succ_cons, List.mem_cons] at h
        rw [withReturns_cons hx, List.take_succ_cons]
        exact List.mem_cons_of_mem _ (ih (h.resolve_left (Ne.symm hx)))

/-- No operator holds a return or a line end. -/
lemma operator?_withReturns (k : List Char) :
    Scan.operator? (withReturns k) = Scan.operator? k := by
  have hops : ∀ o ∈ TokenKind.operators, '\n' ∉ o.1.toList ∧ '\r' ∉ o.1.toList := by decide
  have hlength : ∀ n, Scan.operatorOfLength? (withReturns k) n = Scan.operatorOfLength? k n := by
    intro n
    by_cases hn : '\n' ∈ k.take n
    · have hnone : ∀ {cs : List Char}, (∀ o ∈ TokenKind.operators, o.1.toList ≠ cs.take n) →
          Scan.operatorOfLength? cs n = none := fun h =>
        List.find?_eq_none.mpr fun o ho heq => h o ho (eq_of_beq heq)
      rw [hnone fun o ho heq => (hops o ho).1 (heq ▸ hn),
        hnone fun o ho heq => (hops o ho).2 (heq ▸ mem_take_withReturns hn)]
    · rw [Scan.operatorOfLength?, take_withReturns hn, Scan.operatorOfLength?]
  rw [Scan.operator?, funext hlength, Scan.operator?]

end

/-! ### Places -/

/-- One place of the two texts: the same characters are ahead, but for the returns, and
no return in the first text. -/
structure Returned (c c' : Cursor) : Prop where
  rest : c'.rest = withReturns c.rest
  plain : '\r' ∉ c.rest
  line : c'.line = c.line
  col : c'.col = c.col
  behind : Scan.endsWithBlank c'.past = Scan.endsWithBlank c.past

/-- A line end is ahead, and in the second text its return has been passed. -/
structure Midway (c c' : Cursor) : Prop where
  rest : ∃ k, c.rest = '\n' :: k ∧ c'.rest = '\n' :: withReturns k
  plain : '\r' ∉ c.rest
  line : c'.line = c.line

section

variable {c c' d : Cursor} {k : List Char} {x : Char} {n : Nat}

namespace Returned

lemma step (h : Returned c c') (hc : c.rest = x :: k) (hx : x ≠ '\n') :
    Returned c.step c'.step ∧ c'.rest = x :: withReturns k := by
  have hrest := h.rest
  have hplain := h.plain
  rw [hc, withReturns_cons hx] at hrest
  rw [hc, List.mem_cons, not_or] at hplain
  refine ⟨⟨?_, ?_, ?_, ?_, ?_⟩, hrest⟩
  · simp [hrest, hc]
  · simp [hc, hplain.2]
  · simp only [Cursor.step, hrest, hc, if_neg hx, h.line]
  · simp only [Cursor.step, hrest, hc, if_neg hx, h.col]
  · simp only [Cursor.step, hrest, hc]
    unfold Scan.endsWithBlank
    split <;> simp_all

/-- Before a line end. -/
lemma midway (h : Returned c c') (hc : c.rest = '\n' :: k) :
    Midway c c'.step ∧ c'.rest = '\r' :: '\n' :: withReturns k := by
  have hrest := h.rest
  rw [hc, withReturns_lineEnd] at hrest
  refine ⟨⟨⟨k, hc, ?_⟩, h.plain, ?_⟩, hrest⟩
  · simp [hrest]
  · simp only [Cursor.step, hrest, h.line]
    rfl

end Returned

/-- Behind the line end. -/
lemma Midway.step (h : Midway c c') : Returned c.step c'.step := by
  obtain ⟨k, hc, hc'⟩ := h.rest
  have hplain := h.plain
  rw [hc, List.mem_cons, not_or] at hplain
  refine ⟨?_, ?_, ?_, ?_, ?_⟩
  · simp [hc, hc']
  · simp [hc, hplain.2]
  · simp only [Cursor.step, hc, hc', h.line]
  · simp only [Cursor.step, hc, hc']
    rfl
  · simp only [Cursor.step, hc, hc']
    rfl

namespace Returned

/-- Over characters without a line end. -/
lemma forward (h : Returned c c') (hn : '\n' ∉ c.rest.take n) :
    Returned (c.forward n) (c'.forward n) ∧ c'.rest.take n = c.rest.take n := by
  refine ⟨?_, by rw [h.rest, take_withReturns hn]⟩
  induction n generalizing c c' with
  | zero => exact h
  | succ n ih =>
    cases hc : c.rest with
    | nil =>
      have hc' : c'.rest = [] := by rw [h.rest, hc, withReturns_nil]
      have hstay : c.step = c ∧ c'.step = c' := by simp [Cursor.step, hc, hc']
      rw [Cursor.forward_succ, Cursor.forward_succ, hstay.1, hstay.2]
      exact ih h (by simp [hc])
    | cons x k =>
      rw [hc, List.take_succ_cons, List.mem_cons, not_or] at hn
      have hs := (h.step hc (Ne.symm hn.1)).1
      exact ih hs (by rw [Cursor.rest_step, hc]; exact hn.2)

/-- Over any characters, with the returns among them. -/
lemma forward_withReturns (h : Returned c c') (n : Nat) :
    Returned (c.forward n) (c'.forward (withReturns (c.rest.take n)).length) := by
  induction n generalizing c c' with
  | zero => exact h
  | succ n ih =>
    cases hc : c.rest with
    | nil =>
      have hstay : c.step = c := by simp [Cursor.step, hc]
      have hmore := ih h
      rw [hc, List.take_nil] at hmore
      rwa [Cursor.forward_succ, hstay, List.take_nil]
    | cons x k =>
      by_cases hx : x = '\n'
      · subst hx
        have hmore := ih (h.midway hc).1.step
        rwa [Cursor.rest_step, hc] at hmore
      · have hmore := ih (h.step hc hx).1
        rw [Cursor.rest_step, hc] at hmore
        rwa [List.take_succ_cons, withReturns_cons hx]

end Returned

/-! ### White space -/

/-- The first place behind white space, in both texts: a character that is no line end
is ahead, or the second text has passed a return. -/
inductive SpaceEnds (b : Bool) (c c' : Cursor) : Prop
  | same (h : Returned (c.forward (Scan.blankLength b c.rest))
        (c'.forward (Scan.blankLength b c'.rest)))
      (hne : (c.forward (Scan.blankLength b c.rest)).rest.head? ≠ some '\n')
      (hgap : (Scan.blankLength b c'.rest != 0) = (Scan.blankLength b c.rest != 0)) :
      SpaceEnds b c c'
  | midway (h : Midway (c.forward (Scan.blankLength b c.rest))
        (c'.forward (Scan.blankLength b c'.rest))) : SpaceEnds b c c'

lemma SpaceEnds.blanks {b : Bool} {d d' : Cursor} {i j : Nat} (h : SpaceEnds b d d')
    (hd : c.forward i = d) (hd' : c'.forward j = d') (hi : i ≠ 0) (hj : j ≠ 0)
    (hl : Scan.blankLength b c.rest = Scan.blankLength b d.rest + i)
    (hl' : Scan.blankLength b c'.rest = Scan.blankLength b d'.rest + j) : SpaceEnds b c c' := by
  have hc : c.forward (Scan.blankLength b c.rest) = d.forward (Scan.blankLength b d.rest) := by
    rw [hl, Nat.add_comm, Cursor.forward_add, hd]
  have hc' : c'.forward (Scan.blankLength b c'.rest)
      = d'.forward (Scan.blankLength b d'.rest) := by
    rw [hl', Nat.add_comm, Cursor.forward_add, hd']
  cases h with
  | same h hne _ =>
    have hgap : Scan.blankLength b c.rest ≠ 0 ∧ Scan.blankLength b c'.rest ≠ 0 := by omega
    exact .same (by rwa [hc, hc']) (by rwa [hc])
      (by rw [bne_iff_ne.mpr hgap.1, bne_iff_ne.mpr hgap.2])
  | midway h => exact .midway (by rwa [hc, hc'])

/-- White space ends at corresponding places. -/
lemma Returned.spaceEnds (h : Returned c c') (b : Bool) : SpaceEnds b c c' := by
  generalize hl : c.rest = l
  fun_induction Scan.blankLength b l generalizing c c' with
  | case1 k ih | case2 k ih =>
    obtain ⟨hs, hrest⟩ := h.step hl (by decide)
    refine (ih hs (by simp [hl])).blanks (i := 1) (j := 1) rfl rfl (by decide) (by decide) ?_ ?_
    · rw [Cursor.rest_step, hl]
      rfl
    · rw [Cursor.rest_step, hrest]
      rfl
  | case3 k => exact absurd (hl ▸ List.mem_cons_self) h.plain
  | case4 k hb ih =>
    subst hb
    obtain ⟨hm, hrest⟩ := h.midway hl
    refine (ih hm.step (by simp [hl])).blanks (i := 1) (j := 2) rfl rfl (by decide)
      (by decide) ?_ ?_
    · rw [Cursor.rest_step, hl]
      rfl
    · rw [Cursor.rest_step, Cursor.rest_step, hrest]
      rfl
  | case5 k hb =>
    obtain ⟨hm, hrest⟩ := h.midway hl
    refine .midway ?_
    have hzero : ∀ cs, Scan.blankLength b ('\n' :: cs) = 0 := fun cs => by
      rw [Scan.blankLength, if_neg hb]
    rw [hl, hrest, Scan.blankLength, hzero, hzero]
    exact hm
  | case6 k ih =>
    obtain ⟨hs, hrest⟩ := h.step hl (by decide)
    have hstep : c.step.rest = '\n' :: k := by simp [hl]
    obtain ⟨hm, -⟩ := hs.midway hstep
    refine (ih hm.step (by simp [hl])).blanks (i := 2) (j := 3) rfl rfl (by decide)
      (by decide) ?_ ?_
    · rw [Cursor.rest_step, hstep, hl]
      rfl
    · rw [Cursor.rest_step, Cursor.rest_step, Cursor.rest_step, hrest]
      rfl
  | case7 k =>
    exact absurd (hl ▸ List.mem_cons_of_mem _ List.mem_cons_self) h.plain
  | case8 l h1 h2 h3 h4 h5 h6 =>
    have hspace : Scan.startsWithSpace c.rest = false := by
      rw [hl]
      exact startsWithSpace_eq_false h1 h2 h3 h4 h5 h6
    have hzero := blankLength_eq_zero hspace b
    have hzero' : Scan.blankLength b c'.rest = 0 := by
      refine blankLength_eq_zero ?_ b
      rw [h.rest, startsWithSpace_withReturns h.plain, hspace]
    refine .same ?_ (fun hx => ?_) (by rw [hzero, hzero'])
    · rw [hzero, hzero']
      exact h
    · rw [hzero, Cursor.forward_zero, hl] at hx
      obtain ⟨k, hk⟩ := List.head?_eq_some_iff.mp hx
      exact h4 k hk

lemma Midway.spaceEnds (h : Midway c c') (b : Bool) : SpaceEnds b c c' := by
  obtain ⟨k, hc, hc'⟩ := h.rest
  cases b with
  | true =>
    refine (h.step.spaceEnds true).blanks (i := 1) (j := 1) rfl rfl (by decide) (by decide) ?_ ?_
    · rw [Cursor.rest_step, hc]
      rfl
    · rw [Cursor.rest_step, hc']
      rfl
  | false =>
    refine .midway ?_
    rw [hc, hc']
    exact h

end

/-! ### Tokens -/

/-- Corresponding forms of the pieces of a string, where `Q` relates the tokens of
snippets. -/
inductive SegmentForm.Alike (Q : List Token → List Token → Prop) :
    SegmentForm Token → SegmentForm Token → Prop
  | snippet {ts ts' : List Token} (h : Q ts ts') : Alike Q (.snippet ts) (.snippet ts')
  | other {form : SegmentForm Token} (h : ∀ ts, form ≠ .snippet ts) : Alike Q form form

/-- Corresponding pieces of strings: line ends stand among the plain characters and
within snippets only. -/
structure Segment.Alike (Q : List Token → List Token → Prop) (seg seg' : Segment Token) : Prop
    where
  form : seg.form.Alike Q seg'.form
  chars : seg.form = .chars → seg'.text = String.ofList (withReturns seg.text.toList)
  text : seg.form ≠ .chars → (∀ ts, seg.form ≠ .snippet ts) → seg'.text = seg.text
  line : seg'.line = seg.line
  col : seg'.col = seg.col

/-- Corresponding tokens: the text of strings may differ, and the place of line ends. -/
structure Token.Alike (Q : List Token → List Token → Prop) (t t' : Token) : Prop where
  kind : t'.kind = t.kind
  value : t.kind ≠ .string → t'.value = t.value
  line : t'.line = t.line
  col : t.kind ≠ .newline → t'.col = t.col
  spaced : t.kind ≠ .newline → t'.spaced = t.spaced
  segments : List.Forall₂ (Segment.Alike Q) t.segments t'.segments

/-- Corresponding tokens of a snippet in which `allowance - 1` further ones may be
entered. -/
def SnippetsAlike : (allowance : Nat) → List Token → List Token → Prop
  | 0 => fun _ _ => False
  | allowance + 1 => List.Forall₂ (Token.Alike (SnippetsAlike allowance))

/-- The tokens of snippets at corresponding places correspond. -/
def SnippetRel.Returns (R : SnippetRel) (Q : List Token → List Token → Prop) : Prop :=
  ∀ ⦃c c' ts d⦄, Returned c c' → R c ts d → ∃ ts' d', R c' ts' d' ∧ Returned d d' ∧ Q ts ts'

section

variable {R : SnippetRel} {Q : List Token → List Token → Prop} {c c' d : Cursor}
  {segs : List (Segment Token)}

lemma Cursor.textTo_takeWhile (c : Cursor) (p : Char → Bool) :
    c.textTo (c.forward (c.rest.takeWhile p).length) = String.ofList (c.rest.takeWhile p) := by
  rw [textTo_forward_take (List.takeWhile_sublist _).length_le, Scan.take_takeWhile]

/-- Characters without a line end have the same text. -/
lemma Returned.textTo {n : Nat} (h : Returned c c') (hn : '\n' ∉ c.rest.take n)
    (hle : n ≤ c.rest.length) : c'.textTo (c'.forward n) = c.textTo (c.forward n) := by
  have htake := (h.forward hn).2
  have hle' : n ≤ c'.rest.length := by
    have := congrArg List.length htake
    rw [List.length_take, List.length_take] at this
    omega
  rw [Cursor.textTo_forward_take hle', Cursor.textTo_forward_take hle, htake]

lemma Returned.rest_escape (h : Returned c c') {x : Char} {k : List Char} (hx : x ≠ '\n')
    (hk : c.rest = '\\' :: x :: k) : c'.rest = '\\' :: x :: withReturns k := by
  rw [h.rest, hk, withReturns_cons (by decide), withReturns_cons hx]

lemma Escape.returned (hR : R.Returns Q) (h : Returned c c') {form : SegmentForm Token}
    (he : Escape R c form d) :
    ∃ form' d', Escape R c' form' d' ∧ Returned d d' ∧ form.Alike Q form'
      ∧ ((∀ ts, form ≠ .snippet ts) → c'.textTo d' = c.textTo d) := by
  -- all escapes but snippets take the same characters in both texts
  have hmoves : ∀ {n}, '\n' ∉ c.rest.take n → n ≤ c.rest.length →
      Returned (c.forward n) (c'.forward n) ∧ c'.textTo (c'.forward n) = c.textTo (c.forward n) :=
    fun hn hle => ⟨(h.forward hn).1, h.textTo hn hle⟩
  have hletter : ∀ {x}, Scan.isHexDigit x = true → x ≠ '\n' := by
    rintro x hx rfl
    cases hx
  cases he with
  | @simple x k hk hx =>
    have hne : x ≠ '\n' := by
      rintro rfl
      cases hx
    obtain ⟨hd, htext⟩ := hmoves (n := 2) (by simp [hk, Ne.symm hne]) (by simp [hk])
    exact ⟨_, _, .simple (h.rest_escape hne hk) hx, hd, .other (by simp), fun _ => htext⟩
  | @unicode k n hk hn =>
    have hdigits := Scan.hex_take hn
    have hline : '\n' ∉ k.take n := fun hmem => hletter (hdigits _ hmem) rfl
    have hle := Scan.escapeDigits?_le hn
    obtain ⟨hd, htext⟩ := hmoves (n := n + 2) (by simpa [hk] using hline) (by simp [hk, hle])
    have hlength : Scan.hexLength (withReturns k) = Scan.hexLength k := by
      rw [Scan.hexLength, takeWhile_take_withReturns rfl rfl, Scan.hexLength]
    have hesc : Escape R c' _ _ :=
      .unicode (h.rest_escape (by decide) hk) (by rw [hlength]; exact hn)
    rw [take_withReturns hline] at hesc
    exact ⟨_, _, hesc, hd, .other (by simp), fun _ => htext⟩
  | @octal k hk hn =>
    obtain ⟨hlen, hdigits⟩ := Scan.octal_take hn
    have hline : '\n' ∉ k.take 3 := fun hmem =>
      hletter (Scan.isHexDigit_of_isOctalDigit (hdigits _ hmem)) rfl
    obtain ⟨hd, htext⟩ := hmoves (n := 4) (by simpa [hk] using hline)
      (by rw [hk, List.length_cons]; rw [List.length_take] at hlen; omega)
    have hlength : Scan.octalLength (withReturns k) = 3 := by
      rw [Scan.octalLength, takeWhile_take_withReturns rfl rfl]
      exact hn
    refine ⟨_, _, .octal (k := withReturns k) ?_ hlength, hd, .other (by simp), fun _ => htext⟩
    rw [h.rest, hk, withReturns_cons (by decide)]
  | @snippet k ts d hk hs =>
    obtain ⟨hd, -⟩ := hmoves (n := 2) (by simp [hk]) (by simp [hk])
    obtain ⟨ts', d', hs', hd', hts⟩ := hR hd hs
    exact ⟨_, d', .snippet (h.rest_escape (by decide) hk) hs', hd', .snippet hts,
      fun hne => absurd rfl (hne ts)⟩

/-- A run of characters that both a return and a line end continue. -/
lemma takeWhile_withReturns_of {p : Char → Bool} (hn : p '\n' = true) (hr : p '\r' = true)
    (k : List Char) : (withReturns k).takeWhile p = withReturns (k.takeWhile p) := by
  induction k with
  | nil => rfl
  | cons x k ih =>
    by_cases hx : x = '\n'
    · subst hx
      rw [withReturns_lineEnd, List.takeWhile_cons_of_pos hr, List.takeWhile_cons_of_pos hn,
        List.takeWhile_cons_of_pos hn, ih, withReturns_lineEnd]
    · rw [withReturns_cons hx, List.takeWhile_cons, List.takeWhile_cons, ih]
      split
      · rw [withReturns_cons hx]
      · rfl

lemma Pieces.returned (hR : R.Returns Q) (h : Returned c c') (hp : Pieces R c segs d) :
    ∃ segs' d', Pieces R c' segs' d' ∧ Returned d d'
      ∧ List.Forall₂ (Segment.Alike Q) segs segs' := by
  induction hp generalizing c' with
  | @close c k hk =>
    obtain ⟨hs, hrest⟩ := h.step hk (by decide)
    exact ⟨[], _, .close hrest, hs, .nil⟩
  | @plain c d segs x k hk hx _ ih =>
    have hrun := takeWhile_withReturns_of (p := Scan.isPlain) rfl rfl c.rest
    rw [← h.rest] at hrun
    have hd := h.forward_withReturns (c.rest.takeWhile Scan.isPlain).length
    rw [Scan.take_takeWhile, ← hrun] at hd
    obtain ⟨segs', d', hmore, hd', hsegs⟩ := ih hd
    have hfirst : ∃ y l, c'.rest = y :: l ∧ Scan.isPlain y = true := by
      rw [h.rest, hk]
      by_cases hn : x = '\n'
      · subst hn
        exact ⟨_, _, rfl, rfl⟩
      · exact ⟨x, _, withReturns_cons hn k, hx⟩
    obtain ⟨y, l, hy, hplain⟩ := hfirst
    refine ⟨_, d', .plain hy hplain hmore, hd', .cons ?_ hsegs⟩
    refine ⟨.other (by simp [Segment.between]), fun _ => ?_, fun hne => absurd rfl hne, h.line,
      h.col⟩
    rw [Segment.between, Segment.between, Cursor.textTo_takeWhile, Cursor.textTo_takeWhile, hrun,
      String.toList_ofList]
  | @escape c d e form segs he _ ih =>
    obtain ⟨form', d', he', hd, hform, htext⟩ := he.returned hR h
    obtain ⟨segs', e', hmore, hend, hsegs⟩ := ih hd
    refine ⟨_, e', .escape he' hmore, hend, .cons ?_ hsegs⟩
    refine ⟨hform, fun hc => ?_, fun _ hne => htext hne, h.line, h.col⟩
    change form = .chars at hc
    subst hc
    cases he

/-- The places behind corresponding tokens. -/
def Alongside (c c' : Cursor) : Prop := Returned c c' ∨ Midway c c'

/-- A comment up to the end of its line. -/
lemma Lexeme.returned_comment (h : Returned c c') {k : List Char} (hk : c.rest = '#' :: k) :
    ∃ d', Lexeme R c' .comment
        (String.ofList (Text.trimEnd (· == '\r') (c.rest.take (Scan.lineLength c.rest)))) [] d'
      ∧ Alongside (c.forward (Scan.lineLength c.rest)) d' := by
  have hrest : c'.rest = '#' :: withReturns k := by rw [h.rest, hk, withReturns_cons (by decide)]
  have hcomment : Lexeme R c' .comment _ _ _ := .comment hrest
  have hsplit : c.rest.takeWhile (· != '\n') ++ c.rest.dropWhile (· != '\n') = c.rest :=
    List.takeWhile_append_dropWhile
  have hends := Scan.head?_dropWhile (· != '\n') c.rest
  have hin := Scan.forall_mem_takeWhile (· != '\n') c.rest
  rw [Scan.lineLength, Scan.take_takeWhile]
  have hplain := h.plain
  generalize c.rest.takeWhile (· != '\n') = w at *
  generalize c.rest.dropWhile (· != '\n') = l at *
  have hw : '\n' ∉ w := fun hmem => by simpa using hin _ hmem
  have htake : c.rest.take w.length = w := by rw [← hsplit, List.take_left]
  have hd := (h.forward (n := w.length) (by rwa [htake])).1
  have hrest' : c'.rest = w ++ withReturns l := by
    rw [h.rest, ← hsplit, withReturns_append, withReturns_eq hw]
  cases l with
  | nil =>
    have hlength : Scan.lineLength c'.rest = w.length := by
      rw [Scan.lineLength, hrest', List.takeWhile_append_of_pos hin]
      simp
    rw [hlength, hrest', List.take_left] at hcomment
    exact ⟨_, hcomment, .inl hd⟩
  | cons x l =>
    obtain rfl : x = '\n' := by simpa using hends x rfl
    rw [withReturns_lineEnd] at hrest'
    have hlength : Scan.lineLength c'.rest = w.length + 1 := by
      rw [Scan.lineLength, hrest', List.takeWhile_append_of_pos hin]
      simp
    have hline : c'.rest.take (w.length + 1) = w ++ ['\r'] := by
      rw [hrest', List.take_length_add_append]
      rfl
    have htrim : Text.trimEnd (· == '\r') (w ++ ['\r']) = Text.trimEnd (· == '\r') w := by
      simp [Text.trimEnd]
    rw [hlength, hline, htrim] at hcomment
    refine ⟨_, hcomment, .inr ?_⟩
    rw [Cursor.forward_add]
    exact (hd.midway (k := l) (by rw [Cursor.rest_forward, ← hsplit, List.drop_left])).1

/-- A token that is no line end corresponds to a token of the second text. -/
lemma Lexeme.returned (hR : R.Returns Q) (h : Returned c c') (hne : c.rest.head? ≠ some '\n')
    {kind : TokenKind} {value : String} (hl : Lexeme R c kind value segs d) :
    ∃ value' segs' d', Lexeme R c' kind value' segs' d' ∧ (kind ≠ .string → value' = value)
      ∧ List.Forall₂ (Segment.Alike Q) segs segs' ∧ Alongside d d' := by
  cases hl with
  | lineEnd hk => exact absurd (by rw [hk]; rfl) hne
  | comment hk =>
    obtain ⟨d', hl', hd⟩ := Lexeme.returned_comment (R := R) h hk
    exact ⟨_, [], d', hl', fun _ => rfl, .nil, hd⟩
  | @word x k hk hx =>
    have hword : Scan.wordLength c'.rest = Scan.wordLength c.rest := by
      rw [h.rest, Scan.wordLength, takeWhile_withReturns rfl rfl, Scan.wordLength]
    have hline : '\n' ∉ c.rest.take (Scan.wordLength c.rest) := by
      rw [Scan.wordLength, Scan.take_takeWhile]
      exact not_mem_takeWhile rfl _
    obtain ⟨hd, htake⟩ := h.forward hline
    have hrest := hd.rest
    have hkind : ∀ text, wordKind c'.past text (c'.rest.drop (Scan.wordLength c.rest))
        = wordKind c.past text (c.rest.drop (Scan.wordLength c.rest)) := fun text => by
      have hspace := startsWithSpace_withReturns hd.plain
      rw [← hrest, Cursor.rest_forward, Cursor.rest_forward] at hspace
      simp only [wordKind, h.behind, hspace]
    have hx' : c'.rest = x :: withReturns k := by
      rw [h.rest, hk, withReturns_cons]
      rintro rfl
      cases hx
    have hl' : Lexeme R c' _ _ _ _ := .word hx' hx
    rw [hword, hkind, htake] at hl'
    exact ⟨_, _, _, hl', fun _ => rfl, .nil, .inl hd⟩
  | @number x k hk hx =>
    have hnumber : Scan.numberLength c'.rest = Scan.numberLength c.rest := by
      rw [h.rest, numberLength_withReturns]
    have hline : '\n' ∉ c.rest.take (Scan.numberLength c.rest) := by
      rw [hk]
      intro hmem
      rcases (Scan.numeral_take hx).mem hmem with hx | hx <;> cases hx
    obtain ⟨hd, htake⟩ := h.forward hline
    have hx' : c'.rest = x :: withReturns k := by
      rw [h.rest, hk, withReturns_cons]
      rintro rfl
      cases hx
    have hl' : Lexeme R c' _ _ _ _ := .number hx' hx
    rw [hnumber, htake] at hl'
    exact ⟨_, _, _, hl', fun _ => rfl, .nil, .inl hd⟩
  | @string k segs d hk hs =>
    obtain ⟨hstep, hrest⟩ := h.step hk (by decide)
    obtain ⟨segs', d', hs', hd, hsegs⟩ := hs.returned hR hstep
    exact ⟨_, segs', d', .string hrest hs', fun hk => absurd rfl hk, hsegs, .inl hd⟩
  | @operator spelling kind hop =>
    have hplain : ∀ o ∈ TokenKind.operators, '\n' ∉ o.1.toList := by decide
    obtain ⟨hmem, k, hk⟩ := Scan.operator?_inv hop
    obtain ⟨hd, -⟩ := h.forward (n := value.length) (by
      rw [hk, ← String.length_toList, List.take_left]
      exact hplain _ hmem)
    refine ⟨_, [], _, .operator ?_, fun _ => rfl, .nil, .inl hd⟩
    rw [h.rest, operator?_withReturns, hop]

/-- Groups of the same kinds. -/
def SameGroups (gs gs' : List Token) : Prop := gs'.map (·.kind) = gs.map (·.kind)

lemma SameGroups.isEmpty {gs gs' : List Token} (h : SameGroups gs gs') :
    gs'.isEmpty = gs.isEmpty := by
  have := congrArg List.isEmpty h
  simpa using this

lemma SameGroups.after {gs gs' : List Token} (h : SameGroups gs gs') {t t' : Token}
    (ht : t'.kind = t.kind) : SameGroups (groupsAfter t gs) (groupsAfter t' gs') := by
  unfold groupsAfter
  rw [ht]
  split
  · simpa [SameGroups, ht] using h
  · cases gs with
    | nil =>
      cases gs' with
      | nil => rfl
      | cons => cases h
    | cons g gs =>
      cases gs' with
      | nil => cases h
      | cons g' gs' =>
        obtain ⟨hg, hgs⟩ := List.cons.inj h
        dsimp only at hg ⊢
        rw [hg]
        split
        · exact hgs
        · exact h

lemma Alongside.spaceEnds (h : Alongside c c') (b : Bool) : SpaceEnds b c c' := by
  rcases h with h | h
  · exact h.spaceEnds b
  · exact h.spaceEnds b

/-- A line end corresponds to the line end behind the return. -/
lemma Lexeme.returned_lineEnd (h : Midway c c') {kind : TokenKind} {value : String}
    (hl : Lexeme R c kind value segs d) :
    kind = .newline ∧ segs = [] ∧ Lexeme R c' kind value [] (c'.forward 1)
      ∧ Returned d (c'.forward 1) := by
  obtain ⟨k, hk, hk'⟩ := h.rest
  cases hl with
  | lineEnd => exact ⟨rfl, rfl, .lineEnd hk', h.step⟩
  | comment hc | string hc =>
    rw [hk] at hc
    cases hc
  | word hc hx | number hc hx =>
    rw [hk] at hc
    cases hc
    cases hx
  | operator ho =>
    rw [hk, operator?_lineEnd] at ho
    cases ho

lemma Cut.returned (hR : R.Returns Q) {inSnippet spaced : Bool} {gs gs' : List Token} {t : Token}
    (hgs : SameGroups gs gs') (h : Alongside c c') (hc : Cut R inSnippet gs spaced c t d) :
    ∃ t' d', Cut R inSnippet gs' spaced c' t' d' ∧ t.Alike Q t' ∧ Alongside d d' := by
  obtain ⟨hl⟩ := hc
  have hgap : gap inSnippet gs' c' = Scan.blankLength (inSnippet || !gs.isEmpty) c'.rest := by
    rw [gap, hgs.isEmpty]
  cases h.spaceEnds (inSnippet || !gs.isEmpty) with
  | same hat hne hblank =>
    obtain ⟨value', segs', d', hl', hvalue, hsegs, hd⟩ := hl.returned hR hat hne
    rw [← hgap] at hl'
    refine ⟨_, d', .mk hl', ⟨rfl, hvalue, ?_, fun _ => ?_, fun _ => ?_, hsegs⟩, hd⟩
    · rw [hgap]
      exact hat.line
    · rw [Token.between, hgap]
      exact hat.col
    · change (spaced || gap inSnippet gs' c' != 0) = (spaced || gap inSnippet gs c != 0)
      rw [hgap, hblank, gap]
  | midway hat =>
    obtain ⟨rfl, rfl, hl', hd⟩ := hl.returned_lineEnd hat
    rw [← hgap] at hl'
    refine ⟨_, _, .mk hl', ⟨rfl, fun _ => rfl, ?_, fun hk => absurd rfl hk,
      fun hk => absurd rfl hk, .nil⟩, .inl ?_⟩
    · rw [hgap]
      exact hat.line
    · rw [hgap]
      exact hd

lemma SnippetTokens.returned (hR : R.Returns Q) {gs gs' ts : List Token} {spaced : Bool}
    (hgs : SameGroups gs gs') (h : Alongside c c') (hs : SnippetTokens R gs spaced c ts d) :
    ∃ ts' d', SnippetTokens R gs' spaced c' ts' d' ∧ Returned d d'
      ∧ List.Forall₂ (Token.Alike Q) ts ts' := by
  induction hs generalizing c' gs' with
  | @close spaced c d k hd hk =>
    obtain rfl : gs' = [] := List.map_eq_nil_iff.mp hgs
    cases h.spaceEnds true with
    | same hat hne hblank =>
      have hgap : ∀ e : Cursor, gap true [] e = Scan.blankLength true e.rest := fun _ => rfl
      rw [← hgap, ← hgap, hd] at hat
      refine ⟨_, _, .close rfl (hat.rest_escape (by decide) hk), (hat.forward (by simp [hk])).1,
        .cons ⟨rfl, fun _ => rfl, hat.line, fun _ => hat.col, fun _ => ?_, .nil⟩ .nil⟩
      change (spaced || gap true [] c' != 0) = (spaced || gap true [] c != 0)
      rw [hgap, hgap, hblank]
    | midway hat =>
      obtain ⟨l, hl, -⟩ := hat.rest
      have hgap : Scan.blankLength true c.rest = gap true [] c := rfl
      rw [hgap, hd, hk] at hl
      cases hl
  | more ht _ ih =>
    obtain ⟨t', d', ht', halike, hd⟩ := ht.returned hR hgs h
    obtain ⟨ts', e', hs', he, hts⟩ := ih (hgs.after halike.kind) hd
    rw [← halike.kind] at hs'
    exact ⟨t' :: ts', e', .more ht' hs', he, .cons halike hts⟩

lemma SnippetAt.returned (allowance : Nat) :
    SnippetRel.Returns (SnippetAt allowance) (SnippetsAlike allowance) := by
  induction allowance with
  | zero => exact fun _ _ _ _ _ h => h.elim
  | succ n ih => exact fun _ _ _ _ h hs => SnippetTokens.returned ih rfl (.inl h) hs

end

section

variable {limit : Int} {s s' t : Lexer} {us : List Token}

/-- States of the lexer at corresponding places of the two texts. -/
structure Lexer.InStep (s s' : Lexer) : Prop where
  cursor : Alongside s.cursor s'.cursor
  groups : SameGroups s.groups s'.groups
  spaced : s'.spaced = s.spaced

/-- The leading tokens of the two texts correspond. -/
lemma Lexes.returned (h : Lexes limit s us t) (hs : Lexer.InStep s s') :
    ∃ us' t', Lexes limit s' us' t' ∧ Lexer.InStep t t'
      ∧ List.Forall₂ (Token.Alike (SnippetsAlike limit.toNat)) us us' := by
  induction h generalizing s' with
  | nil s => exact ⟨[], s', .nil s', hs, .nil⟩
  | @cons s t v u us h hu _ ih =>
    obtain ⟨hcut, hg, hsp⟩ := textToken_cut h hu
    obtain ⟨u', d', hcut', hu', hd⟩ :=
      hcut.returned (SnippetAt.returned _) hs.groups hs.cursor
    rw [← hs.spaced] at hcut'
    obtain ⟨t', ht', hne, rfl, hg', hsp'⟩ := textToken_of_cut hcut'
    have hstate : Lexer.InStep t t' :=
      ⟨hd, by rw [hg, hg']; exact hs.groups.after hu'.kind, by rw [hsp, hsp', hu'.kind]⟩
    obtain ⟨us', v', hmore, hv, hus⟩ := ih hstate
    exact ⟨u' :: us', v', .cons ht' hne hmore, hv, .cons hu' hus⟩

end

end StpLang
