import StpLang.Proofs.Lex.Causes
import StpLang.Proofs.Lex.Spelled
import StpLang.Proofs.Lex.Tiled
import StpLang.Token.Stepwise

/-!
Reading ends.

The reader that takes one character at a time does what the lexer does. So its loops end,
and it never takes a character behind the end of the text, although its inner loops do
not look whether there is one: what they have seen ahead tells them.

* `ended` is the outcome of a step that ends.
* `collect_eq` and `skipBlanks_eq` are the loops, from what is ahead.
* `segments_eq`, `nextToken_eq` and `snippetTokens_eq` follow the lexer through a string,
  a token and a snippet; `snippet_eq` closes the circle.
* `LexOutcome` lists how reading a text can end, and `stepwise_ends` is the result: a clock
  that counts twice the characters of the text, and a little more, never runs out.
-/

namespace StpLang

open Lexer

/-! ### Steps that end -/

/-- The outcome of a step of the lexer, as that of a step that ends. -/
def ended {α : Type} : EStateM.Result Error Lexer α → Option (Except Error α × Lexer)
  | .ok a t => some (.ok a, t)
  | .error e t => some (.error e, t)

namespace Stepwise

variable {α β : Type} {s t : Lexer} {x : Stepwise α} {f : α → Stepwise β} {y : Lex α}
  {g : α → Lex β} {clock : Nat}

lemma lift_eq (y : Lex α) (s : Lexer) : lift y s = ended (y s) := by
  unfold lift
  cases y s <;> rfl

lemma run_here (f : Cursor → Stepwise β) (s : Lexer) : (here >>= f) s = f s.cursor s := rfl

lemma run_get (f : Lexer → Stepwise β) (s : Lexer) : (get >>= f) s = f s s := rfl

lemma run_ok {a : α} (h : x s = some (.ok a, t)) : (x >>= f) s = f a t := by
  show (x s).bind _ = _
  rw [h]
  rfl

lemma run_error {e : Error} (h : x s = some (.error e, t)) :
    (x >>= f) s = some (.error e, t) := by
  show (x s).bind _ = _
  rw [h]
  rfl

/-- Steps in sequence follow the lexer when each of them does. -/
lemma bind_eq (hx : x s = ended (y s))
    (hf : ∀ a t, y s = .ok a t → f a t = ended (g a t)) : (x >>= f) s = ended ((y >>= g) s) := by
  cases hy : y s with
  | ok a t =>
    rw [hy] at hx
    rw [run_ok hx, bind_ok hy, hf a t hy]
  | error e t =>
    rw [hy] at hx
    rw [run_error hx, bind_error hy]
    rfl

/-- A step whose result does not matter. -/
lemma run_discard {a : α} {f : Unit → Stepwise β} (h : x s = some (.ok a, t)) :
    (discard x >>= f) s = f () t := by
  refine run_ok ?_
  show (x s).bind _ = _
  rw [h]
  rfl

/-! ### Loops -/

lemma advance_eq {c : Char} {k : List Char} (h : s.cursor.rest = c :: k) :
    advance s = some (.ok c, { s with cursor := s.cursor.forward 1 }) := by
  have hnext : s.cursor.next = .ok (c, s.cursor.step) := by
    unfold Cursor.next
    rw [h]
  have hrun : Lexer.advance s = .ok c { s with cursor := s.cursor.step } := by
    unfold Lexer.advance
    rw [run_cursorHere, hnext]
    rfl
  rw [advance, lift_eq, hrun]
  rfl

lemma rest_forward_one {c : Cursor} {a : Char} {k : List Char} (h : c.rest = a :: k) :
    (c.forward 1).rest = k := by
  rw [Cursor.rest_forward, h]
  rfl

/-- Characters that are there can be taken. -/
lemma take_eq {w k : List Char} (h : s.cursor.rest = w ++ k) :
    take w.length s = some (.ok w, { s with cursor := s.cursor.forward w.length }) := by
  induction w generalizing s with
  | nil => rfl
  | cons a w ih =>
    rw [List.length_cons, take, run_ok (advance_eq h), run_ok (ih (rest_forward_one h))]
    rfl

/-- The loop takes the characters up to the place where the text no longer asks for it. -/
lemma collect_eq {more : List Char → Bool} {w k : List Char} (h : s.cursor.rest = w ++ k)
    (hw : ∀ v, v ≠ [] → v <:+ w → more (v ++ k) = true) (hk : more k = false)
    (hclock : w.length < clock) :
    collect more clock s = some (.ok w, { s with cursor := s.cursor.forward w.length }) := by
  induction clock generalizing s w with
  | zero => cases hclock
  | succ clock ih =>
    cases w with
    | nil =>
      rw [collect, run_here, h, List.nil_append, hk]
      rfl
    | cons a w =>
      have hmore : more s.cursor.rest = true := by
        rw [h]
        exact hw _ (by simp) List.suffix_rfl
      have hih := ih (s := { s with cursor := s.cursor.forward 1 }) (rest_forward_one h)
        (fun v hne hv => hw v hne (hv.trans (List.suffix_cons a w)))
        (Nat.lt_of_succ_lt_succ hclock)
      rw [collect, run_here, hmore, if_pos rfl, run_ok (advance_eq h), run_ok hih]
      rfl

/-- The loop takes the characters of a class. -/
lemma collect_class (p : Char → Bool) (hclock : s.cursor.rest.length < clock) :
    collect (fun k => k.head?.any p) clock s
      = some (.ok (s.cursor.rest.takeWhile p),
          { s with cursor := s.cursor.forward (s.cursor.rest.takeWhile p).length }) := by
  refine collect_eq List.takeWhile_append_dropWhile.symm (fun v hne hv => ?_) ?_
    (Nat.lt_of_le_of_lt (List.takeWhile_sublist _).length_le hclock)
  · obtain ⟨a, v, rfl⟩ := List.exists_cons_of_ne_nil hne
    exact Scan.forall_mem_takeWhile p _ a (hv.mem List.mem_cons_self)
  · have hhead := Scan.head?_dropWhile p s.cursor.rest
    cases hd : s.cursor.rest.dropWhile p with
    | nil => rfl
    | cons a k =>
      rw [hd] at hhead
      exact hhead a rfl

lemma collectUpTo_eq (p : Char → Bool) (n : Nat) (s : Lexer) :
    collectUpTo p n s
      = some (.ok ((s.cursor.rest.take n).takeWhile p),
          { s with cursor := s.cursor.forward ((s.cursor.rest.take n).takeWhile p).length }) := by
  induction n generalizing s with
  | zero => rfl
  | succ n ih =>
    rw [collectUpTo, run_here]
    cases hr : s.cursor.rest with
    | nil => rfl
    | cons a k =>
      rw [List.take_succ_cons, List.takeWhile_cons]
      cases ha : p a with
      | false =>
        rw [if_neg (by simp [ha])]
        rfl
      | true =>
        rw [if_pos (by simp [ha]), run_ok (advance_eq hr), run_ok (ih _),
          rest_forward_one hr]
        rfl

/-! ### White space -/

/-- One blank or one line end that is white space. -/
lemma skipBlank_one {inSnippet : Bool} {a : Char} {k : List Char} (h : s.cursor.rest = a :: k)
    (ha : (a = ' ' ∨ a = '\t' ∨ a = '\r')
      ∨ a = '\n' ∧ (inSnippet || !s.groups.isEmpty) = true) :
    skipBlank inSnippet clock s
      = some (.ok true, { s with cursor := s.cursor.forward 1 }) := by
  rw [skipBlank, run_get, h]
  dsimp only
  by_cases hblank : (a = ' ' || a = '\t' || a = '\r') = true
  · rw [if_pos hblank, run_discard (advance_eq h)]
    rfl
  · simp only [Bool.or_eq_true, decide_eq_true_eq] at hblank
    have hline : a = '\n' ∧ (inSnippet || !s.groups.isEmpty) = true :=
      ha.resolve_left fun h => hblank (or_assoc.mpr h)
    rw [if_neg (by simpa using hblank), if_pos (by simp [hline.1, hline.2]),
      run_discard (advance_eq h)]
    rfl

/-- A backslash, perhaps a carriage return, and a line feed. The line feed that is looked
for is there. -/
lemma skipBlank_continuation {inSnippet : Bool} {w k : List Char}
    (h : s.cursor.rest = '\\' :: (w ++ '\n' :: k)) (hw : '\n' ∉ w)
    (hc : Scan.isContinuation s.cursor.rest = true) (hclock : w.length < clock) :
    skipBlank inSnippet clock s
      = some (.ok true, { s with cursor := s.cursor.forward (w.length + 2) }) := by
  have hafter := rest_forward_one h
  have hfeed : (s.cursor.forward (w.length + 1)).rest = '\n' :: k := by
    rw [Nat.add_comm, Cursor.forward_add, Cursor.rest_forward, hafter, List.drop_left]
  have hcollect : collect (fun k => k.head? != some '\n') clock
      { s with cursor := s.cursor.forward 1 }
        = some (.ok w, { s with cursor := (s.cursor.forward 1).forward w.length }) := by
    refine collect_eq hafter (fun v hne hv => ?_) (by simp) hclock
    obtain ⟨a, v, rfl⟩ := List.exists_cons_of_ne_nil hne
    have ha : a ≠ '\n' := fun ha => hw (ha ▸ hv.mem List.mem_cons_self)
    simpa using ha
  rw [← Cursor.forward_add, Nat.add_comm] at hcollect
  rw [skipBlank, run_get]
  rw [h] at hc ⊢
  dsimp only
  rw [if_neg (by decide), if_neg (by simp), if_pos hc, run_discard (advance_eq h),
    run_discard hcollect, run_discard (advance_eq hfeed), ← Cursor.forward_add]
  rfl

/-- The state behind `n` characters of white space. -/
def behindBlanks (s : Lexer) (n : Nat) : Lexer :=
  { s with cursor := s.cursor.forward n, spaced := s.spaced || n != 0 }

/-- White space that has been taken, and what is behind it. -/
lemma skipBlanks_step {inSnippet : Bool} {m n : Nat} (hm : m ≠ 0)
    (h : skipBlank inSnippet clock s = some (.ok true, { s with cursor := s.cursor.forward m }))
    (hs : skipBlanks inSnippet clock (behindBlanks s m)
      = some (.ok (), behindBlanks (behindBlanks s m) n)) :
    skipBlanks inSnippet (clock + 1) s = some (.ok (), behindBlanks s (n + m)) := by
  have hspaced : (s.spaced || m != 0) = true := by simp [hm]
  have hmn : (n + m != 0) = true := by
    rw [bne_iff_ne]
    omega
  have hstate : behindBlanks (behindBlanks s m) n = behindBlanks s (n + m) := by
    simp only [behindBlanks, hspaced, hmn, Bool.or_true, Bool.true_or, ← Cursor.forward_add,
      Nat.add_comm m n]
  rw [skipBlanks, run_ok h, if_pos rfl]
  show skipBlanks inSnippet clock { s with cursor := s.cursor.forward m, spaced := true } = _
  rw [← hstate, ← hs, behindBlanks, hspaced]

/-- Where no white space is ahead, none is taken. -/
lemma skipBlanks_done {inSnippet : Bool} (h : skipBlank inSnippet clock s = some (.ok false, s)) :
    skipBlanks inSnippet (clock + 1) s = some (.ok (), behindBlanks s 0) := by
  have hstate : behindBlanks s 0 = s := by simp [behindBlanks, Cursor.forward_zero]
  rw [skipBlanks, run_ok h, hstate]
  rfl

/-- All white space ahead is taken. -/
lemma skipBlanks_eq (inSnippet : Bool) (hclock : s.cursor.rest.length < clock) :
    skipBlanks inSnippet clock s = some (.ok (), pastBlanks inSnippet s) := by
  suffices h : ∀ lineEnds cs clock s, s.cursor.rest = cs →
      (inSnippet || !s.groups.isEmpty) = lineEnds → cs.length ≤ clock →
      skipBlanks inSnippet (clock + 1) s
        = some (.ok (), behindBlanks s (Scan.blankLength lineEnds cs)) by
    obtain ⟨n, rfl⟩ := Nat.exists_eq_add_of_lt hclock
    exact h _ _ _ s rfl rfl (Nat.le_add_right ..)
  intro lineEnds cs clock s hr hl hclock
  -- in each round white space has been taken, and so the clock stays ahead
  fun_induction Scan.blankLength lineEnds cs generalizing s clock with
  | case1 cs ih | case2 cs ih | case3 cs ih =>
    obtain ⟨n, rfl⟩ := Nat.exists_eq_add_of_lt hclock
    exact skipBlanks_step Nat.one_ne_zero (skipBlank_one hr (.inl (by simp)))
      (ih _ _ (rest_forward_one hr) hl (Nat.le_add_right ..))
  | case4 cs hlines ih =>
    obtain ⟨n, rfl⟩ := Nat.exists_eq_add_of_lt hclock
    exact skipBlanks_step Nat.one_ne_zero (skipBlank_one hr (.inr ⟨rfl, hl.trans hlines⟩))
      (ih _ _ (rest_forward_one hr) hl (Nat.le_add_right ..))
  | case5 cs hlines =>
    refine skipBlanks_done ?_
    rw [skipBlank, run_get, hr]
    have hno : (inSnippet || !s.groups.isEmpty) = false := by
      rw [hl]
      exact Bool.eq_false_iff.mpr hlines
    simp only [hno]
    rfl
  | case6 cs ih =>
    obtain ⟨n, rfl⟩ := Nat.exists_eq_add_of_lt hclock
    exact skipBlanks_step (by decide)
      (skipBlank_continuation (w := []) hr (by simp) (by rw [hr]; rfl) (Nat.succ_pos _))
      (ih _ _ (by simp [behindBlanks, hr]) hl (by simp only [List.length_cons]; omega))
  | case7 cs ih =>
    obtain ⟨n, rfl⟩ := Nat.exists_eq_add_of_lt hclock
    exact skipBlanks_step (by decide)
      (skipBlank_continuation (w := ['\r']) hr (by simp) (by rw [hr]; rfl)
        (by simp only [List.length_cons, List.length_nil]; omega))
      (ih _ _ (by simp [behindBlanks, hr]) hl (by simp only [List.length_cons]; omega))
  | case8 cs hblank htab hreturn hline hfeed hreturnFeed =>
    refine skipBlanks_done ?_
    have hcontinued : Scan.isContinuation cs = false := by
      unfold Scan.isContinuation
      split
      · exact (hfeed _ rfl).elim
      · exact (hreturnFeed _ rfl).elim
      · rfl
    rw [skipBlank, run_get, hr]
    cases cs with
    | nil => rfl
    | cons a k =>
      have ha : a ≠ ' ' ∧ a ≠ '\t' ∧ a ≠ '\r' ∧ a ≠ '\n' :=
        ⟨fun h => hblank k (h ▸ rfl), fun h => htab k (h ▸ rfl), fun h => hreturn k (h ▸ rfl),
          fun h => hline k (h ▸ rfl)⟩
      simp only [ha, hcontinued, decide_false, Bool.or_false, Bool.false_and,
        Bool.false_eq_true, if_false]
      rfl

/-! ### Tokens without pieces -/

lemma comment_eq (hclock : s.cursor.rest.length < clock) :
    comment clock s = ended ((do Lexer.emit .comment (← restOfLine) s.cursor : Lex Token) s) := by
  have htake : s.cursor.rest.take (Scan.lineLength s.cursor.rest)
      = s.cursor.rest.takeWhile (· != '\n') := Scan.take_takeWhile _ _
  show _ = ended (Lexer.emit .comment (String.ofList (Text.trimEnd (· == '\r')
    (s.cursor.rest.take (Scan.lineLength s.cursor.rest)))) s.cursor []
    { s with cursor := s.cursor.forward (Scan.lineLength s.cursor.rest) })
  rw [comment, run_here, run_ok (collect_class _ hclock), lift_eq, htake]
  rfl

lemma word_eq (hclock : s.cursor.rest.length < clock) :
    word clock s = ended (Lexer.word s) := by
  have htext : s.cursor.textTo (s.cursor.forward (Scan.wordLength s.cursor.rest))
      = String.ofList (s.cursor.rest.takeWhile Scan.continuesWord) := by
    rw [Cursor.textTo_forward_take Scan.wordLength_le, Scan.wordLength, Scan.take_takeWhile]
  unfold Lexer.word
  rw [run_cursorHere, run_skip, run_cursorHere, word, run_here, run_ok (collect_class _ hclock),
    run_here, lift_eq, htext]
  rfl

lemma digits_eq (hclock : s.cursor.rest.length < clock) :
    digits clock s = some (.ok (s.cursor.rest.take (Scan.digitsLength s.cursor.rest)),
      { s with cursor := s.cursor.forward (Scan.digitsLength s.cursor.rest) }) := by
  rw [digits, collect_class _ hclock, Scan.digitsLength, Scan.take_takeWhile]

lemma fraction_eq (hclock : s.cursor.rest.length < clock) :
    fraction clock s = some (.ok (s.cursor.rest.take (Scan.fractionLength s.cursor.rest)),
      { s with cursor := s.cursor.forward (Scan.fractionLength s.cursor.rest) }) := by
  rw [fraction, run_here]
  by_cases h : ∃ x k, s.cursor.rest = '.' :: x :: k ∧ x.isDigit = true
  · obtain ⟨x, k, hr, hx⟩ := h
    have hpos : Scan.digitsLength (x :: k) ≠ 0 := by simp [Scan.digitsLength, hx]
    rw [hr]
    have hshort : (s.cursor.forward 1).rest.length < clock := by
      rw [hr, List.length_cons] at hclock
      rw [rest_forward_one hr]
      omega
    have hdigits := digits_eq (s := { s with cursor := s.cursor.forward 1 }) hshort
    show (if x.isDigit = true then (do return (← advance) :: (← digits clock)) else pure [] :
      Stepwise (List Char)) s = _
    rw [if_pos hx, run_ok (advance_eq hr), run_ok hdigits, rest_forward_one hr,
      Scan.fractionLength, if_neg hpos, Nat.add_comm 1, List.take_succ_cons]
    rfl
  · have hzero : Scan.fractionLength s.cursor.rest = 0 := by
      unfold Scan.fractionLength
      split
      · rename_i k hr
        refine if_pos ?_
        cases k with
        | nil => rfl
        | cons x k =>
          have hx : ¬x.isDigit = true := fun hx => h ⟨x, k, hr, hx⟩
          simp [Scan.digitsLength, hx]
      · rfl
    rw [hzero]
    refine congrFun (?_ : _ = (pure [] : Stepwise (List Char))) s
    split
    · rename_i x k hr
      exact if_neg fun hx => h ⟨x, k, hr, hx⟩
    · rfl

lemma number_eq (hclock : s.cursor.rest.length < clock) :
    number clock s = ended (Lexer.number s) := by
  have htext : s.cursor.textTo (s.cursor.forward (Scan.numberLength s.cursor.rest))
      = String.ofList (s.cursor.rest.take (Scan.digitsLength s.cursor.rest)
        ++ (s.cursor.rest.drop (Scan.digitsLength s.cursor.rest)).take
          (Scan.fractionLength (s.cursor.rest.drop (Scan.digitsLength s.cursor.rest)))) := by
    rw [Cursor.textTo_forward_take Scan.numberLength_le, ← List.take_add]
    rfl
  unfold Lexer.number
  have hshort : (s.cursor.forward (Scan.digitsLength s.cursor.rest)).rest.length < clock := by
    rw [Cursor.rest_forward, List.length_drop]
    omega
  have hfraction := fraction_eq
    (s := { s with cursor := s.cursor.forward (Scan.digitsLength s.cursor.rest) }) hshort
  rw [run_cursorHere, run_skip, run_cursorHere, htext, number, run_here,
    run_ok (digits_eq hclock), run_ok hfraction, lift_eq]
  simp only [Cursor.rest_forward, ← Cursor.forward_add]
  rfl

lemma operator_eq (c : Char) (s : Lexer) : operator c s = ended (Lexer.operator c s) := by
  rw [run_operator, operator, run_here]
  cases ho : Scan.operator? s.cursor.rest with
  | none => rfl
  | some o =>
    obtain ⟨spelling, kind⟩ := o
    obtain ⟨-, k, hk⟩ := Scan.operator?_inv ho
    have htake := take_eq hk
    rw [String.length_toList] at htake
    dsimp only
    rw [run_discard htake]
    rfl

lemma snippetClose_eq {k : List Char} (h : s.cursor.rest = '\\' :: '}' :: k)
    (inSnippet : Bool) : snippetClose inSnippet s = ended (Lexer.snippetClose inSnippet s) := by
  have htext : s.cursor.textTo (s.cursor.forward 2) = String.ofList ['\\', '}'] := by
    rw [Cursor.textTo_forward_take (by rw [h]; simp), h]
    rfl
  have htake : take 2 s = some (.ok ['\\', '}'], { s with cursor := s.cursor.forward 2 }) :=
    take_eq (w := ['\\', '}']) h
  obtain ⟨cursor, groups, spaced, trace⟩ := s
  cases inSnippet with
  | false => rfl
  | true =>
    cases groups with
    | cons g gs => rfl
    | nil =>
      show (take 2 >>= fun mark => lift (Lexer.emit .snippetClose (String.ofList mark) cursor)) _
        = ended (Lexer.emit .snippetClose (cursor.textTo (cursor.forward 2)) cursor [] _)
      rw [run_ok htake, lift_eq, htext]

/-! ### Pieces of strings -/

lemma plainRun_eq (hclock : s.cursor.rest.length < clock) :
    plainRun clock s = ended (Lexer.plainRun s) := by
  have htext : s.cursor.textTo (s.cursor.forward (s.cursor.rest.takeWhile Scan.isPlain).length)
      = String.ofList (s.cursor.rest.takeWhile Scan.isPlain) := by
    rw [Cursor.textTo_forward_take (List.takeWhile_sublist _).length_le, Scan.take_takeWhile]
  rw [plainRun, run_here, run_ok (collect_class _ hclock), ← htext]
  rfl

lemma unicodeEscape_eq {k : List Char} (h : s.cursor.rest = 'x' :: k) (c : Cursor) :
    unicodeEscape c s = ended (Lexer.unicodeEscape c s) := by
  have hrest := rest_forward_one h
  unfold Lexer.unicodeEscape
  rw [run_skip, run_cursorHere, unicodeEscape, run_discard (advance_eq h), run_here, hrest]
  cases hn : Scan.escapeDigits? (Scan.hexLength k) with
  | none => rfl
  | some n =>
    have hlen : (k.take n).length = n := by
      rw [List.length_take, Nat.min_eq_left (Scan.escapeDigits?_le hn)]
    have htake := take_eq (s := { s with cursor := s.cursor.forward 1 })
      (hrest.trans (List.take_append_drop n k).symm)
    rw [hlen] at htake
    exact run_ok htake

lemma octalEscape_eq (c : Cursor) (s : Lexer) :
    octalEscape c s = ended (Lexer.octalEscape c s) := by
  unfold Lexer.octalEscape
  rw [octalEscape, run_ok (collectUpTo_eq _ 3 s), run_cursorHere, run_skip]
  change (if Scan.octalLength s.cursor.rest = 3 then _ else _ : Stepwise _) _ = _
  split <;> rfl

/-! ### Strings, snippets and tokens -/

variable {limit depth : Int} {f : Lex (List Token)} {R : SnippetRel}

/-- Snippets at a level are read as a step of the lexer reads them, whenever the clock
counts twice the characters ahead and five more. -/
def FollowsSnippets (limit depth : Int) (f : Lex (List Token)) : Prop :=
  ∀ {clock : Nat} {s : Lexer}, 2 * s.cursor.rest.length + 5 ≤ clock →
    snippet limit depth clock s = ended (f s)

/-- A clock that counts more than nothing has a round left. -/
lemma exists_clock {n : Nat} (h : n + 1 ≤ clock) : ∃ k, clock = k + 1 :=
  Nat.exists_eq_add_one.mpr (Nat.lt_of_lt_of_le (Nat.succ_pos n) h)

/-- A backslash and what follows it. -/
lemma escape_eq (hf : FollowsSnippets limit depth f) {k : List Char}
    (h : s.cursor.rest = '\\' :: k) (hclock : 2 * s.cursor.rest.length + 2 ≤ clock) :
    escape limit depth clock s = ended (Lexer.escape f s) := by
  obtain ⟨clock, rfl⟩ := exists_clock hclock
  have hrest := rest_forward_one h
  unfold Lexer.escape
  rw [run_cursorHere, run_skip, run_cursorHere, escape, run_here, run_discard (advance_eq h),
    run_here, hrest]
  cases k with
  | nil => rfl
  | cons x k =>
    dsimp only
    unfold escapeForm
    by_cases hsimple : Scan.isSimpleEscape x = true
    · rw [if_pos hsimple, if_pos hsimple, run_discard (advance_eq hrest), lift_eq]
      rfl
    rw [if_neg hsimple, if_neg hsimple]
    by_cases hunicode : x = 'x'
    · subst hunicode
      rw [if_pos rfl, if_pos rfl]
      exact bind_eq (unicodeEscape_eq hrest _) fun _ _ _ => lift_eq _ _
    rw [if_neg hunicode, if_neg hunicode]
    by_cases hoctal : Scan.isOctalDigit x = true
    · rw [if_pos hoctal, if_pos hoctal]
      exact bind_eq (octalEscape_eq _ _) fun _ _ _ => lift_eq _ _
    rw [if_neg hoctal, if_neg hoctal]
    by_cases hopen : x = '{'
    · rw [if_pos hopen, if_pos hopen, run_discard (advance_eq hrest), bind_assoc, run_skip,
        bind_assoc]
      refine bind_eq (hf ?_) fun ts t _ => ?_
      · rw [h, List.length_cons, List.length_cons] at hclock
        rw [rest_forward_one hrest]
        omega
      · rw [pure_bind, lift_eq]
    rw [if_neg hopen, if_neg hopen]
    split <;> rfl

lemma segments_plain {a : Char} {k : List Char} (hr : s.cursor.rest = a :: k)
    (ha : Scan.isPlain a = true) :
    segments limit depth (clock + 1) s
      = (do return (← plainRun clock) :: (← segments limit depth clock) :
          Stepwise (List (Segment Token))) s := by
  simp only [Scan.isPlain, Bool.and_eq_true, bne_iff_ne] at ha
  rw [segments, run_here, hr]
  refine congrFun ?_ s
  split
  · contradiction
  · simp_all
  · simp_all
  · rfl

/-- The pieces of a string. Each of them leaves less of the text ahead. -/
lemma segments_eq (hf : FollowsSnippets limit depth f) (hR : ReadsSnippets f R)
    (hm : R.Moves) {bound : Nat} (hb : s.cursor.rest.length ≤ bound)
    (hclock : 2 * s.cursor.rest.length + 3 ≤ clock) :
    segments limit depth clock s = ended (stringSegments f bound s) := by
  induction bound generalizing s clock with
  | zero =>
    have hr : s.cursor.rest = [] := List.length_eq_zero_iff.mp (Nat.le_zero.mp hb)
    obtain ⟨clock, rfl⟩ := exists_clock hclock
    rw [segments, run_here, hr, stringSegments]
    rfl
  | succ bound ih =>
    obtain ⟨clock, rfl⟩ := exists_clock hclock
    cases hr : s.cursor.rest with
    | nil =>
      rw [segments, run_here, hr, stringSegments, run_cursorHere, hr]
      rfl
    | cons a k =>
      by_cases hquote : a = '"'
      · subst hquote
        rw [segments, run_here, hr, stringSegments, run_cursorHere, hr]
        exact run_discard (advance_eq hr)
      by_cases hback : a = '\\'
      · subst hback
        rw [segments, run_here, hr, stringSegments, run_cursorHere, hr]
        refine bind_eq (escape_eq hf hr (by omega)) fun seg t ht => ?_
        obtain ⟨form, hform, -⟩ := escape_inv hR hr ht
        have hlt := (hform.before hm).rest_lt
        exact bind_eq (ih (by omega) (by omega)) fun _ _ _ => rfl
      · have ha : Scan.isPlain a = true := by
          simp only [Scan.isPlain, Bool.and_eq_true, bne_iff_ne]
          exact ⟨hquote, hback⟩
        rw [segments_plain hr ha, stringSegments_plain hr ha]
        refine bind_eq (plainRun_eq (by omega)) fun seg t ht => ?_
        have hlt : t.cursor.rest.length < s.cursor.rest.length := by
          cases ht
          exact (before_plain hr ha).rest_lt
        exact bind_eq (ih (by omega) (by omega)) fun _ _ _ => rfl

/-- One token. -/
lemma nextToken_eq (hf : FollowsSnippets limit depth f) (hR : ReadsSnippets f R)
    (hm : R.Moves) (inSnippet : Bool) (hclock : 2 * s.cursor.rest.length + 3 ≤ clock) :
    nextToken limit inSnippet depth clock s = ended (Lexer.nextToken inSnippet f s) := by
  obtain ⟨clock, rfl⟩ := exists_clock hclock
  rw [nextToken, run_ok (skipBlanks_eq inSnippet (by omega)), run_here, run_nextToken]
  have hle : (pastBlanks inSnippet s).cursor.rest.length ≤ s.cursor.rest.length := by
    rw [pastBlanks, Cursor.rest_forward, List.length_drop]
    exact Nat.sub_le ..
  generalize pastBlanks inSnippet s = u at hle
  have hinv := Scan.Opening.of_inv u.cursor.rest
  cases ho : Scan.Opening.of u.cursor.rest with
  | nothing => exact lift_eq _ _
  | lineEnd =>
    rw [ho] at hinv
    obtain ⟨k, hk⟩ := hinv
    exact run_discard (advance_eq hk)
  | comment => exact comment_eq (by omega)
  | snippetClose =>
    rw [ho] at hinv
    obtain ⟨k, hk⟩ := hinv
    exact snippetClose_eq hk _
  | word => exact word_eq (by omega)
  | digit => exact number_eq (by omega)
  | quote =>
    rw [ho] at hinv
    obtain ⟨k, hk⟩ := hinv
    have hrest := rest_forward_one hk
    rw [hk, List.length_cons] at hle
    dsimp only
    rw [run_discard (advance_eq hk), run_string, hk]
    refine bind_eq (segments_eq hf hR hm (Nat.le_of_eq ?_) ?_) fun pieces t _ => ?_
    · rw [hrest]
      rfl
    · rw [hrest]
      omega
    · rw [run_here, run_cursorHere, lift_eq]
  | symbol x => exact operator_eq x _

/-- The tokens of a snippet. Each of them leaves less of the text ahead. -/
lemma snippetTokens_eq (hf : FollowsSnippets limit depth f) (hR : ReadsSnippets f R)
    (hm : R.Moves) {bound : Nat} (hb : s.cursor.rest.length ≤ bound)
    (hclock : 2 * s.cursor.rest.length + 4 ≤ clock) :
    snippetTokens limit depth clock s
      = ended (Lexer.snippetTokens (Lexer.nextToken true f) bound s) := by
  induction bound generalizing s clock with
  | zero =>
    obtain ⟨clock, rfl⟩ := exists_clock hclock
    have hnext : nextToken limit true depth clock s = ended (Lexer.nextToken true f s) :=
      nextToken_eq hf hR hm true (by omega)
    have hr : s.cursor.rest = [] := List.length_eq_zero_iff.mp (Nat.le_zero.mp hb)
    rw [snippetTokens, Lexer.snippetTokens]
    cases hu : Lexer.nextToken true f s with
    | error e t =>
      rw [hu] at hnext
      rw [run_error hnext, bind_error hu]
      rfl
    | ok u t =>
      cases nextToken_inv hR hu with
      | token hcut =>
        have hlt := (hcut.before hm).rest_lt
        omega
      | text hin => cases hin
      | snippet _ hrest =>
        rw [pastBlanks, Cursor.rest_forward, hr, List.drop_nil] at hrest
        cases hrest
  | succ bound ih =>
    obtain ⟨clock, rfl⟩ := exists_clock hclock
    rw [snippetTokens, Lexer.snippetTokens]
    refine bind_eq (nextToken_eq hf hR hm true (by omega)) fun u t hu => ?_
    cases hk : u.kind == .snippetClose with
    | true => rfl
    | false =>
      cases nextToken_inv hR hu with
      | token hcut =>
        have hlt := (hcut.before hm).rest_lt
        exact bind_eq (ih (by omega) (by omega)) fun _ _ _ => rfl
      | text hin => cases hin
      | snippet _ _ _ _ hu =>
        subst hu
        cases hk

/-- A snippet: what is inside of it is read with one more level around it. -/
lemma snippet_step {n : Nat} (hn : (limit - depth).toNat = n + 1)
    (hf : FollowsSnippets limit (depth + 1) (readSnippet limit n)) :
    FollowsSnippets limit depth (readSnippet limit (n + 1)) := by
  intro clock s hclock
  obtain ⟨clock, rfl⟩ := exists_clock hclock
  have hdeep : ¬depth + 1 > limit := by omega
  have hlevel : depth + 1 = limit - n := by omega
  rw [snippet, run_get, if_neg hdeep, run_readSnippet]
  rw [hlevel] at hf ⊢
  -- the state behind the note
  generalize hu : ({ s with trace := .snippetEntered s.cursor.line s.cursor.col (limit - n)
    :: s.trace } : Lexer) = u
  have hnote : lift (note (.snippetEntered s.cursor.line s.cursor.col (limit - n))) s
      = some (.ok (), u) := by
    rw [← hu]
    rfl
  have hlen : s.cursor.rest.length = u.cursor.rest.length := by rw [← hu]
  rw [run_ok hnote, hlen, within, Lexer.within, snippetTokens_eq hf (readsSnippets limit n)
    (SnippetAt.moves n) (Nat.le_refl _) (by dsimp only; omega)]
  cases Lexer.snippetTokens (Lexer.nextToken true (readSnippet limit n)) u.cursor.rest.length
    { cursor := u.cursor, trace := u.trace } <;> rfl

/-- Snippets are read as the lexer reads them. -/
lemma snippet_eq (limit depth : Int) :
    FollowsSnippets limit depth (readSnippet limit (limit - depth).toNat) := by
  induction hn : (limit - depth).toNat generalizing depth with
  | zero =>
    intro clock s hclock
    obtain ⟨clock, rfl⟩ := exists_clock hclock
    have hdeep : depth + 1 > limit := by omega
    rw [snippet, run_get, if_pos hdeep]
    rfl
  | succ n ih => exact snippet_step hn (ih (depth + 1) (by omega))

/-! ### Whole texts -/

/-- Whatever the limit and the level, a token is read as the lexer reads it. -/
lemma nextToken_eq_lexer (limit : Int) (inSnippet : Bool) (depth : Int)
    (hclock : 2 * s.cursor.rest.length + 3 ≤ clock) :
    nextToken limit inSnippet depth clock s
      = ended (Lexer.nextToken inSnippet (readSnippet limit (limit - depth).toNat) s) :=
  nextToken_eq (snippet_eq limit depth) (readsSnippets limit _) (SnippetAt.moves _) inSnippet
    hclock

/-- Reading all tokens ends as cutting the text does. -/
lemma tokens_eq (limit : Int) (s : Lexer) :
    ∀ clock, 2 * s.cursor.rest.length + 4 ≤ clock →
      ∃ t, tokens limit clock s = some ((lexFrom limit s).toExcept, t) := by
  have hnext {clock : Nat} {s : Lexer} (hclock : 2 * s.cursor.rest.length + 4 ≤ clock + 1) :
      nextToken limit false 0 clock s = ended (textToken limit s) := by
    rw [nextToken_eq_lexer limit false 0 (by omega), Int.sub_zero]
  refine lexFrom_induction (P := fun s l => ∀ clock, 2 * s.cursor.rest.length + 4 ≤ clock →
    ∃ t, tokens limit clock s = some (l.toExcept, t)) ?_ ?_ ?_ s
  · intro s e t h clock hclock
    obtain ⟨clock, rfl⟩ := exists_clock hclock
    have hstep := hnext hclock
    rw [h] at hstep
    exact ⟨t, by rw [tokens, run_error hstep, lexFrom_error h]; rfl⟩
  · intro s u t h hu clock hclock
    obtain ⟨clock, rfl⟩ := exists_clock hclock
    have hstep := hnext hclock
    rw [h] at hstep
    refine ⟨t, ?_⟩
    rw [tokens, run_ok hstep, if_pos (by simp [hu]), lexFrom_eof h hu]
    rfl
  · intro s u t h hu ih clock hclock
    obtain ⟨clock, rfl⟩ := exists_clock hclock
    have hlt := textToken_lt h hu
    obtain ⟨v, hv⟩ := ih clock (by omega)
    have hstep := hnext hclock
    rw [h] at hstep
    refine ⟨v, ?_⟩
    rw [tokens, run_ok hstep, if_neg (by simpa using hu)]
    cases hl : (lexFrom limit t).fault with
    | none =>
      rw [Lexed.toExcept, hl] at hv
      rw [run_ok hv, Lexed.toExcept, Lexed.cons, hl]
      rfl
    | some fault =>
      rw [Lexed.toExcept, hl] at hv
      rw [run_error hv, Lexed.toExcept, Lexed.cons, hl]

/-- Reading a text ends as cutting it does. -/
lemma tokenize_eq (source : String) (limit : Int)
    (hclock : 2 * source.toList.length + 4 ≤ clock) :
    tokenize source limit clock = some (StpLang.tokenize source limit) := by
  obtain ⟨t, ht⟩ := tokens_eq limit { cursor := .ofText source } clock hclock
  show (tokens limit clock { cursor := .ofText source }).map Prod.fst = _
  rw [ht]
  rfl

end Stepwise

/-! ### How reading ends -/

/-- The ways in which cutting a text into tokens can end. -/
inductive LexOutcome : Except Error (List Token) → Prop
  | tokens {us : List Token} {e : Token} (before : ∀ u ∈ us, u.kind ≠ .eof)
      (last : e.kind = .eof) : LexOutcome (.ok (us ++ [e]))
  | unexpectedChar {c : Char} {span : Span} : LexOutcome (.error ⟨.unexpectedChar c, span⟩)
  | unterminatedString {e : Error} (h : e.cause.category = .unterminatedString) :
      LexOutcome (.error e)
  | unterminatedEscape {e : Error} (h : e.cause.category = .unterminatedEscape) :
      LexOutcome (.error e)
  | unbalanced {e : Error} (h : e.cause.category = .unbalanced) : LexOutcome (.error e)
  | nesting {e : Error} (h : e.cause.category = .nesting) : LexOutcome (.error e)

lemma lexOutcome_error {e : Error} (h : e.cause.isLexical = true) : LexOutcome (.error e) := by
  obtain ⟨cause, span⟩ := e
  cases cause with
  | unexpectedChar => exact .unexpectedChar
  | unterminatedString | unclosedSnippet => exact .unterminatedString rfl
  | shortUnicodeEscape | shortOctalEscape | unknownEscape => exact .unterminatedEscape rfl
  | strayClose | groupOpenAtClose => exact .unbalanced rfl
  | snippetsTooDeep => exact .nesting rfl
  | _ => cases h

lemma lexOutcome_tokenize (source : String) (limit : Int) :
    LexOutcome (tokenize source limit) := by
  cases h : tokenize source limit with
  | ok ts =>
    obtain ⟨us, e, t, v, rfl, hus, -, he⟩ := lexes_of_tokenize h
    exact .tokens hus.ne_eof he
  | error e =>
    have hlex : (Lexed.run limit (.ofText source)).toExcept = .error e := h
    unfold Lexed.toExcept at hlex
    split at hlex
    · rename_i fault hf
      cases hlex
      exact lexOutcome_error (isLexical_of_fault hf)
    · cases hlex

/-- A token other than the end mark takes part of the text. -/
lemma nextToken_pos_lt {limit : Int} {n : Nat} {inSnippet : Bool} {s t : Lexer} {u : Token}
    (h : nextToken inSnippet (readSnippet limit n) s = .ok u t) (hu : u.kind ≠ .eof) :
    s.cursor.pos < t.cursor.pos := by
  cases nextToken_inv (readsSnippets limit n) h with
  | token hcut => exact (hcut.before (SnippetAt.moves n)).lt
  | text _ _ _ h => exact absurd (by rw [h]; rfl) hu
  | @snippet k _ hrest _ hcur =>
    have hgap := (ahead_gap true s.groups s.cursor).pos_le
    rw [hcur, Cursor.pos_forward (by rw [hrest]; simp)]
    exact Nat.lt_of_le_of_lt hgap (Nat.lt_add_of_pos_right (by decide))

/-- **Reading ends and stays within the text.** Whatever the text and the limit, reading
it one character after the other ends before a clock runs out that counts twice its
characters, and ends as cutting it into tokens does: with tokens of which the last is the
only end mark, or with one of five sorts of errors. And from any place, in a snippet or
not, reading one token ends in the same time, as the lexer does: with the end mark, with a
token that takes part of the text, or with an error, which is never that the text was read
past its end. -/
theorem stepwise_ends (source : String) (limit : Int) :
    (∃ r, LexOutcome r ∧ r = tokenize source limit
      ∧ ∀ clock, 2 * source.toList.length + 4 ≤ clock →
        Stepwise.tokenize source limit clock = some r)
    ∧ ∀ (s : Lexer) (inSnippet : Bool) (depth : Int), ∃ r t,
      ended (nextToken inSnippet (readSnippet limit (limit - depth).toNat) s) = some (r, t)
        ∧ (∀ clock, 2 * s.cursor.rest.length + 3 ≤ clock →
          Stepwise.nextToken limit inSnippet depth clock s = some (r, t))
        ∧ match r with
          | .ok u => u.kind = .eof ∨ s.cursor.pos < t.cursor.pos
          | .error e => e.cause ≠ .readPastEnd := by
  refine ⟨⟨_, lexOutcome_tokenize source limit, rfl, fun clock => Stepwise.tokenize_eq source limit⟩,
    fun s inSnippet depth => ?_⟩
  have hrun {clock : Nat} (hclock : 2 * s.cursor.rest.length + 3 ≤ clock) :=
    Stepwise.nextToken_eq_lexer limit inSnippet depth hclock
  cases hu : nextToken inSnippet (readSnippet limit (limit - depth).toNat) s with
  | ok u t =>
    rw [hu] at hrun
    refine ⟨.ok u, t, rfl, fun clock => hrun, ?_⟩
    by_cases hk : u.kind = .eof
    · exact .inl hk
    · exact .inr (nextToken_pos_lt hu hk)
  | error e t =>
    rw [hu] at hrun
    refine ⟨.error e, t, rfl, fun clock => hrun, fun hpast => ?_⟩
    have hlexical := (raises_nextToken inSnippet (raises_readSnippet limit _)).cause hu
    rw [hpast] at hlexical
    cases hlexical

/-- A string with a snippet, and an escape that is cut short. -/
theorem stepwise_ends_strings :
    (∃ r, LexOutcome r ∧ r = tokenize "\"\\\x7bb\\\x7d\"" 1 ∧ r.toOption.isSome = true
      ∧ Stepwise.tokenize "\"\\\x7bb\\\x7d\"" 1 18 = some r)
    ∧ ∃ r, LexOutcome r ∧ r = tokenize "\"\\x4\"" 1 ∧ r.toOption.isSome = false
      ∧ Stepwise.tokenize "\"\\x4\"" 1 14 = some r := by
  obtain ⟨⟨r, hr, rfl, hend⟩, -⟩ := stepwise_ends "\"\\\x7bb\\\x7d\"" 1
  obtain ⟨⟨r, hr', rfl, hend'⟩, -⟩ := stepwise_ends "\"\\x4\"" 1
  exact ⟨⟨_, hr, rfl, by decide +kernel, hend 18 (by decide)⟩,
    _, hr', rfl, by decide +kernel, hend' 14 (by decide)⟩

end StpLang
