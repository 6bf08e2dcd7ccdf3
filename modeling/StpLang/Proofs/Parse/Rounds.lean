import StpLang.Proofs.Parse.PairStatement

/-!
The loop over statements, round by round.

The loop counts its rounds only to be seen to end. Each round passes over a
token, so the count never runs out, and the loop ends where it should: at the
end of the tokens or at the token that closes the block.

* `Round` is one round that does not end the loop, and `Rounds` a sequence of
  them.
* `Round.moves`: every round passes over at least one token.
* `statements_eq_ok_iff`: the loop makes rounds until one of its ends.
-/

namespace StpLang

open Parse Grammar

/-- The loop over statements stops before the token ahead. -/
def LoopEnds (closer : Option TokenKind) (s : Parser) : Prop :=
  s.current.kind.isSeparator = false ∧ (s.current.kind = .eof ∨ closer = some s.current.kind)

/-- A round of the loop over statements that does not end it, with the node
that it makes, if it makes one. -/
inductive Round (strict : Bool) (readOne : Parse Node) (closer : Option TokenKind) :
    Parser → List Node → Parser → Prop
  /-- A separator is passed over. -/
  | separator {s : Parser} (h : s.current.kind.isSeparator = true) :
      Round strict readOne closer s [] s.step
  /-- A statement is read, or an error recovered from. -/
  | read {s t : Parser} {x : Node} (hs : s.current.kind.isSeparator = false)
      (he : ¬LoopEnds closer s) (h : attempt strict closer.isSome readOne s = .ok x t) :
      Round strict readOne closer s [x] t

/-- Rounds in sequence, with the nodes that they make. -/
inductive Rounds (strict : Bool) (readOne : Parse Node) (closer : Option TokenKind) :
    Parser → List Node → Parser → Prop
  | nil (s : Parser) : Rounds strict readOne closer s [] s
  | cons {s t u : Parser} {xs ys : List Node} (h : Round strict readOne closer s xs t)
      (hs : Rounds strict readOne closer t ys u) : Rounds strict readOne closer s (xs ++ ys) u

section

variable {strict : Bool} {readOne : Parse Node} {closer : Option TokenKind} {s t u : Parser}
  {xs ys : List Node}

/-- At the end of the loop there is no further round. -/
lemma Round.not_loopEnds (h : Round strict readOne closer s xs t) : ¬LoopEnds closer s := by
  rintro ⟨hs, he⟩
  cases h with
  | separator h => rw [h] at hs; cases hs
  | read _ hne _ => exact hne ⟨hs, he⟩

/-! ### The loop by its rounds -/

lemma statements_of_loopEnds (h : LoopEnds closer s) (bound : Nat) :
    statements strict readOne closer bound s = .ok [] s := by
  cases bound with
  | zero => rfl
  | succ bound =>
    have hend : (s.current.kind == .eof || closer == some s.current.kind) = true := by
      simpa using h.2
    rw [statements, run_current]
    simp only [h.1, hend, if_true]
    rfl

lemma statements_of_separator (h : s.current.kind.isSeparator = true) (bound : Nat) :
    statements strict readOne closer (bound + 1) s
      = statements strict readOne closer bound s.step := by
  rw [statements, run_current]
  simp only [h, if_true, discard_bind]
  rfl

lemma statements_of_statement (hs : s.current.kind.isSeparator = false)
    (he : ¬LoopEnds closer s) (bound : Nat) :
    statements strict readOne closer (bound + 1) s
      = (attempt strict closer.isSome readOne >>= fun x =>
          statements strict readOne closer bound >>= fun xs => pure (x :: xs)) s := by
  have hend : (s.current.kind == .eof || closer == some s.current.kind) = false := by
    simpa [LoopEnds, hs] using he
  rw [statements, run_current]
  simp only [hs, hend, Bool.false_eq_true, if_false]

/-- Behind the last token every loop ends. -/
lemma loopEnds_of_rest (h : s.rest = []) : LoopEnds closer s := by
  have hk : s.current.kind = .eof := by
    simp only [Parser.current, h, Parser.eof]
    split <;> rfl
  exact ⟨by rw [hk]; rfl, .inl hk⟩

lemma statements_iff_of_loopEnds (he : LoopEnds closer s) (bound : Nat) :
    statements strict readOne closer bound s = .ok xs t
      ↔ Rounds strict readOne closer s xs t ∧ LoopEnds closer t := by
  rw [statements_of_loopEnds he]
  constructor
  · intro h
    cases h
    exact ⟨.nil s, he⟩
  · rintro ⟨h, -⟩
    cases h with
    | nil => rfl
    | cons h => exact absurd he h.not_loopEnds

/-- The loop makes rounds until it comes to one of its ends, provided that the
count suffices and every round passes over a token. -/
lemma statements_eq_ok_iff
    (hmove : ∀ {s t : Parser} {xs : List Node}, Round strict readOne closer s xs t →
      t.rest.length < s.rest.length)
    {bound : Nat} (hb : s.rest.length ≤ bound) :
    statements strict readOne closer bound s = .ok xs t
      ↔ Rounds strict readOne closer s xs t ∧ LoopEnds closer t := by
  induction bound generalizing s xs with
  | zero =>
    exact statements_iff_of_loopEnds (loopEnds_of_rest (List.length_eq_zero_iff.mp (by omega))) 0
  | succ bound ih =>
    by_cases he : LoopEnds closer s
    · exact statements_iff_of_loopEnds he _
    -- the round passes over a token, so the count suffices for the rest
    have hstep {u : Parser} {zs ys : List Node} (h : Round strict readOne closer s zs u) :
        statements strict readOne closer bound u = .ok ys t
          ↔ Rounds strict readOne closer u ys t ∧ LoopEnds closer t :=
      ih (by have := hmove h; omega)
    by_cases hs : s.current.kind.isSeparator = true
    · rw [statements_of_separator hs, hstep (.separator hs)]
      constructor
      · rintro ⟨h, ht⟩
        exact ⟨.cons (.separator hs) h, ht⟩
      · rintro ⟨h, ht⟩
        cases h with
        | nil => exact absurd ht he
        | cons h h' =>
          cases h with
          | separator => exact ⟨h', ht⟩
          | read hs' => rw [hs] at hs'; cases hs'
    · have hs' : s.current.kind.isSeparator = false := by simpa using hs
      rw [statements_of_statement hs' he, bind_eq_ok]
      constructor
      · rintro ⟨x, u, hx, h⟩
        obtain ⟨ys, v, hys, hp⟩ := bind_eq_ok.mp h
        cases hp
        have hr : Round strict readOne closer s [x] u := .read hs' he hx
        obtain ⟨hys, ht⟩ := (hstep hr).mp hys
        exact ⟨.cons hr hys, ht⟩
      · rintro ⟨h, ht⟩
        cases h with
        | nil => exact absurd ht he
        | cons h h' =>
          cases id h with
          | separator h'' => exact absurd h'' hs
          | read _ _ hx =>
            exact ⟨_, _, hx, bind_eq_ok.mpr ⟨_, _, (hstep h).mpr ⟨h', ht⟩, rfl⟩⟩

end

/-! ### The loops of the grammar -/

section

variable {limit : Int} {strict : Bool} {n loops : Nat} {closer : Option TokenKind}
  {s t : Parser} {xs : List Node}

/-- A strict reader and a recovering one each make the moves of a mode in
which they stay with themselves. -/
def Mode.alone : Bool → Mode
  | true => .quiet
  | false => .recovering

lemma Mode.first_alone (strict : Bool) : (Mode.alone strict).first = strict := by
  cases strict <;> rfl

lemma Mode.second_alone (strict : Bool) : (Mode.alone strict).second = strict := by
  cases strict <;> rfl

/-- A reader keeps pace with itself. -/
lemma starts_statement_alone (limit : Int) (strict : Bool) (n loops : Nat) :
    Starts (Mode.alone strict) (statement (level limit strict n) loops)
      (statement (level limit strict n) loops) := by
  have h := starts_statement (levelPair (Mode.alone strict) limit n) loops
  rwa [Mode.first_alone, Mode.second_alone] at h

/-- Every round passes over at least one token, and a strict reader records no
error. -/
lemma Round.moves (h : Round strict (statement (level limit strict n) loops) closer s xs t) :
    ∃ ts es cs, Moves s t ts es cs ∧ ts ≠ [] ∧ (strict = true → es = []) := by
  cases h with
  | separator h =>
    have hne : s.rest ≠ [] := Parser.rest_ne_nil (by intro he; rw [he] at h; cases h)
    obtain ⟨x, ts, hx⟩ := List.exists_cons_of_ne_nil hne
    exact ⟨_, _, _, .step hx, by simp, fun _ => rfl⟩
  | read hs he h =>
    have hk : s.current.kind ≠ .eof := fun hk => he ⟨hs, .inl hk⟩
    have hp := paired_attempt (.refl s) hk closer.isSome
      (starts_statement_alone limit strict n loops)
    rw [Mode.first_alone, Mode.second_alone, h] at hp
    cases hp with
    | ok ht =>
      obtain ⟨ts, ts', es, cs, hm, -, -, hk, hes⟩ := ht
      refine ⟨ts, es, cs, hm, ?_, fun hstrict => ?_⟩
      · rintro rfl
        cases hk
      · subst hstrict
        exact hes.resolve_left (by simp [Mode.alone])

lemma Round.rest_length_lt
    (h : Round strict (statement (level limit strict n) loops) closer s xs t) :
    t.rest.length < s.rest.length := by
  obtain ⟨ts, es, cs, hm, hne, -⟩ := h.moves
  have := List.length_pos_iff.mpr hne
  rw [hm.rest, List.length_append]
  omega

lemma Round.position_lt
    (h : Round strict (statement (level limit strict n) loops) closer s xs t) :
    s.position < t.position := by
  obtain ⟨ts, es, cs, hm, hne, -⟩ := h.moves
  have := List.length_pos_iff.mpr hne
  rw [hm.position]
  omega

/-- The count of rounds with which the grammar starts a loop suffices. -/
lemma statements_iff_rounds {bound : Nat} (hb : s.rest.length ≤ bound) :
    statements strict (statement (level limit strict n) loops) closer bound s = .ok xs t
      ↔ Rounds strict (statement (level limit strict n) loops) closer s xs t
        ∧ LoopEnds closer t :=
  statements_eq_ok_iff Round.rest_length_lt hb

/-- A reader that recovers never fails at a statement. -/
lemma attempt_ok (inBlock : Bool) (readOne : Parse Node) (s : Parser) :
    ∃ x t, attempt false inBlock readOne s = .ok x t := by
  unfold attempt
  cases readOne s with
  | ok x t => exact ⟨x, t, rfl⟩
  | error e t => exact ⟨_, _, rfl⟩

/-- Unless the loop of a recovering reader ends, it makes a further round. -/
lemma exists_round (readOne : Parse Node) (he : ¬LoopEnds closer s) :
    ∃ xs t, Round false readOne closer s xs t := by
  by_cases hs : s.current.kind.isSeparator = true
  · exact ⟨_, _, .separator hs⟩
  · obtain ⟨x, t, hx⟩ := attempt_ok closer.isSome readOne s
    exact ⟨_, _, .read (by simpa using hs) he hx⟩

/-- A recovering reader makes rounds until its loop ends. -/
lemma exists_rounds (limit : Int) (n loops : Nat) (closer : Option TokenKind) (s : Parser) :
    ∃ xs t, Rounds false (statement (level limit false n) loops) closer s xs t
      ∧ LoopEnds closer t := by
  -- each round leaves fewer tokens ahead
  induction hlen : s.rest.length using Nat.strongRecOn generalizing s with
  | _ k ih =>
    by_cases he : LoopEnds closer s
    · exact ⟨[], s, .nil s, he⟩
    · obtain ⟨xs, t, h⟩ := exists_round (statement (level limit false n) loops) he
      obtain ⟨ys, u, hs, hu⟩ := ih _ (hlen ▸ h.rest_length_lt) t rfl
      exact ⟨_, u, .cons h hs, hu⟩

end

end StpLang
