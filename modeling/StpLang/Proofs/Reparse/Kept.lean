import StpLang.Proofs.Grammar.Series
import StpLang.Proofs.Parse.Rounds

/-!
Reading on behind leading statements.

The statements at the beginning of a program are read in the same way whatever
follows them. Then the loop goes on as if it had started there, so that reading
the rest alone gives the statements that follow.

* `statements_of_rounds` goes on behind some rounds of the loop.
* `rounds_of_series` reads leading statements.
* `program_behind` compares a whole program with its rest.
-/

namespace StpLang

open Parse Grammar

/-- Puts nodes before those that a loop makes. -/
def prepend (xs : List Node) :
    EStateM.Result Error Parser (List Node) → EStateM.Result Error Parser (List Node)
  | .ok ys t => .ok (xs ++ ys) t
  | .error e t => .error e t

section

variable {limit : Int} {strict : Bool} {n loops : Nat} {closer : Option TokenKind}
  {s t u : Parser} {xs : List Node}

lemma prepend_nil (r : EStateM.Result Error Parser (List Node)) : prepend [] r = r := by
  cases r <;> rfl

lemma prepend_append (xs ys : List Node) (r : EStateM.Result Error Parser (List Node)) :
    prepend (xs ++ ys) r = prepend xs (prepend ys r) := by
  cases r with
  | ok zs t => exact congrArg (EStateM.Result.ok · t) (List.append_assoc xs ys zs)
  | error e t => rfl

/-- A round of the loop and what follows it. -/
lemma statements_of_round {readOne : Parse Node} (h : Round strict readOne closer s xs t)
    (bound : Nat) :
    statements strict readOne closer (bound + 1) s
      = prepend xs (statements strict readOne closer bound t) := by
  cases h with
  | separator h => rw [statements_of_separator h, prepend_nil]
  | read hs he h =>
    rw [statements_of_statement hs he, bind_ok h]
    cases hr : statements strict readOne closer bound t with
    | ok ys v => rw [bind_ok hr]; rfl
    | error e v => rw [bind_error hr]; rfl

/-- The count of rounds with which a loop starts does not matter when it
suffices. -/
lemma statements_bound {bound bound' : Nat} (hb : s.rest.length ≤ bound)
    (hb' : s.rest.length ≤ bound') :
    statements strict (statement (level limit strict n) loops) closer bound s
      = statements strict (statement (level limit strict n) loops) closer bound' s := by
  induction bound generalizing bound' s with
  | zero =>
    have he : LoopEnds closer s := loopEnds_of_rest (List.length_eq_zero_iff.mp (by omega))
    rw [statements_of_loopEnds he, statements_of_loopEnds he]
  | succ bound ih =>
    by_cases he : LoopEnds closer s
    · rw [statements_of_loopEnds he, statements_of_loopEnds he]
    cases bound' with
    | zero => exact absurd (loopEnds_of_rest (List.length_eq_zero_iff.mp (by omega))) he
    | succ bound' =>
      by_cases hs : s.current.kind.isSeparator = true
      · have hr : Round strict (statement (level limit strict n) loops) closer s [] s.step :=
          .separator hs
        have hlt := hr.rest_length_lt
        rw [statements_of_round hr, statements_of_round hr]
        exact congrArg (prepend _) (ih (by omega) (by omega))
      · have hs' : s.current.kind.isSeparator = false := by simpa using hs
        cases ha : attempt strict closer.isSome (statement (level limit strict n) loops) s with
        | ok x t =>
          have hr : Round strict (statement (level limit strict n) loops) closer s [x] t :=
            .read hs' he ha
          have hlt := hr.rest_length_lt
          rw [statements_of_round hr, statements_of_round hr]
          exact congrArg (prepend _) (ih (by omega) (by omega))
        | error e t =>
          rw [statements_of_statement hs' he, statements_of_statement hs' he, bind_error ha,
            bind_error ha]

/-- The loop behind some of its rounds. -/
lemma statements_of_rounds
    (h : Rounds strict (statement (level limit strict n) loops) closer s xs t) :
    statements strict (statement (level limit strict n) loops) closer s.rest.length s
      = prepend xs
        (statements strict (statement (level limit strict n) loops) closer t.rest.length t) := by
  induction h with
  | nil s => rw [prepend_nil]
  | @cons s t u xs ys h hs ih =>
    have hlt := h.rest_length_lt
    obtain ⟨k, hk⟩ : ∃ k, s.rest.length = k + 1 := ⟨s.rest.length - 1, by omega⟩
    rw [hk, statements_of_round h, statements_bound (by omega) (Nat.le_refl _), ih,
      prepend_append]

/-! ### Leading statements -/

/-- A statement that is derived is read, by a strict reader and by one that
recovers. -/
lemma attempt_of_derives {ts k : List Token} {x : Node}
    (h : Derives n (.statement loops) ts k [x]) (hs : s.rest = ts ++ k) (inBlock : Bool) :
    ∃ t, attempt strict inBlock (statement (level limit strict n) loops) s = .ok x t
      ∧ Passes s t ts := by
  obtain ⟨y, hy, hyields⟩ := h.accepts limit
  cases hy
  obtain ⟨t, ht, hp⟩ := hyields s hs (fun hne => absurd rfl hne)
  cases strict with
  | true =>
    refine ⟨t, ?_, hp⟩
    unfold attempt
    rw [ht]
  | false =>
    have hpair := (starts_statement (levelPair .parting limit n) loops).run s s (.refl s)
    change Paired _ _ _ _ (statement (level limit true n) loops s)
      (statement (level limit false n) loops s) at hpair
    rw [ht] at hpair
    generalize hr : statement (level limit false n) loops s = r at hpair
    cases hpair with
    | @ok _ _ t' htracks =>
      refine ⟨t', ?_, ?_⟩
      · unfold attempt
        rw [hr]
      · obtain ⟨us, us', es, cs, hm, hm', hlen, -, -⟩ := htracks
        obtain ⟨rfl, rfl, rfl⟩ := Moves.unique hp hm
        have hsame : us' = ts :=
          (List.append_inj (hm'.rest.symm.trans hm.rest) hlen).1
        rwa [hsame] at hm'

/-- A statement does not begin with a separator. -/
lemma isSeparator_of_begins {kind : TokenKind} (h : beginsStatement kind = true) :
    kind.isSeparator = false := by
  cases kind <;> first | rfl | cases h

/-- Leading statements are read whatever follows them. -/
lemma rounds_of_series {ts k : List Token} (limit : Int) (strict : Bool)
    (h : Series n loops ts k xs) (hs : s.rest = ts ++ k) :
    ∃ t, Rounds strict (statement (level limit strict n) loops) none s xs t ∧ Passes s t ts := by
  induction h generalizing s with
  | nil => exact ⟨s, .nil s, .refl s⟩
  | @separator x ts k ns hx h ih =>
    have hne : x.kind ≠ .string := fun hk => by rw [hk] at hx; cases hx
    have hp : Passes s s.step [x] := .step hs hne
    have hrest : s.step.rest = ts ++ k := by
      have := hp.rest
      rw [hs] at this
      exact (List.cons.inj this).2.symm
    obtain ⟨t, ht, hpt⟩ := ih hrest
    have hcur : s.current.kind.isSeparator = true := by rwa [Parser.current_of_rest hs]
    exact ⟨t, .cons (.separator hcur) ht, hp.trans hpt⟩
  | @more ts us k x ns h _ ih =>
    rw [List.append_assoc] at hs
    obtain ⟨t, ht, hp⟩ : ∃ t, attempt strict (none : Option TokenKind).isSome
        (statement (level limit strict n) loops) s = .ok x t ∧ Passes s t ts :=
      attempt_of_derives h hs _
    have hrest : t.rest = us ++ k := by
      have := hp.rest
      rw [hs] at this
      exact (List.append_cancel_left this).symm
    obtain ⟨u, hu, hpu⟩ := ih hrest
    obtain ⟨y, ys, rfl, hy⟩ := h.first rfl
    have hcur : s.current = y := Parser.current_of_rest hs
    have hsep : s.current.kind.isSeparator = false := by
      rw [hcur]
      exact isSeparator_of_begins hy
    have hends : ¬LoopEnds none s := by
      rintro ⟨-, heof | hcloser⟩
      · rw [hcur] at heof
        rw [heof] at hy
        cases hy
      · cases hcloser
    have hr : Round strict (statement (level limit strict n) loops) none s [x] t :=
      .read hsep hends ht
    exact ⟨u, .cons hr hu, hp.trans hpu⟩

/-! ### Whole programs -/

/-- The node of a program. -/
abbrev sourceNode (stop : Nat) (children : List Node) : Node :=
  .spanning .sourceFile ⟨1, 1, 0⟩ stop children

/-- A program from the state `s` and its rest from the state `s'` end alike, when
the program has the tokens `ts` and the statements `xs` before its rest. -/
inductive Behind (s s' : Parser) (ts : List Token) (xs : List Node) :
    EStateM.Result Error Parser Node → EStateM.Result Error Parser Node → Prop
  | ok {ys : List Node} {es : List Error} {cs : List Node} {us us' : List Token} {t t' : Parser}
      (hm : Moves s t us es (ts.flatMap Token.snippetComments ++ cs))
      (hm' : Moves s' t' us' es cs) (he : LoopEnds none t)
      (hstop : t'.current.stop = t.current.stop) :
      Behind s s' ts xs (.ok (sourceNode t.current.stop (xs ++ ys)) t)
        (.ok (sourceNode t'.current.stop ys) t')
  | error {e : Error} {t t' : Parser} : Behind s s' ts xs (.error e t) (.error e t')

lemma strict_level (limit : Int) (strict : Bool) (n : Nat) :
    (level limit strict n).strict = strict := by
  cases n <;> rfl

/-- Reading a whole program and reading its rest. -/
theorem program_behind {s s' : Parser} {ts k : List Token} (limit : Int) (strict : Bool)
    (h : Series n loops ts k xs) (hs : s.rest = ts ++ k) (hk : Alike k s'.rest)
    (heof : s'.eof = s.eof) :
    Behind s s' ts xs (program (level limit strict n) loops s)
      (program (level limit strict n) loops s') := by
  rw [run_program, run_program, strict_level]
  generalize hp : { s with trace := .parsingStarted s.count strict :: s.trace } = p
  generalize hp' : { s' with trace := .parsingStarted s'.count strict :: s'.trace } = p'
  have hsp : Moves s p [] [] [] := hp ▸ .of_trace s _
  have hsp' : Moves s' p' [] [] [] := hp' ▸ .of_trace s' _
  have hps : p.rest = ts ++ k := by rw [← hs, hsp.rest, List.nil_append]
  have hps' : p'.rest = s'.rest := by rw [hsp'.rest, List.nil_append]
  -- the leading statements come first
  obtain ⟨u, hu, hpass⟩ := rounds_of_series limit strict h hps
  have hrest : u.rest = k := by
    have := hpass.rest
    rw [hps] at this
    exact (List.append_cancel_left this).symm
  have hnear : Near u p' := by
    refine ⟨by rw [hrest, hps']; exact hk, ?_⟩
    rw [hsp'.eof, heof, ← hsp.eof, ← Moves.eof hpass]
  have hlen : s'.rest.length = u.rest.length := by
    rw [← hps', hnear.length]
  rw [show s.rest.length = p.rest.length by rw [hps, hs], hlen]
  have hpair := paired_statements (starts_statement (levelPair (.alone strict) limit n) loops)
    (grows_statement limit _ n loops) none u.rest.length hnear
  rw [Mode.first_alone, Mode.second_alone] at hpair
  have hall := statements_of_rounds hu
  generalize hr : statements strict (statement (level limit strict n) loops) none u.rest.length u
    = r at hpair hall
  generalize hr' : statements strict (statement (level limit strict n) loops) none u.rest.length p'
    = r' at hpair
  cases hpair with
  | @ok ys t t' ht =>
    have hends := ((statements_iff_rounds (Nat.le_refl _)).mp hr).2
    have hstop : t'.current.stop = t.current.stop := by
      obtain ⟨b, hb⟩ := (ht.near hnear).current
      rw [hb]
    obtain ⟨us, us', es, cs, hm, hm', -, -, -⟩ := ht
    rw [bind_ok hall, bind_ok hr']
    have hwhole := (hsp.trans hpass).trans hm
    have hpart := hsp'.trans hm'
    simp only [List.nil_append] at hwhole hpart
    exact .ok hwhole hpart hends hstop
  | error =>
    rw [bind_error hall, bind_error hr']
    exact .error
  | parted hm => cases strict <;> cases hm

end

end StpLang
