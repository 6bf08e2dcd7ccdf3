import StpLang.Proofs.Parse.PairExpression

/-!
Statements read side by side.

Two strict readers fail alike and two recovering ones recover alike. When a
strict reader stands beside a recovering one, they stay together up to the
first error; the strict one fails with it, and the other one records it.

* `paired_statements` pairs the loop over statements.
* `levelPair` ties the levels of the grammar together.
* `paired_program` pairs the reading of whole programs.
-/

namespace StpLang

open Parse Grammar

/-! ### Passing over a broken statement -/

section

variable {m : Mode} {s s' t t' : Parser}

/-- Passing over several tokens. -/
lemma Moves.forward (n : Nat) (s : Parser) : Moves s (s.forward n) (s.rest.take n) [] [] := by
  induction n generalizing s with
  | zero => exact Moves.refl s
  | succ n ih =>
    cases hs : s.rest with
    | nil =>
      have hstep : s.step = s := by simp only [Parser.step, hs]
      have := ih s
      rw [hs] at this
      simpa only [Parser.forward, hstep, List.take_nil] using this
    | cons x xs =>
      have hstep : s.step.rest = xs := by simp only [Parser.step, hs]
      have := (Moves.step hs).trans (ih s.step)
      rw [hstep] at this
      simpa [Parser.forward] using this

lemma brokenLength_alike {xs ys : List Token} (h : Alike xs ys) (inBlock : Bool) (braces : Nat) :
    brokenLength inBlock braces ys = brokenLength inBlock braces xs := by
  cases h with
  | nil => rfl
  | cons t b ts => unfold brokenLength; rfl

/-- The state behind the rest of a broken statement. -/
def passed (inBlock : Bool) (e : Error) (s : Parser) : Parser :=
  { s with errors := s.errors ++ [e], trace := .recovering e :: s.trace }.forward
    (brokenLength inBlock 0 s.rest)

lemma moves_passed (inBlock : Bool) (e : Error) (s : Parser) :
    Moves s (passed inBlock e s) (s.rest.take (brokenLength inBlock 0 s.rest)) [e] [] := by
  let u : Parser := { s with errors := s.errors ++ [e], trace := .recovering e :: s.trace }
  have hu : Moves s u [] [e] [] := ⟨rfl, rfl, rfl, by simp [u]⟩
  exact hu.trans (.forward _ u)

/-- Recovery passes over at least one token. -/
lemma recover_state (inBlock : Bool) {first : Token} (hk : first.kind ≠ .eof) (position : Nat)
    (e : Error) (s : Parser) :
    (recover inBlock first position e s).2
      = if (passed inBlock e s).position = position then (passed inBlock e s).step
        else passed inBlock e s := by
  show (if (decide ((passed inBlock e s).position = position) && first.kind != .eof) = true
    then _ else _) = _
  simp only [bne_iff_ne.mpr hk, Bool.and_true, decide_eq_true_eq]
  rfl

/-- The node that stands for a broken statement. -/
lemma recover_node (inBlock : Bool) (first : Token) (position : Nat) (e : Error) (s : Parser) :
    (recover inBlock first position e s).1
      = .spanning .error first.place
          (max (recover inBlock first position e s).2.previous.stop first.stop) [] []
          (some e.message) := rfl

/-- Recovery records the error. -/
lemma recover_errors (inBlock : Bool) (first : Token) (position : Nat) (e : Error)
    (s : Parser) : (recover inBlock first position e s).2.errors = s.errors ++ [e] := by
  have hp := (moves_passed inBlock e s).errors
  show Parser.errors (if _ then (passed inBlock e s).step else passed inBlock e s) = _
  split
  · cases hr : (passed inBlock e s).rest with
    | nil => simpa only [Parser.step, hr] using hp
    | cons x xs => simpa [(Moves.step hr).errors] using hp
  · exact hp

/-- Two readers that fail alike recover alike, and pass at least the token at
which the statement began. -/
lemma tracks_recover (hn : Near s s') (hk : s.current.kind ≠ .eof)
    (ht : Tracks .recovering 0 s s' t t') (inBlock : Bool) (e : Error) :
    Tracks .recovering 1 s s' (recover inBlock s.current s.position e t).2
      (recover inBlock s'.current s'.position e t').2 := by
  have hnear : Near t t' := ht.near hn
  have hv : Tracks .recovering 0 s s' (passed inBlock e t) (passed inBlock e t') := by
    refine ht.trans ⟨_, _, _, _, moves_passed .., moves_passed .., ?_, Nat.zero_le _, .inl rfl⟩
    rw [List.length_take, List.length_take, brokenLength_alike hnear.rest, hnear.length]
  obtain ⟨ts, ts', es, cs, hm, hm', hl, -, he⟩ := id hv
  have hpos : (passed inBlock e t').position = s'.position
      ↔ (passed inBlock e t).position = s.position := by
    rw [hm.position, hm'.position]; omega
  rw [recover_state inBlock hk, recover_state inBlock (by rw [hn.kind]; exact hk)]
  simp only [hpos]
  by_cases hc : (passed inBlock e t).position = s.position
  · -- recovery would stop where the statement began, so it passes one token
    have hnil : ts = [] := by
      have := hm.position
      exact List.length_eq_zero_iff.mp (by omega)
    have hrest : (passed inBlock e t).rest ≠ [] := by
      have := hm.rest
      rw [hnil, List.nil_append] at this
      rw [← this]
      exact Parser.rest_ne_nil hk
    simp only [hc, if_true]
    exact hv.trans ((hv.near hn).step hrest).of_quiet
  · have := hm.position
    simp only [hc, if_false]
    exact ⟨ts, ts', es, cs, hm, hm', hl, by omega, he⟩

/-! ### Loops over statements -/

lemma grows_attempt (strict inBlock : Bool) {readOne : Parse Node} (h : Grows readOne) :
    Grows (attempt strict inBlock readOne) := by
  refine ⟨fun s => ?_⟩
  obtain ⟨es, hes⟩ := h.run s
  unfold attempt
  cases hr : readOne s with
  | ok x t => exact ⟨es, by rwa [hr] at hes⟩
  | error e t =>
    rw [hr] at hes
    cases strict with
    | true => exact ⟨es, hes⟩
    | false =>
      refine ⟨es ++ [e], ?_⟩
      simp only [after, Bool.false_eq_true, if_false]
      rw [recover_errors, show t.errors = _ from hes, List.append_assoc]

lemma paired_attempt (hn : Near s s') (hk : s.current.kind ≠ .eof) (inBlock : Bool)
    {readOne readOne' : Parse Node} (h : Starts m readOne readOne') :
    Paired m 1 s s' (attempt m.first inBlock readOne s)
      (attempt m.second inBlock readOne' s') := by
  have hp := h.run s s' hn
  unfold attempt
  generalize readOne s = r at hp
  generalize readOne' s' = r' at hp
  cases hp with
  | ok ht => exact .ok ht
  | @error e t t' ht =>
    cases m with
    | quiet => exact .error ht
    | recovering =>
      have hw := tracks_recover hn hk ht inBlock e
      obtain ⟨b, hb⟩ := hn.current
      have hnode : (recover inBlock s'.current s'.position e t').1
          = (recover inBlock s.current s.position e t).1 := by
        rw [recover_node, recover_node, (hw.abreast_of_near hn).stop, hb]
        rfl
      simp only [Mode.first, Mode.second, Bool.false_eq_true, if_false]
      rw [hnode]
      exact .ok hw
    | parting =>
      obtain ⟨ts, ts', es, cs, -, hm', -, -, he⟩ := ht
      obtain rfl := he.resolve_left (by decide)
      refine .parted rfl ⟨[], ?_⟩
      simp only [after, Mode.second, Bool.false_eq_true, if_false]
      rw [recover_errors, hm'.errors, List.append_nil]
  | @parted e t r' hm hes =>
    subst hm
    refine .parted rfl ?_
    obtain ⟨es, hes⟩ := hes
    cases r' with
    | ok x u => exact ⟨es, hes⟩
    | error f u =>
      refine ⟨es ++ [f], ?_⟩
      simp only [after, Mode.second, Bool.false_eq_true, if_false]
      rw [recover_errors, show u.errors = _ from hes]
      simp

lemma grows_statements (strict : Bool) {readOne : Parse Node} (h : Grows readOne)
    (closer : Option TokenKind) (bound : Nat) :
    Grows (statements strict readOne closer bound) := by
  induction bound with
  | zero => exact .pure _
  | succ bound ih =>
    refine (Goes.current (m := .quiet)).grows_of_quiet.bind fun t => .ite ?_ (.ite (.pure _) ?_)
    · exact .discard_bind Goes.advance.grows_of_quiet ih
    · exact (grows_attempt _ _ h).bind fun _ => ih.bind fun _ => .pure _

/-- The loop over statements stays in step. -/
lemma paired_statements {readOne readOne' : Parse Node} (h : Starts m readOne readOne')
    (hg : Grows readOne') (closer : Option TokenKind) (bound : Nat) (hn : Near s s') :
    Paired m 0 s s' (statements m.first readOne closer bound s)
      (statements m.second readOne' closer bound s') := by
  induction bound generalizing s s' with
  | zero => exact .ok (.refl ..)
  | succ bound ih =>
    unfold statements
    rw [run_current, run_current, hn.kind]
    by_cases hsep : s.current.kind.isSeparator = true
    · have hne : s.rest ≠ [] := Parser.rest_ne_nil (by intro he; rw [he] at hsep; cases hsep)
      simp only [hsep, if_true, discard_bind]
      rw [run_advance, run_advance]
      have ht := hn.step hne
      exact (Paired.after_tracks ht (ih (ht.near hn))).weaken (Nat.zero_le _)
    · by_cases hend : (s.current.kind == .eof || closer == some s.current.kind) = true
      · simp only [hsep, hend, if_true]
        exact .ok (.refl ..)
      · have hk : s.current.kind ≠ .eof := by
          intro he
          simp [he] at hend
        simp only [hsep, hend]
        refine ((paired_attempt hn hk _ h).bind_any (l := 0) (fun x => ?_)
          fun x t t' ht => ?_).weaken (Nat.zero_le _)
        · exact (grows_statements _ hg ..).bind fun _ => .pure _
        · refine (ih (ht.near hn)).bind_any (l := 0) (fun _ => .pure _) fun xs u u' _ => ?_
          exact .ok (.refl m u u')

end

/-! ### Single statements -/

section

variable {m : Mode} {s s' : Parser} {L L' : Level}

/-- A statement that begins with a token that has been looked at. -/
lemma goes_block (hL : LevelPair m L L') (loops : Nat) : Goes m (block L loops) (block L' loops) := by
  refine Goes.current.bind fun opener => .ite (fun _ => .fail_bind ..) fun _ => ?_
  refine .discard_bind .advance (.bind_any (.nested hL fun read read' hr => ?_)
    (fun _ => (Goes.node (m := .quiet) ..).grows_of_quiet) fun _ => .node ..)
  refine Goes.tokensLeft.bind fun bound => ?_
  have hs : Goes m (statements L.strict (read (.statement loops)) (some .rightBrace) bound)
      (statements L'.strict (read' (.statement loops)) (some .rightBrace) bound) := by
    rw [hL.first, hL.second]
    exact ⟨fun s s' h => paired_statements (hr.statement loops) (hr.grows loops) _ _ h.near⟩
  have hc (children : List Node) : Goes .quiet
      (do discard (close opener); return children) (do discard (close opener); return children) :=
    .discard_bind (.close _) (.pure _)
  exact hs.bind_any (fun x => (hc x).grows_of_quiet) fun x => (hc x).of_quiet

lemma grows_block (hL : LevelPair m L L') (loops : Nat) : Grows (block L' loops) := by
  refine (Goes.current (m := .quiet)).grows_of_quiet.bind fun opener =>
    .ite ((Grows.fail ..).bind fun _ => ?_) ?_
  all_goals
    refine .discard_bind Goes.advance.grows_of_quiet (.bind ?_ fun _ => .node ..)
    unfold nested
    rcases hL.inner with ⟨-, h⟩ | ⟨read, read', -, h, hr⟩
    · rw [h]
      exact .fail ..
    · rw [h]
      refine (Goes.tokensLeft (m := .quiet)).grows_of_quiet.bind fun _ =>
        (grows_statements _ (hr.grows loops) ..).bind fun _ => ?_
      exact .discard_bind (Goes.close _).grows_of_quiet (.pure _)

lemma goes_semicolon : Goes .quiet semicolon semicolon := (Goes.accept _).bind fun _ => .pure _

lemma starts_assignment (hL : LevelPair m L L') :
    Starts .quiet (assignment L) (assignment L') :=
  (Starts.leafOf _ (by decide)).bind fun _ => .discard_bind (.expect _)
    ((starts_anyExpression hL).goes.bind fun _ => goes_semicolon.bind fun _ => .node ..)

lemma starts_expressionStatement (hL : LevelPair m L L') :
    Starts .quiet (expressionStatement L) (expressionStatement L') :=
  (starts_anyExpression hL).bind fun _ => goes_semicolon.bind fun _ => .node ..

lemma starts_symbolDeclaration : Starts .quiet symbolDeclaration symbolDeclaration :=
  .expect_bind (by decide) fun _ _ => (Goes.leafOf ..).bind fun _ => .node ..

/-- Passing over the line ends before a clause. -/
lemma Abreast.forward (h : Abreast s s') (n : Nat) :
    Tracks .quiet 0 s s' (s.forward n) (s'.forward n) :=
  ⟨_, _, _, _, .forward n s, .forward n s', by rw [h.rest], Nat.zero_le _, .inr rfl⟩

/-- The state before the word that opens a clause. -/
def atClause (s : Parser) : Parser := s.forward (s.rest.takeWhile (·.kind == .newline)).length

lemma Abreast.atClause (h : Abreast s s') : Tracks .quiet 0 s s' (atClause s) (atClause s') := by
  unfold StpLang.atClause
  rw [h.rest]
  exact h.forward _

/-- Reads an `elseif` clause and what follows it, from the word on. -/
def elseifFrom (L : Level) (loops : Nat) (seenElse : Bool) (more : Parse (List Node)) :
    Parse (List Node) := do
  let t ← advance
  if seenElse then fail .elseifAfterElse t.span
  let condition ← anyExpression L
  let body ← block L loops
  let clause ← node .elseifClause t.place [condition, body] [(.condition, [0]), (.body, [1])]
  return clause :: (← more)

/-- Reads an `else` clause and what follows it, from the word on. -/
def elseFrom (L : Level) (loops : Nat) (seenElse : Bool) (more : Parse (List Node)) :
    Parse (List Node) := do
  let t ← advance
  if seenElse then fail .secondElse t.span
  let body ← block L loops
  let clause ← node .elseClause t.place [body] [(.body, [0])]
  return clause :: (← more)

lemma clauses_elseif (h : s.significant.kind = .kwElseif) (loops bound : Nat)
    (seenElse : Bool) :
    clauses L loops (bound + 1) seenElse s
      = elseifFrom L loops seenElse (clauses L loops bound seenElse) (atClause s) := by
  rw [clauses, run_get]
  simp only [h]
  rw [run_set]
  rfl

lemma clauses_else (h : s.significant.kind = .kwElse) (loops bound : Nat) (seenElse : Bool) :
    clauses L loops (bound + 1) seenElse s
      = elseFrom L loops seenElse (clauses L loops bound true) (atClause s) := by
  rw [clauses, run_get]
  simp only [h]
  rw [run_set]
  rfl

lemma clauses_end (h : s.significant.kind ≠ .kwElseif) (h' : s.significant.kind ≠ .kwElse)
    (loops bound : Nat) (seenElse : Bool) :
    clauses L loops bound seenElse s = .ok [] s := by
  cases bound with
  | zero => rfl
  | succ bound =>
    rw [clauses, run_get]
    cases hk : s.significant.kind with
    | kwElseif => exact absurd hk h
    | kwElse => exact absurd hk h'
    | _ => rfl

lemma goes_elseifFrom (hL : LevelPair m L L') (loops : Nat) (seenElse : Bool)
    {more more' : Parse (List Node)} (hg : Grows more') (h : Goes m more more') :
    Grows (elseifFrom L' loops seenElse more')
      ∧ Goes m (elseifFrom L loops seenElse more) (elseifFrom L' loops seenElse more') := by
  have hclause (clause : Node) : Grows (more' >>= fun xs => pure (clause :: xs)) :=
    hg.bind fun _ => .pure _
  constructor
  · refine Goes.advance.grows_of_quiet.bind fun t => .ite ((Grows.fail ..).bind fun _ => ?_) ?_
    all_goals
      exact (starts_anyExpression hL).goes.grows_of_quiet.bind fun _ =>
        (grows_block hL loops).bind fun _ => (Grows.node ..).bind hclause
  · refine Goes.advance.bind fun t => .ite (fun _ => .fail_bind ..) fun _ => ?_
    refine (starts_anyExpression hL).goes.bind fun condition =>
      (goes_block hL loops).bind_any (fun _ => (Grows.node ..).bind hclause) fun body => ?_
    exact (Goes.node ..).bind fun _ => h.bind_any (fun _ => .pure _) fun _ => .pure _

lemma goes_elseFrom (hL : LevelPair m L L') (loops : Nat) (seenElse : Bool)
    {more more' : Parse (List Node)} (hg : Grows more') (h : Goes m more more') :
    Grows (elseFrom L' loops seenElse more')
      ∧ Goes m (elseFrom L loops seenElse more) (elseFrom L' loops seenElse more') := by
  have hclause (clause : Node) : Grows (more' >>= fun xs => pure (clause :: xs)) :=
    hg.bind fun _ => .pure _
  constructor
  · refine Goes.advance.grows_of_quiet.bind fun t => .ite ((Grows.fail ..).bind fun _ => ?_) ?_
    all_goals
      exact (grows_block hL loops).bind fun _ => (Grows.node ..).bind hclause
  · refine Goes.advance.bind fun t => .ite (fun _ => .fail_bind ..) fun _ => ?_
    refine (goes_block hL loops).bind_any (fun _ => (Grows.node ..).bind hclause) fun body => ?_
    exact (Goes.node ..).bind fun _ => h.bind_any (fun _ => .pure _) fun _ => .pure _

lemma goes_clauses (hL : LevelPair m L L') (loops bound : Nat) (seenElse : Bool) :
    Grows (clauses L' loops bound seenElse)
      ∧ Goes m (clauses L loops bound seenElse) (clauses L' loops bound seenElse) := by
  induction bound generalizing seenElse with
  | zero => exact ⟨.pure _, .pure _⟩
  | succ bound ih =>
    have helseif := goes_elseifFrom hL loops seenElse (ih seenElse).1 (ih seenElse).2
    have helse := goes_elseFrom hL loops seenElse (ih true).1 (ih true).2
    constructor
    · have hgrow (s : Parser) {f : Parse (List Node)} (hf : Grows f) :
          ∃ es, (after (f (atClause s))).errors = s.errors ++ es := by
        obtain ⟨es, hes⟩ := hf.run (atClause s)
        exact ⟨es, by simpa [atClause, (Moves.forward _ s).errors] using hes⟩
      refine ⟨fun s => ?_⟩
      by_cases h1 : s.significant.kind = .kwElseif
      · rw [clauses_elseif h1]
        exact hgrow s helseif.1
      · by_cases h2 : s.significant.kind = .kwElse
        · rw [clauses_else h2]
          exact hgrow s helse.1
        · rw [clauses_end h1 h2]
          exact ⟨[], by simp [after]⟩
    · have hgo {s s' : Parser} (h : Abreast s s') {f f' : Parse (List Node)} (hf : Goes m f f') :
          Paired m 0 s s' (f (atClause s)) (f' (atClause s')) :=
        .after_tracks h.atClause (hf.run _ _ (h.atClause.abreast h))
      refine ⟨fun s s' h => ?_⟩
      have hs := h.significant
      by_cases h1 : s.significant.kind = .kwElseif
      · rw [clauses_elseif h1, clauses_elseif (by rwa [hs])]
        exact hgo h helseif.2
      · by_cases h2 : s.significant.kind = .kwElse
        · rw [clauses_else h2, clauses_else (by rwa [hs])]
          exact hgo h helse.2
        · rw [clauses_end h1 h2, clauses_end (by rwa [hs]) (by rwa [hs])]
          exact .ok (.refl m s s')

lemma starts_ifStatement (hL : LevelPair m L L') (loops : Nat) :
    Starts m (ifStatement L loops) (ifStatement L' loops) := by
  refine .expect_bind (by decide) fun t b => ?_
  refine (starts_anyExpression hL).goes.bind fun condition =>
    (goes_block hL loops).bind_any (fun body => ?_) fun body => ?_
  · exact (Goes.tokensLeft (m := .quiet)).grows_of_quiet.bind fun bound =>
      (goes_clauses hL loops bound false).1.bind fun _ => .node ..
  · exact Goes.tokensLeft.bind fun bound =>
      (goes_clauses hL loops bound false).2.bind_any (fun _ => .node ..) fun _ => .node ..

lemma starts_whileLoop (hL : LevelPair m L L') (loops : Nat) :
    Starts m (whileLoop L loops) (whileLoop L' loops) :=
  .expect_bind (by decide) fun _ _ => (starts_anyExpression hL).goes.bind fun _ =>
    (goes_block hL _).bind_any (fun _ => .node ..) fun _ => .node ..

lemma starts_forLoop (hL : LevelPair m L L') (loops : Nat) :
    Starts m (forLoop L loops) (forLoop L' loops) :=
  .expect_bind (by decide) fun _ _ => (Goes.leafOf ..).bind fun _ =>
    .discard_bind (.expect _) ((starts_anyExpression hL).goes.bind fun _ =>
      (goes_block hL _).bind_any (fun _ => .node ..) fun _ => .node ..)

lemma starts_returnStatement (hL : LevelPair m L L') :
    Starts .quiet (returnStatement L) (returnStatement L') :=
  .expect_bind (by decide) fun _ _ => (starts_anyExpression hL).goes.bind fun _ => .node ..

lemma starts_importStatement : Starts .quiet importStatement importStatement :=
  .expect_bind (by decide) fun _ _ => Goes.current.bind fun _ =>
    .ite (fun _ => .fail_bind ..) fun _ =>
      (starts_memberAccess false).goes.bind fun _ => .node ..

lemma starts_functionDefinition (hL : LevelPair m L L') :
    Starts m (functionDefinition L) (functionDefinition L') :=
  .expect_bind (by decide) fun _ _ => (Goes.leafOf ..).bind fun _ =>
    (Goes.expect _).bind fun _ => (goes_arguments (starts_anyExpression hL).goes ..).bind
      fun _ => (goes_block hL 0).bind_any (fun _ => .node ..) fun _ => .node ..

lemma Near.tokenStatement (h : Near s s') (hne : s.rest ≠ []) (kind : Kind) :
    Paired m 1 s s' (tokenStatement kind s) (tokenStatement kind s') := by
  obtain ⟨b, hb⟩ := h.current
  unfold Grammar.tokenStatement
  rw [run_advance, run_advance, hb]
  exact h.pass hne (.pure _)

lemma Near.loopControl (h : Near s s') (hne : s.rest ≠ []) (loops : Nat) :
    Paired m 1 s s' (loopControl loops s) (loopControl loops s') := by
  obtain ⟨b, hb⟩ := h.current
  unfold Grammar.loopControl
  rw [run_advance, run_advance, hb]
  exact h.pass hne (.ite (fun _ => .fail_bind ..) fun _ => .pure _)

/-- A statement is chosen by its first tokens, whatever white space precedes
it. -/
lemma starts_statement (hL : LevelPair m L L') (loops : Nat) :
    Starts m (statement L loops) (statement L' loops) := by
  refine ⟨fun s s' h => ?_⟩
  obtain ⟨-, hspan, hvalue⟩ := h.found
  unfold statement
  rw [run_get, run_get]
  simp only [h.kind, h.peek 0, hspan, hvalue]
  cases hk : s.current.kind with
  | comment | kwExit => exact h.tokenStatement (Parser.rest_ne_nil (by simp [hk])) _
  | kwBreak | kwCont => exact h.loopControl (Parser.rest_ne_nil (by simp [hk])) _
  | kwSym => exact starts_symbolDeclaration.of_quiet.run s s' h
  | kwIf => exact (starts_ifStatement hL loops).run s s' h
  | kwWhile => exact (starts_whileLoop hL loops).run s s' h
  | kwFor => exact (starts_forLoop hL loops).run s s' h
  | kwFn => exact (starts_functionDefinition hL).run s s' h
  | kwImport => exact starts_importStatement.of_quiet.run s s' h
  | kwRet => exact (starts_returnStatement hL).of_quiet.run s s' h
  | rightParen | rightBracket | rightBrace | kwElse | kwElseif => exact .error (.refl ..)
  | identifier =>
    by_cases hc : ((s.peek 1).kind == .assign) = true
    · simpa only [hc, if_true] using (starts_assignment hL).of_quiet.run s s' h
    · simpa only [hc, Bool.false_eq_true, if_false] using
        (starts_expressionStatement hL).of_quiet.run s s' h
  | _ => exact (starts_expressionStatement hL).of_quiet.run s s' h

end

/-! ### The whole grammar -/

/-- One level further in, the same statements are read in pairs. -/
lemma readers_derive {m : Mode} {limit : Int} {n : Nat}
    (hrec : LevelPair .recovering (level limit false n) (level limit false n))
    (hL : LevelPair m (level limit m.first n) (level limit m.second n)) :
    Readers m (derive limit m.first n) (derive limit m.second n) := by
  refine ⟨fun least inMatrix => ?_, fun inMatrix => ?_, fun loops => ?_, fun loops => ?_⟩
  · rw [derive_eq, derive_eq]
    exact starts_expression hL least inMatrix
  · rw [derive_eq, derive_eq]
    exact starts_unary hL inMatrix
  · rw [derive_eq, derive_eq]
    exact starts_statement hL loops
  · rw [derive_eq]
    cases m with
    | quiet => exact (starts_statement hL loops).goes.grows (by decide)
    | recovering | parting => exact (starts_statement hrec loops).goes.grows (by decide)

/-- The levels of the grammar, strict and recovering, are paired. -/
lemma levelPair (m : Mode) (limit : Int) (n : Nat) :
    LevelPair m (level limit m.first n) (level limit m.second n) := by
  induction n generalizing m with
  | zero => exact ⟨rfl, rfl, rfl, rfl, .inl ⟨rfl, rfl⟩⟩
  | succ n ih =>
    exact ⟨rfl, rfl, rfl, rfl, .inr ⟨_, _, rfl, rfl, readers_derive (ih .recovering) (ih m)⟩⟩

/-- An expression of any level records no error. -/
lemma goes_anyExpression (limit : Int) (strict : Bool) (n : Nat) :
    Goes .quiet (anyExpression (level limit strict n)) (anyExpression (level limit strict n)) := by
  cases strict with
  | true => exact (starts_anyExpression (levelPair .quiet limit n)).goes
  | false => exact (starts_anyExpression (levelPair .recovering limit n)).goes

/-- A statement of any level only adds errors. -/
lemma grows_statement (limit : Int) (strict : Bool) (n loops : Nat) :
    Grows (statement (level limit strict n) loops) := by
  cases strict with
  | true => exact (starts_statement (levelPair .quiet limit n) loops).goes.grows (by decide)
  | false =>
    exact (starts_statement (levelPair .recovering limit n) loops).goes.grows (by decide)

/-- Reading a program notes its start, reads its statements and makes its
node. -/
lemma run_program (L : Level) (loops : Nat) (s : Parser) :
    program L loops s
      = (statements L.strict (statement L loops) none s.rest.length >>= fun xs =>
          current >>= fun t => pure (Node.spanning .sourceFile ⟨1, 1, 0⟩ t.stop xs))
        { s with trace := .parsingStarted s.count L.strict :: s.trace } := rfl

/-- Whole programs are read in pairs. -/
lemma paired_program (m : Mode) (limit : Int) (n loops : Nat) {s s' : Parser} (h : Near s s') :
    Paired m 0 s s' (program (level limit m.first n) loops s)
      (program (level limit m.second n) loops s') := by
  have hL := levelPair m limit n
  have htrace := Tracks.of_trace .quiet s s'
    (.parsingStarted s.count m.first :: s.trace) (.parsingStarted s'.count m.second :: s'.trace)
  have hs := paired_statements (starts_statement hL loops) (grows_statement limit _ n loops) none
    s.rest.length (htrace.near h)
  rw [run_program, run_program, h.length, hL.first, hL.second]
  refine .after_tracks htrace (hs.bind_any (l := 0) (fun _ => ?_) fun xs u u' hu => ?_)
  · exact (Goes.current (m := .quiet)).grows_of_quiet.bind fun _ => .pure _
  · obtain ⟨b, hb⟩ := (hu.near (htrace.near h)).current
    rw [run_current, run_current, hb]
    exact .ok (.refl m u u')

end StpLang
