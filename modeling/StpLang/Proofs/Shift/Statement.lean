import StpLang.Proofs.Recovery
import StpLang.Proofs.Shift.Expression

/-!
Reading the statements of a moved text.

Recovery passes over tokens by their kinds and records the moved error, so that a
moved text is read as the moved statements in either mode.

* `shifts_statement` moves a statement, and `Level.moves` ties the levels together.
* `readFrom_shift` compares what is read ahead of a place with what is read ahead of
  the place in the moved text.
-/

namespace StpLang

open Parse Grammar

variable {d : Shift}

/-! ### Recovery -/

lemma brokenLength_shift (d : Shift) (inBlock : Bool) (braces : Nat) (ts : List Token) :
    brokenLength inBlock braces (ts.map (Token.shift d)) = brokenLength inBlock braces ts := by
  induction ts generalizing braces with
  | nil => rfl
  | cons t ts ih =>
    rw [List.map_cons, brokenLength, brokenLength, Token.shift_kind]
    simp only [ih]

section

variable {s s' : Parser}

lemma Parser.Shifted.passed (h : Parser.Shifted d s s') (inBlock : Bool) (e : Error) :
    Parser.Shifted d (passed inBlock e s) (passed inBlock (e.shift d) s') := by
  have herrors : s'.errors ++ [e.shift d] = (s.errors ++ [e]).map (Error.shift d) := by
    rw [h.errors, List.map_append, List.map_singleton]
  have hnoted : Parser.Shifted d
      { s with errors := s.errors ++ [e], trace := .recovering e :: s.trace }
      { s' with errors := s'.errors ++ [e.shift d], trace := .recovering (e.shift d) :: s'.trace } :=
    ⟨h.before, h.rest, herrors, h.trivia, h.movable, h.someToken⟩
  have hlength : brokenLength inBlock 0 s'.rest = brokenLength inBlock 0 s.rest := by
    rw [h.rest, brokenLength_shift]
  unfold StpLang.passed
  rw [hlength]
  exact hnoted.forward _

/-- The moved statement is passed over as the statement is. -/
lemma Parser.Shifted.recover {t t' : Parser} (h : Parser.Shifted d s s')
    (ht : Parser.Shifted d t t') (inBlock : Bool) (e : Error) :
    Parser.Shifted d (recover inBlock s.current s.position e t).2
      (recover inBlock s'.current s'.position (e.shift d) t').2 := by
  have hp := ht.passed inBlock e
  have hstate (first : Token) (position : Nat) (e : Error) (s : Parser) :
      (StpLang.Grammar.recover inBlock first position e s).2
        = if (decide ((StpLang.passed inBlock e s).position = position)
            && first.kind != .eof) = true
          then (StpLang.passed inBlock e s).step else StpLang.passed inBlock e s := rfl
  rw [hstate, hstate, hp.position, h.position, h.current, Token.shift_kind]
  split
  · exact hp.step
  · exact hp

end

lemma shifts_attempt (strict inBlock : Bool) {readOne : Parse Node}
    (hr : ParseShifts d (Node.shift d) readOne readOne) :
    ParseShifts d (Node.shift d) (attempt strict inBlock readOne)
      (attempt strict inBlock readOne) := by
  refine ⟨fun {s s'} h => ?_⟩
  have hread := hr.run h
  unfold attempt
  generalize readOne s = r at hread ⊢
  generalize readOne s' = r' at hread ⊢
  cases hread with
  | ok ht => exact .ok ht
  | @error e t t' ht =>
    cases strict with
    | true => exact .error ht
    | false =>
      have hw := h.recover ht inBlock e
      have hnode : (recover inBlock s'.current s'.position (e.shift d) t').1
          = (recover inBlock s.current s.position e t).1.shift d := by
        rw [recover_node, recover_node, hw.previous, h.current, Node.shift_spanning,
          Token.shift_place, Token.shift_stop, Token.shift_stop, Nat.add_max_add_right]
        rfl
      simp only [Bool.false_eq_true, if_false]
      rw [hnode]
      exact .ok hw

lemma shifts_statements (strict : Bool) {readOne : Parse Node}
    (hr : ParseShifts d (Node.shift d) readOne readOne) (closer : Option TokenKind) (bound : Nat) :
    ParseShifts d (List.map (Node.shift d)) (statements strict readOne closer bound)
      (statements strict readOne closer bound) := by
  induction bound with
  | zero => exact .of_eq rfl
  | succ bound ih =>
    refine Shifts.current.bind fun t => ?_
    rw [Token.shift_kind]
    refine .ite (fun _ => .discard_bind .advance ih) fun _ => .ite (fun _ => .of_eq rfl) fun _ => ?_
    exact (shifts_attempt _ _ hr).bind fun _ => ih.bind fun _ => .of_eq rfl

/-! ### Single statements -/

section

variable {L : Level}

lemma shifts_block (hL : L.Moves d) (loops : Nat) :
    ParseShifts d (Node.shift d) (block L loops) (block L loops) := by
  refine Shifts.current.bind fun opener => ?_
  rw [Token.shift_kind, Token.shift_found]
  refine .ite (fun _ => .fail_bind (Token.shift_span ..) _ _) fun _ => .discard_bind .advance ?_
  have hchildren (read : Nonterminal → Parse Node)
      (hr : ∀ x, ParseShifts d (Node.shift d) (read x) (read x)) :
      ParseShifts d (List.map (Node.shift d))
        (do
          let children ←
            statements L.strict (read (.statement loops)) (some .rightBrace) (← tokensLeft)
          discard (close opener)
          return children)
        (do
          let children ←
            statements L.strict (read (.statement loops)) (some .rightBrace) (← tokensLeft)
          discard (close (opener.shift d))
          return children) :=
    Shifts.tokensLeft.bind fun _ => (shifts_statements _ (hr _) ..).bind fun _ =>
      .discard_bind (.close opener) (.of_eq rfl)
  exact (Shifts.nested hL opener hchildren).bind fun _ => .node _ _ _ (Token.shift_place ..) rfl

lemma shifts_semicolon : ParseShifts d id semicolon semicolon := by
  refine (Shifts.accept _).bind fun t => .of_eq ?_
  cases t with
  | none => rfl
  | some t => simp only [Option.map_some, Token.shift_value, id]

lemma shifts_assignment (hL : L.Moves d) :
    ParseShifts d (Node.shift d) (assignment L) (assignment L) :=
  (Shifts.leafOf ..).bind fun _ => .discard_bind (.expect _)
    ((shifts_anyExpression hL).bind fun _ => shifts_semicolon.bind fun _ =>
      .node _ _ _ (Node.shift_place ..) rfl)

lemma shifts_expressionStatement (hL : L.Moves d) :
    ParseShifts d (Node.shift d) (expressionStatement L) (expressionStatement L) :=
  (shifts_anyExpression hL).bind fun _ => shifts_semicolon.bind fun _ =>
    .node _ _ _ (Node.shift_place ..) rfl

lemma shifts_symbolDeclaration :
    ParseShifts d (Node.shift d) symbolDeclaration symbolDeclaration :=
  (Shifts.expect _).bind fun _ => (Shifts.leafOf ..).bind fun _ =>
    .node _ _ _ (Token.shift_place ..) rfl

lemma shifts_elseifFrom (hL : L.Moves d) (loops : Nat) (seenElse : Bool) {more : Parse (List Node)}
    (hm : ParseShifts d (List.map (Node.shift d)) more more) :
    ParseShifts d (List.map (Node.shift d)) (elseifFrom L loops seenElse more)
      (elseifFrom L loops seenElse more) := by
  refine Shifts.advance.bind fun t => .ite (fun _ => .fail_bind (Token.shift_span ..) _ _)
    fun _ => (shifts_anyExpression hL).bind fun _ => (shifts_block hL loops).bind fun _ => ?_
  exact (Shifts.node _ _ _ (Token.shift_place ..) rfl).bind fun _ => hm.bind fun _ => .of_eq rfl

lemma shifts_elseFrom (hL : L.Moves d) (loops : Nat) (seenElse : Bool) {more : Parse (List Node)}
    (hm : ParseShifts d (List.map (Node.shift d)) more more) :
    ParseShifts d (List.map (Node.shift d)) (elseFrom L loops seenElse more)
      (elseFrom L loops seenElse more) := by
  refine Shifts.advance.bind fun t => .ite (fun _ => .fail_bind (Token.shift_span ..) _ _)
    fun _ => (shifts_block hL loops).bind fun _ => ?_
  exact (Shifts.node _ _ _ (Token.shift_place ..) rfl).bind fun _ => hm.bind fun _ => .of_eq rfl

lemma Parser.Shifted.atClause {s s' : Parser} (h : Parser.Shifted d s s') :
    Parser.Shifted d (atClause s) (atClause s') := by
  have hlength : (s'.rest.takeWhile (·.kind == .newline)).length
      = (s.rest.takeWhile (·.kind == .newline)).length := by
    rw [h.rest, List.takeWhile_map, List.length_map]
    simp only [Function.comp_def, Token.shift_kind]
  unfold StpLang.atClause
  rw [hlength]
  exact h.forward _

lemma shifts_clauses (hL : L.Moves d) (loops bound : Nat) (seenElse : Bool) :
    ParseShifts d (List.map (Node.shift d)) (clauses L loops bound seenElse)
      (clauses L loops bound seenElse) := by
  induction bound generalizing seenElse with
  | zero => exact .of_eq rfl
  | succ bound ih =>
    refine ⟨fun {s s'} h => ?_⟩
    by_cases he : s.significant.kind = .kwElseif
    · rw [clauses_elseif he, clauses_elseif (h.significant.trans he)]
      exact (shifts_elseifFrom hL loops seenElse (ih _)).run h.atClause
    by_cases he' : s.significant.kind = .kwElse
    · rw [clauses_else he', clauses_else (h.significant.trans he')]
      exact (shifts_elseFrom hL loops seenElse (ih _)).run h.atClause
    · rw [clauses_end he he', clauses_end (h.significant ▸ he) (h.significant ▸ he')]
      exact .ok (a := []) h

lemma shifts_ifStatement (hL : L.Moves d) (loops : Nat) :
    ParseShifts d (Node.shift d) (ifStatement L loops) (ifStatement L loops) :=
  (Shifts.expect _).bind fun _ => (shifts_anyExpression hL).bind fun _ =>
    (shifts_block hL loops).bind fun _ => Shifts.tokensLeft.bind fun _ =>
      (shifts_clauses hL ..).bind fun _ => .node _ _ _ (Token.shift_place ..) rfl

lemma shifts_whileLoop (hL : L.Moves d) (loops : Nat) :
    ParseShifts d (Node.shift d) (whileLoop L loops) (whileLoop L loops) :=
  (Shifts.expect _).bind fun _ => (shifts_anyExpression hL).bind fun _ =>
    (shifts_block hL _).bind fun _ => .node _ _ _ (Token.shift_place ..) rfl

lemma shifts_forLoop (hL : L.Moves d) (loops : Nat) :
    ParseShifts d (Node.shift d) (forLoop L loops) (forLoop L loops) :=
  (Shifts.expect _).bind fun _ => (Shifts.leafOf ..).bind fun _ => .discard_bind (.expect _)
    ((shifts_anyExpression hL).bind fun _ => (shifts_block hL _).bind fun _ =>
      .node _ _ _ (Token.shift_place ..) rfl)

lemma shifts_loopControl (loops : Nat) :
    ParseShifts d (Node.shift d) (loopControl loops) (loopControl loops) := by
  refine Shifts.advance.bind fun t => ?_
  rw [Token.shift_value]
  exact .ite (fun _ => .fail_bind (Token.shift_span ..) _ _) fun _ =>
    .of_eq (Node.shift_leaf ..).symm

lemma shifts_returnStatement (hL : L.Moves d) :
    ParseShifts d (Node.shift d) (returnStatement L) (returnStatement L) :=
  (Shifts.expect _).bind fun _ => (shifts_anyExpression hL).bind fun _ =>
    .node _ _ _ (Token.shift_place ..) rfl

lemma shifts_importStatement : ParseShifts d (Node.shift d) importStatement importStatement := by
  refine (Shifts.expect _).bind fun _ => Shifts.current.bind fun t => ?_
  rw [Token.shift_kind, Token.shift_found]
  refine .ite (fun _ => .fail_bind (Token.shift_span ..) _ _) fun _ => ?_
  exact (shifts_memberAccess false).bind fun _ => .node _ _ _ (Token.shift_place ..) rfl

lemma shifts_functionDefinition (hL : L.Moves d) :
    ParseShifts d (Node.shift d) (functionDefinition L) (functionDefinition L) :=
  (Shifts.expect _).bind fun _ => (Shifts.leafOf ..).bind fun _ => (Shifts.expect _).bind fun _ =>
    (shifts_arguments (shifts_anyExpression hL) true _).bind fun _ => (shifts_block hL 0).bind
      fun _ => .node _ _ _ (Token.shift_place ..) rfl

lemma shifts_tokenStatement (kind : Kind) :
    ParseShifts d (Node.shift d) (tokenStatement kind) (tokenStatement kind) :=
  Shifts.advance.bind fun _ => .of_eq (Node.shift_leaf ..).symm

lemma shifts_statement (hL : L.Moves d) (loops : Nat) :
    ParseShifts d (Node.shift d) (statement L loops) (statement L loops) := by
  refine .get_bind fun s s' h => ?_
  simp only [h.current, h.peek, Token.shift_kind, Token.shift_span, Token.shift_value]
  cases s.current.kind with
  | comment | kwExit => exact (shifts_tokenStatement _).run h
  | kwBreak | kwCont => exact (shifts_loopControl loops).run h
  | kwSym => exact shifts_symbolDeclaration.run h
  | kwIf => exact (shifts_ifStatement hL loops).run h
  | kwWhile => exact (shifts_whileLoop hL loops).run h
  | kwFor => exact (shifts_forLoop hL loops).run h
  | kwFn => exact (shifts_functionDefinition hL).run h
  | kwImport => exact shifts_importStatement.run h
  | kwRet => exact (shifts_returnStatement hL).run h
  | rightParen | rightBracket | rightBrace | kwElse | kwElseif => exact .error h
  | identifier =>
    exact Shifts.run (.ite (fun _ => shifts_assignment hL) fun _ => shifts_expressionStatement hL) h
  | _ => exact (shifts_expressionStatement hL).run h

end

/-! ### The whole grammar -/

/-- Every level of the grammar moves with the tokens. -/
lemma Level.moves (d : Shift) (limit : Int) (strict : Bool) (n : Nat) :
    (level limit strict n).Moves d := by
  induction n with
  | zero => exact fun read h => nomatch h
  | succ n ih =>
    intro read h x
    obtain rfl : derive limit strict n = read := Option.some.inj h
    rw [derive_eq]
    cases x with
    | expression least inMatrix => exact shifts_expression ih least inMatrix
    | unary inMatrix => exact shifts_unary ih inMatrix
    | statement loops => exact shifts_statement ih loops

/-- The trees of a text and of the moved text: the statements, the errors and the
comments move. -/
structure Tree.Shifted (d : Shift) (t t' : Tree) : Prop where
  children : t'.root.children = t.root.children.map (Node.shift d)
  stop : t'.root.stop = t.root.stop + d.chars
  errors : t'.errors = t.errors.map (Error.shift d)
  trivia : t'.trivia = t.trivia.map (Node.shift d)

/-- A text and the moved text are read alike: both fail with the error at the range
and at the moved range, or the trees move. -/
inductive ShiftedOutcome (d : Shift) : Except Error Tree → Except Error Tree → Prop
  | error (e : Error) : ShiftedOutcome d (.error e) (.error (e.shift d))
  | ok {t t' : Tree} (h : t.Shifted d t') : ShiftedOutcome d (.ok t) (.ok t')

lemma shifts_program (limit : Int) (strict : Bool) {s s' : Parser} (h : Parser.Shifted d s s') :
    ShiftedOutcome d (outcome (program (level limit strict limit.toNat) 0 s))
      (outcome (program (level limit strict limit.toNat) 0 s')) := by
  have hL := Level.moves d limit strict limit.toNat
  have hr := (shifts_statements (level limit strict limit.toNat).strict (shifts_statement hL 0) none
    s.rest.length).run (h.with_trace
      (.parsingStarted s.count (level limit strict limit.toNat).strict :: s.trace)
      (.parsingStarted s'.count (level limit strict limit.toNat).strict :: s'.trace))
  rw [run_program, run_program, h.length]
  generalize hs : statements _ _ _ _ { s with trace := _ } = r at hr
  generalize hs' : statements _ _ _ _ { s' with trace := _ } = r' at hr
  cases hr with
  | error =>
    rw [bind_error hs, bind_error hs']
    exact .error _
  | @ok ns t t' ht =>
    rw [bind_ok hs, bind_ok hs', run_current, run_current, ht.current]
    exact .ok ⟨rfl, Token.shift_stop .., ht.errors, ht.trivia⟩

/-! ### Whole texts -/

/-- Tokens that are not all comments are not all set aside. -/
lemma settle_ne_nil {ts : List Token} {t : Token} (ht : t ∈ ts) (hk : t.kind ≠ .comment)
    (depth : Nat) (last : Option TokenKind) : (Parser.settle depth last ts).1 ≠ [] := by
  induction ts generalizing depth last with
  | nil => cases ht
  | cons u us ih =>
    rw [settle_cons]
    cases hu : keptToken? depth last u with
    | none =>
      rcases List.mem_cons.mp ht with rfl | ht
      · exact absurd (keptToken?_none hu) hk
      · exact ih ht _ _
    | some v => exact List.cons_ne_nil _ _

/-- An end mark closes the tokens of a text. -/
lemma exists_eof_lexFrom (limit : Int) (s : Lexer) :
    ∃ t ∈ (lexFrom limit s).tokens, t.kind = .eof := by
  refine lexFrom_induction (P := fun _ l => ∃ t ∈ l.tokens, t.kind = .eof) ?_ ?_ ?_ s
  · intro s e t h
    rw [lexFrom_error h]
    exact ⟨_, List.mem_singleton_self _, rfl⟩
  · intro s u t h hu
    rw [lexFrom_eof h hu]
    exact ⟨u, List.mem_singleton_self _, hu⟩
  · rintro s u t - - ⟨v, hv, hk⟩
    exact ⟨v, List.mem_cons_of_mem _ hv, hk⟩

lemma readTokens_shift (limit : Int) (strict : Bool) {ts : List Token} (h : ∀ t ∈ ts, t.Movable)
    (he : ∃ t ∈ ts, t.kind = .eof) (trace trace' : List Event) :
    ShiftedOutcome d (readTokens limit strict ts trace).result
      (readTokens limit strict (ts.map (Token.shift d)) trace').result := by
  obtain ⟨t, ht, hk⟩ := he
  have hne : (Parser.ofTokens ts).rest ≠ [] := settle_ne_nil ht (by rw [hk]; decide) 0 none
  rw [readTokens_result, readTokens_result]
  exact shifts_program limit strict ((Parser.Shifted.ofTokens h hne).with_trace trace trace')

lemma ShiftedOutcome.withUnreadable {w : List Char} {r r' : Except Error Tree}
    (h : ShiftedOutcome (.behind w) r r') (fault : LexFault) (length : Nat) :
    ShiftedOutcome (.behind w) (r.map (·.withUnreadable fault length))
      (r'.map (·.withUnreadable ⟨fault.error.shift (.behind w), fault.place.shift w⟩
        (length + w.length))) := by
  cases h with
  | error e => exact .error e
  | ok h =>
    refine .ok ⟨?_, rfl, ?_, h.trivia⟩
    · simp only [Tree.withUnreadable, h.children, List.map_append, List.map_singleton, unreadable,
        Node.shift_spanning]
      rfl
    · simp only [Tree.withUnreadable, h.errors, List.map_append, List.map_singleton]

/-- **Behind whole lines a text is read as it is read alone, moved.** -/
theorem readFrom_shift {w : List Char} (hw : Scan.endsWithBlank w.reverse = false) (limit : Int)
    (strict : Bool) (c : Cursor) :
    ShiftedOutcome (.behind w) (readFrom limit strict c).result
      (readFrom limit strict (c.shift w)).result := by
  obtain ⟨htokens, hfault⟩ := lexFrom_shift hw limit
    (show Lexer.Shifted w { cursor := c } { cursor := c.shift w } from ⟨rfl, rfl, rfl⟩)
  have htokens' : (Lexed.run limit (c.shift w)).tokens
      = (Lexed.run limit c).tokens.map (Token.shift (.behind w)) := htokens
  have hfault' : (Lexed.run limit (c.shift w)).fault = (Lexed.run limit c).fault.map
      fun f => ⟨f.error.shift (.behind w), f.place.shift w⟩ := hfault
  have hread (trace trace' : List Event) : ShiftedOutcome (.behind w)
      (readTokens limit strict (Lexed.run limit c).tokens trace).result
      (readTokens limit strict ((Lexed.run limit c).tokens.map (Token.shift (.behind w)))
        trace').result :=
    readTokens_shift limit strict (movable_lexFrom limit { cursor := c })
      (exists_eof_lexFrom limit _) trace trace'
  have hlength : (c.shift w).past.length + (c.shift w).rest.length
      = c.past.length + c.rest.length + w.length := by
    simp only [Cursor.shift, List.length_append, List.length_reverse]
    omega
  unfold readFrom
  dsimp only
  rw [htokens', hfault', hlength]
  cases hf : (Lexed.run limit c).fault with
  | none => exact hread ..
  | some fault =>
    cases strict with
    | true => exact .error _
    | false =>
      simp only [Option.map_some, Bool.false_eq_true, if_false]
      exact (hread ..).withUnreadable fault _

end StpLang
