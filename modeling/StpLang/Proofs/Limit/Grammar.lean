import StpLang.Proofs.Limit.Reader
import StpLang.Proofs.Parse.PairStatement

/-!
The grammar under a greater limit.

A level of the grammar is wider than another one when it allows at least as many
further levels and what it reads one level in is wider. Whatever is read at a level
is then read alike at a wider one, as long as the limit is not met. Recovery records
the error from which it recovers, so a limit that was met stays known.

* `Wider` relates two levels.
* `widens_expression` and `widens_statement` follow the grammar at one level.
* `wider_level` ties the levels together.
* `widens_program` is the result for whole programs.
-/

namespace StpLang

open Parse Grammar

/-- A step of the parser, which records the errors from which it recovers. -/
abbrev ParseWidens {α : Type} (p p' : Parse α) : Prop := Widens Parser.errors p p'

/-- The level `L'` allows at least what the level `L` does, and the expressions of
`L` record no error. -/
structure Wider (L L' : Level) : Prop where
  strict : L'.strict = L.strict
  expression : Goes .quiet (anyExpression L) (anyExpression L)
  allowance : L.allowance ≤ L'.allowance
  inner : L.inner = none ∨ ∃ read read', L.inner = some read ∧ L'.inner = some read'
    ∧ ∀ x, ParseWidens (read x) (read' x)

section

variable {α β : Type} {L L' : Level} {read read' : Nonterminal → Parse Node}

namespace Widens

/-- A step that only adds errors and minds no limit. -/
lemma of_grows {p : Parse α} (h : Grows p) : ParseWidens p p := by
  refine .refl fun {s} hs => ?_
  obtain ⟨e, he, hn⟩ := hs
  obtain ⟨es, hes⟩ := h.run s
  have hmem : e ∈ (after (p s)).errors := by
    rw [hes]
    exact List.mem_append_left _ he
  cases hr : p s with
  | ok a t => exact .ok ⟨e, by rwa [hr] at hmem, hn⟩
  | error e' t => exact .failed ⟨e, by rwa [hr] at hmem, hn⟩

/-- A step that records nothing and minds no limit. -/
lemma same {p : Parse α} (h : Goes .quiet p p) : ParseWidens p p := of_grows h.grows_of_quiet

lemma fail (c : Cause) (r : Span) : ParseWidens (fail c r : Parse α) (fail c r) := .throw _

lemma fail_bind (c : Cause) (r : Span) (f f' : α → Parse β) :
    ParseWidens (Parse.fail c r >>= f) (Parse.fail c r >>= f') :=
  ⟨fun hs => .failed hs, fun _ => .inr rfl⟩

lemma node (kind : Kind) (p : Place) (ns : List Node) (fields : FieldTable)
    (value : Option String) :
    ParseWidens (node kind p ns fields value) (node kind p ns fields value) := of_grows (.node ..)

lemma current_bind {f f' : Token → Parse β} (h : ∀ t, ParseWidens (f t) (f' t)) :
    ParseWidens (current >>= f) (current >>= f') := (same .current).bind h

lemma tokensLeft_bind {f f' : Nat → Parse β} (h : ∀ n, ParseWidens (f n) (f' n)) :
    ParseWidens (tokensLeft >>= f) (tokensLeft >>= f') := (same .tokensLeft).bind h

lemma get_bind {f f' : Parser → Parse β} (h : ∀ s, ParseWidens (f s) (f' s)) :
    ParseWidens (get >>= f) (get >>= f') :=
  ⟨fun {s} hs => (h s).keeps hs, fun s => (h s).run s⟩

lemma advance_bind {f f' : Token → Parse β} (h : ∀ t, ParseWidens (f t) (f' t)) :
    ParseWidens (advance >>= f) (advance >>= f') := (same .advance).bind h

lemma expect_bind (kinds : List TokenKind) {f f' : Token → Parse β}
    (h : ∀ t, ParseWidens (f t) (f' t)) : ParseWidens (expect kinds >>= f) (expect kinds >>= f') :=
  (same (.expect _)).bind h

lemma leafOf_bind (tokenKind : TokenKind) (kind : Kind) {f f' : Node → Parse β}
    (h : ∀ n, ParseWidens (f n) (f' n)) :
    ParseWidens (leafOf tokenKind kind >>= f) (leafOf tokenKind kind >>= f') :=
  (same (.leafOf ..)).bind h

lemma discard_bind {p p' : Parse α} {f f' : PUnit → Parse β} (hp : ParseWidens p p')
    (hf : ParseWidens (f ⟨⟩) (f' ⟨⟩)) : ParseWidens (discard p >>= f) (discard p' >>= f') := by
  rw [Parse.discard_bind, Parse.discard_bind]
  exact hp.bind fun _ => hf

end Widens

/-! ### Where the limit is minded -/

lemma widens_nested {body body' : (Nonterminal → Parse Node) → Parse α} (hL : Wider L L')
    (t : Token) (h : ∀ {read read'}, (∀ x, ParseWidens (read x) (read' x)) →
      ParseWidens (body read) (body' read')) :
    ParseWidens (nested L t body) (nested L' t body') := by
  unfold nested
  rcases hL.inner with hi | ⟨read, read', hi, hi', hr⟩
  · rw [hi]
    exact .exceeded fun _ => .error rfl
  · rw [hi, hi']
    exact h hr

lemma widens_bounded (limit limit' : Int) {a a' : Nat} (h : a ≤ a') (n : Node) (t : Token) :
    ParseWidens (bounded limit a n t) (bounded limit' a' n t) := by
  unfold bounded
  by_cases hn : n.height > a
  · rw [if_pos hn]
    exact .exceeded fun _ => .error rfl
  · rw [if_neg hn, if_neg (by omega)]
    exact .pure _

/-! ### Binary operators -/

lemma widens_climb (hL : Wider L L') (hr : ∀ x, ParseWidens (read x) (read' x)) (least : Nat)
    (inMatrix : Bool) (bound : Nat) (lhs : Node) :
    ParseWidens (climb L read least inMatrix bound lhs)
      (climb L' read' least inMatrix bound lhs) := by
  have hallowance : L.allowance - 1 ≤ L'.allowance - 1 := Nat.sub_le_sub_right hL.allowance 1
  induction bound generalizing lhs with
  | zero => exact .pure _
  | succ bound ih =>
    refine .get_bind fun s => ?_
    dsimp only
    cases s.current.kind.binary? with
    | none => exact .pure _
    | some op =>
      refine .ite (fun _ => .pure _) fun _ => .discard_bind (.same .advance) ?_
      exact (hr _).bind fun rhs => (widens_bounded _ _ hallowance _ _).bind fun _ => ih _

lemma widens_expression (hL : Wider L L') (least : Nat) (inMatrix : Bool) :
    ParseWidens (expression L least inMatrix) (expression L' least inMatrix) :=
  .current_bind fun t => widens_nested hL t fun hr =>
    (hr _).bind fun _ => .tokensLeft_bind fun _ => widens_climb hL hr ..

lemma widens_anyExpression (hL : Wider L L') :
    ParseWidens (anyExpression L) (anyExpression L') := widens_expression hL 1 false

/-! ### Parentheses and calls -/

lemma widens_bracketed (hL : Wider L L') : ParseWidens (bracketed L) (bracketed L') :=
  .expect_bind _ fun opener => .current_bind fun _ => .ite (fun _ => .fail_bind ..) fun _ =>
    (widens_anyExpression hL).bind fun _ => .discard_bind (.same (.close opener)) (.node ..)

section

variable {readValue readValue' : Parse Node}

lemma widens_argumentList (h : ParseWidens readValue readValue') (definition : Bool)
    (opener : Token) (bound : Nat) (named : Bool) :
    ParseWidens (argumentList readValue definition opener bound named)
      (argumentList readValue' definition opener bound named) := by
  have hkeyword : ParseWidens (keywordArgument readValue) (keywordArgument readValue') :=
    .leafOf_bind _ _ fun _ => .discard_bind (.same (.expect _)) (h.bind fun _ => .node ..)
  have hseparator : ParseWidens (argumentSeparator opener) (argumentSeparator opener) :=
    .same (goes_argumentSeparator opener)
  induction bound generalizing named with
  | zero => exact .fail ..
  | succ bound ih =>
    refine .get_bind fun s => .ite (fun _ => .pure _) fun _ => .ite (fun _ => .fail ..) fun _ =>
      .ite (fun _ => ?_) fun _ => .ite (fun _ => .fail ..) fun _ => ?_
    · exact hkeyword.bind fun _ => hseparator.bind fun _ => (ih true).bind fun _ => .pure _
    · refine .ite (fun _ => .leafOf_bind _ _ fun _ => ?_) fun _ => h.bind fun _ => ?_
      all_goals
        exact hseparator.bind fun _ => (ih false).bind fun _ => .pure _

lemma widens_arguments (h : ParseWidens readValue readValue') (definition : Bool)
    (opener : Token) :
    ParseWidens (arguments readValue definition opener)
      (arguments readValue' definition opener) := by
  refine .ite (fun _ => ?_) fun _ => ?_
  · exact (Widens.same goes_skipLeadingComma).bind fun _ => .tokensLeft_bind fun _ =>
      (widens_argumentList h ..).bind fun _ => .advance_bind fun _ => .pure _
  · exact .tokensLeft_bind fun _ => (widens_argumentList h ..).bind fun _ =>
      .advance_bind fun _ => .pure _

end

lemma widens_call (hL : Wider L L') (target : Node) :
    ParseWidens (call L target) (call L' target) :=
  .expect_bind _ fun opener => (widens_nested hL opener fun hr =>
    widens_arguments (hr _) false opener).bind fun _ => .node ..

/-! ### Matrices -/

lemma widens_rowElements (hr : ∀ x, ParseWidens (read x) (read' x)) (bound : Nat) :
    ParseWidens (rowElements read bound) (rowElements read' bound) := by
  induction bound with
  | zero => exact .pure _
  | succ bound ih =>
    refine .current_bind fun t => .ite (fun _ => .pure _) fun _ => ?_
    exact (hr _).bind fun _ => .discard_bind (.same (.accept _)) (ih.bind fun _ => .pure _)

lemma widens_rows (hr : ∀ x, ParseWidens (read x) (read' x)) (opener : Token) (bound : Nat) :
    ParseWidens (rows read opener bound) (rows read' opener bound) := by
  induction bound with
  | zero => exact .current_bind fun _ => .fail ..
  | succ bound ih =>
    refine .current_bind fun first => .tokensLeft_bind fun _ =>
      (widens_rowElements hr _).bind fun elements => ?_
    cases elements.getLast? with
    | none => exact .fail ..
    | some last =>
      refine .current_bind fun t => .ite (fun _ => ?_) fun _ => ?_
      · exact .discard_bind (.same .advance) ((Widens.node ..).bind fun _ =>
          ih.bind fun _ => .pure _)
      · exact .discard_bind (.same (.close _)) (.pure _)

lemma widens_matrix (hL : Wider L L') : ParseWidens (matrix L) (matrix L') := by
  refine .expect_bind _ fun opener => (widens_nested hL opener fun hr => ?_).bind fun _ => .node ..
  exact .tokensLeft_bind fun _ => widens_rows hr opener _

/-! ### Strings -/

/-- Other tokens are read alike; what that reading records is not kept, but a step
that records nothing shows the limit in its error. -/
lemma widens_onTokens {p p' : Parse α} (tokens : Parser) (hp : Goes .quiet p p)
    (ht : tokens.errors = []) (h : ParseWidens p p') :
    ParseWidens (onTokens tokens p) (onTokens tokens p') := by
  refine ⟨fun {s} hs => ?_, fun s => ?_⟩
  · unfold onTokens
    cases p { tokens with trace := s.trace } with
    | ok a t => exact .ok hs
    | error e t => exact .failed hs
  · have hnone : ¬Records Parser.errors (after (p { tokens with trace := s.trace })) := by
      rintro ⟨e, he, -⟩
      rw [hp.errors_after] at he
      exact List.not_mem_nil (ht ▸ he)
    unfold onTokens
    rcases h.run { tokens with trace := s.trace } with hm | heq
    · generalize p { tokens with trace := s.trace } = r at hm hnone ⊢
      cases hm with
      | error he => exact .inl (.error he)
      | failed h | ok h => exact absurd h hnone
    · rw [heq]
      exact .inr rfl

lemma widens_snippetExpression (hL : Wider L L') (seg : Segment Token) (tokens : List Token) :
    ParseWidens (snippetExpression L seg tokens) (snippetExpression L' seg tokens) := by
  have hnote : Grows (note (.snippetParsed seg.line seg.col)) :=
    ⟨fun _ => ⟨[], (List.append_nil _).symm⟩⟩
  have hmodify : Grows (modify fun s : Parser =>
      { s with trivia := s.trivia ++ (Parser.ofTokens tokens).trivia } : Parse Unit) :=
    ⟨fun _ => ⟨[], (List.append_nil _).symm⟩⟩
  refine (Widens.of_grows hnote).bind fun _ => (Widens.of_grows hmodify).bind fun _ => ?_
  dsimp only
  refine .ite (fun _ => .fail_bind ..) fun _ => ?_
  refine widens_onTokens _ (hL.expression.bind fun e => ?_) rfl
    ((widens_anyExpression hL).bind fun e => .same ?_)
  all_goals
    exact Goes.current.bind fun _ => .ite (fun _ => .fail_bind ..) fun _ => .pure _

lemma widens_segmentNode (hL : Wider L L') (seg : Segment Token) :
    ParseWidens (segmentNode L seg) (segmentNode L' seg) := by
  unfold segmentNode
  cases seg.form with
  | snippet tokens => exact (widens_snippetExpression hL seg tokens).bind fun _ => .pure _
  | _ => exact .pure _

lemma widens_string (hL : Wider L L') : ParseWidens (Grammar.string L) (Grammar.string L') := by
  have hsegments (segs : List (Segment Token)) :
      ParseWidens (segs.mapM (segmentNode L)) (segs.mapM (segmentNode L')) := by
    induction segs with
    | nil => exact .pure _
    | cons seg segs ih =>
      rw [List.mapM_cons, List.mapM_cons]
      exact (widens_segmentNode hL seg).bind fun _ => ih.bind fun _ => .pure _
  exact .expect_bind _ fun t => (hsegments t.segments).bind fun _ => .pure _

/-! ### Operands -/

lemma widens_primary (hL : Wider L L') (inMatrix : Bool) :
    ParseWidens (primary L inMatrix) (primary L' inMatrix) := by
  refine .get_bind fun s => ?_
  cases s.current.kind with
  | leftBracket => exact widens_matrix hL
  | leftParen => exact widens_bracketed hL
  | identifier =>
    exact (Widens.same (starts_memberAccess inMatrix).goes).bind fun target =>
      .current_bind fun _ => .ite (fun _ => widens_call hL target) fun _ => .pure _
  | number =>
    refine .ite (fun _ => .same starts_range.goes) fun _ => .same ?_
    exact Goes.advance.bind fun t => Goes.current.bind fun sign =>
      .ite (fun _ => .discard_bind .advance (.node ..)) fun _ => .pure _
  | string => exact widens_string hL
  | _ => exact .fail ..

lemma widens_suffixes (hL : Wider L L') (bound : Nat) (operand : Node) :
    ParseWidens (suffixes L bound operand) (suffixes L' bound operand) := by
  induction bound generalizing operand with
  | zero => exact .pure _
  | succ bound ih =>
    refine .current_bind fun t => .ite (fun _ => ?_) fun _ => .pure _
    exact .discard_bind (.same .advance) ((Widens.node ..).bind fun n =>
      (widens_bounded _ _ hL.allowance n t).bind fun _ => ih n)

lemma widens_unary (hL : Wider L L') (inMatrix : Bool) :
    ParseWidens (unary L inMatrix) (unary L' inMatrix) := by
  refine .current_bind fun t => .ite (fun _ => ?_) fun _ => ?_
  · exact .discard_bind (.same .advance)
      ((widens_nested hL t fun hr => hr _).bind fun _ => .pure _)
  · exact (widens_primary hL inMatrix).bind fun operand => .tokensLeft_bind fun _ =>
      widens_suffixes hL _ operand

/-! ### Recovery -/

section

variable {readOne readOne' : Parse Node}

/-- Recovery records the error from which it recovers, the limit included. -/
lemma widens_attempt (strict inBlock : Bool) (h : ParseWidens readOne readOne') :
    ParseWidens (attempt strict inBlock readOne) (attempt strict inBlock readOne') := by
  have hmeets {s : Parser} (hm : Meets Parser.errors (readOne s)) :
      Meets Parser.errors (attempt strict inBlock readOne s) := by
    unfold attempt
    generalize readOne s = r at hm
    cases r with
    | ok n t => exact hm
    | error e t =>
      cases strict with
      | true => exact hm
      | false =>
        refine .ok ?_
        show ∃ e' ∈ (recover inBlock s.current s.position e t).2.errors, _
        rw [recover_errors]
        cases hm with
        | error he => exact ⟨e, by simp, he⟩
        | failed h =>
          obtain ⟨e', he', hn⟩ := h
          exact ⟨e', List.mem_append_left _ he', hn⟩
  refine ⟨fun hs => hmeets (h.keeps hs), fun s => ?_⟩
  rcases h.run s with hm | heq
  · exact .inl (hmeets hm)
  · right
    unfold attempt
    rw [heq]

lemma widens_statements (strict : Bool) (h : ParseWidens readOne readOne')
    (closer : Option TokenKind) (bound : Nat) :
    ParseWidens (statements strict readOne closer bound)
      (statements strict readOne' closer bound) := by
  induction bound with
  | zero => exact .pure _
  | succ bound ih =>
    refine .current_bind fun t => .ite (fun _ => .discard_bind (.same .advance) ih) fun _ =>
      .ite (fun _ => .pure _) fun _ => ?_
    exact (widens_attempt strict _ h).bind fun _ => ih.bind fun _ => .pure _

end

/-! ### Statements -/

lemma widens_block (hL : Wider L L') (loops : Nat) :
    ParseWidens (block L loops) (block L' loops) := by
  refine .current_bind fun opener => .ite (fun _ => .fail_bind ..) fun _ => ?_
  refine .discard_bind (.same .advance) ((widens_nested hL opener fun hr => ?_).bind fun _ =>
    .node ..)
  rw [hL.strict]
  exact .tokensLeft_bind fun _ => (widens_statements _ (hr _) ..).bind fun _ =>
    .discard_bind (.same (.close _)) (.pure _)

section

variable {more more' : Parse (List Node)}

lemma widens_elseifFrom (hL : Wider L L') (loops : Nat) (seenElse : Bool)
    (h : ParseWidens more more') :
    ParseWidens (elseifFrom L loops seenElse more) (elseifFrom L' loops seenElse more') :=
  .advance_bind fun _ => .ite (fun _ => .fail_bind ..) fun _ => (widens_anyExpression hL).bind
    fun _ => (widens_block hL loops).bind fun _ => (Widens.node ..).bind fun _ =>
      h.bind fun _ => .pure _

lemma widens_elseFrom (hL : Wider L L') (loops : Nat) (seenElse : Bool)
    (h : ParseWidens more more') :
    ParseWidens (elseFrom L loops seenElse more) (elseFrom L' loops seenElse more') :=
  .advance_bind fun _ => .ite (fun _ => .fail_bind ..) fun _ => (widens_block hL loops).bind
    fun _ => (Widens.node ..).bind fun _ => h.bind fun _ => .pure _

end

/-- The clauses are read from the word that opens them, behind line ends. -/
lemma widens_clauses (hL : Wider L L') (loops bound : Nat) (seenElse : Bool) :
    ParseWidens (clauses L loops bound seenElse) (clauses L' loops bound seenElse) := by
  induction bound generalizing seenElse with
  | zero => exact .pure _
  | succ bound ih =>
    have helseif := widens_elseifFrom hL loops seenElse (ih seenElse)
    have helse := widens_elseFrom hL loops seenElse (ih true)
    have hword {s : Parser} (hs : Records Parser.errors s) :
        Records Parser.errors (atClause s) := by
      have herrors : (atClause s).errors = s.errors ++ [] := (Moves.forward _ s).errors
      rwa [Records, herrors, List.append_nil]
    have hstep (s : Parser) : (Records Parser.errors s
          → Meets Parser.errors (clauses L loops (bound + 1) seenElse s))
        ∧ (Meets Parser.errors (clauses L loops (bound + 1) seenElse s)
          ∨ clauses L' loops (bound + 1) seenElse s = clauses L loops (bound + 1) seenElse s) := by
      by_cases hi : s.significant.kind = .kwElseif
      · rw [clauses_elseif hi, clauses_elseif hi]
        exact ⟨fun hs => helseif.keeps (hword hs), helseif.run _⟩
      · by_cases he : s.significant.kind = .kwElse
        · rw [clauses_else he, clauses_else he]
          exact ⟨fun hs => helse.keeps (hword hs), helse.run _⟩
        · rw [clauses_end hi he, clauses_end hi he]
          exact ⟨.ok, .inr rfl⟩
    exact ⟨fun {s} => (hstep s).1, fun s => (hstep s).2⟩

lemma widens_ifStatement (hL : Wider L L') (loops : Nat) :
    ParseWidens (ifStatement L loops) (ifStatement L' loops) :=
  .expect_bind _ fun _ => (widens_anyExpression hL).bind fun _ =>
    (widens_block hL loops).bind fun _ => .tokensLeft_bind fun _ =>
      (widens_clauses hL loops _ false).bind fun _ => .node ..

lemma widens_whileLoop (hL : Wider L L') (loops : Nat) :
    ParseWidens (whileLoop L loops) (whileLoop L' loops) :=
  .expect_bind _ fun _ => (widens_anyExpression hL).bind fun _ =>
    (widens_block hL _).bind fun _ => .node ..

lemma widens_forLoop (hL : Wider L L') (loops : Nat) :
    ParseWidens (forLoop L loops) (forLoop L' loops) :=
  .expect_bind _ fun _ => .leafOf_bind _ _ fun _ => .discard_bind (.same (.expect _))
    ((widens_anyExpression hL).bind fun _ => (widens_block hL _).bind fun _ => .node ..)

lemma widens_functionDefinition (hL : Wider L L') :
    ParseWidens (functionDefinition L) (functionDefinition L') :=
  .expect_bind _ fun _ => .leafOf_bind _ _ fun _ => .expect_bind _ fun opener =>
    (widens_arguments (widens_anyExpression hL) true opener).bind fun _ =>
      (widens_block hL 0).bind fun _ => .node ..

lemma widens_assignment (hL : Wider L L') : ParseWidens (assignment L) (assignment L') :=
  .leafOf_bind _ _ fun _ => .discard_bind (.same (.expect _)) ((widens_anyExpression hL).bind
    fun _ => (Widens.same goes_semicolon).bind fun _ => .node ..)

lemma widens_expressionStatement (hL : Wider L L') :
    ParseWidens (expressionStatement L) (expressionStatement L') :=
  (widens_anyExpression hL).bind fun _ =>
    (Widens.same goes_semicolon).bind fun _ => .node ..

lemma widens_returnStatement (hL : Wider L L') :
    ParseWidens (returnStatement L) (returnStatement L') :=
  .expect_bind _ fun _ => (widens_anyExpression hL).bind fun _ => .node ..

lemma widens_statement (hL : Wider L L') (loops : Nat) :
    ParseWidens (statement L loops) (statement L' loops) := by
  have htoken (kind : Kind) : ParseWidens (tokenStatement kind) (tokenStatement kind) :=
    .advance_bind fun _ => .pure _
  refine .get_bind fun s => ?_
  dsimp only
  cases s.current.kind with
  | comment | kwExit => exact htoken _
  | kwBreak | kwCont => exact .advance_bind fun _ => .ite (fun _ => .fail_bind ..) fun _ => .pure _
  | kwSym => exact .same starts_symbolDeclaration.goes
  | kwIf => exact widens_ifStatement hL loops
  | kwWhile => exact widens_whileLoop hL loops
  | kwFor => exact widens_forLoop hL loops
  | kwFn => exact widens_functionDefinition hL
  | kwImport => exact .same starts_importStatement.goes
  | kwRet => exact widens_returnStatement hL
  | rightParen | rightBracket | rightBrace | kwElse | kwElseif => exact .fail ..
  | identifier =>
    exact .ite (fun _ => widens_assignment hL) fun _ => widens_expressionStatement hL
  | _ => exact widens_expressionStatement hL

end

/-! ### The whole grammar -/

section

variable {limit limit' : Int} {a a' : Nat}

lemma wider_level (strict : Bool) (h : a ≤ a') :
    Wider (level limit strict a) (level limit' strict a') := by
  induction a generalizing a' with
  | zero =>
    cases a' with
    | zero => exact ⟨rfl, goes_anyExpression .., h, .inl rfl⟩
    | succ a' => exact ⟨rfl, goes_anyExpression .., h, .inl rfl⟩
  | succ a ih =>
    obtain ⟨a', rfl⟩ : ∃ b, a' = b + 1 := ⟨a' - 1, by omega⟩
    have hL := ih (Nat.le_of_succ_le_succ h)
    refine ⟨rfl, goes_anyExpression .., h, .inr ⟨_, _, rfl, rfl, fun x => ?_⟩⟩
    rw [derive_eq, derive_eq]
    cases x with
    | expression least inMatrix => exact widens_expression hL least inMatrix
    | unary inMatrix => exact widens_unary hL inMatrix
    | statement loops => exact widens_statement hL loops

/-- A whole program is read alike at a wider level. -/
lemma widens_program (strict : Bool) (h : a ≤ a') (loops : Nat) :
    ParseWidens (program (level limit strict a) loops)
      (program (level limit' strict a') loops) := by
  have hL : Wider (level limit strict a) (level limit' strict a') := wider_level strict h
  refine .get_bind fun s => ?_
  rw [hL.strict]
  have hnote : Grows (note (.parsingStarted s.count (level limit strict a).strict)) :=
    ⟨fun _ => ⟨[], (List.append_nil _).symm⟩⟩
  refine (Widens.of_grows hnote).bind fun _ => .tokensLeft_bind fun _ => ?_
  exact (widens_statements _ (widens_statement hL loops) none _).bind fun _ =>
    .current_bind fun _ => .pure _

end

end StpLang
