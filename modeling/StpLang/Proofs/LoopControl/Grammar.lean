import StpLang.Proofs.LoopControl.Bodies
import StpLang.Proofs.Parse.PairStatement

/-!
The strict grammar counts the loops that are open.

Expressions hold no braces and no words that open a body, so that reading them is
still. A statement closes the bodies that it opens, and within each of them the number
of loops that the grammar counts is the number of bodies of loops open within the
innermost function.

* `still_expression` follows the grammar of expressions at one level.
* `mindsAt_block` enters and leaves a body, and `mindsAt_statement` follows the grammar
  of statements.
* `stillLevel` ties the levels together.
* `mindsAt_program` is the result for whole programs.
-/

namespace StpLang

open Parse Grammar

/-! ### Kinds of tokens -/

namespace TokenKind

variable {kind : TokenKind}

lemma isStill_of_binary? {op : Nat × Assoc} (h : kind.binary? = some op) : kind.isStill = true := by
  cases kind <;> first | rfl | cases h

lemma isStill_of_isUnary (h : kind.isUnary = true) : kind.isStill = true := by
  cases kind <;> first | rfl | cases h

lemma isStill_of_isSuffix (h : kind.isSuffix = true) : kind.isStill = true := by
  cases kind <;> first | rfl | cases h

lemma isStill_of_isSeparator (h : kind.isSeparator = true) : kind.isStill = true := by
  cases kind <;> first | rfl | cases h

end TokenKind

/-! ### Levels -/

/-- One level further in, expressions are still and statements mind the loops. -/
structure StillReaders (read : Nonterminal → Parse Node) : Prop where
  expression : ∀ least inMatrix, Still (read (.expression least inMatrix))
  unary : ∀ inMatrix, Still (read (.unary inMatrix))
  statement : ∀ s, MindsAt (read (.statement s.bodies.loops)) s

/-- A strict level with such readers. -/
structure StillLevel (L : Level) : Prop where
  strict : L.strict = true
  inner : L.inner = none ∨ ∃ read, L.inner = some read ∧ StillReaders read

section

variable {α : Type} {L : Level} {read : Nonterminal → Parse Node} {s : Parser}

lemma still_nested {body : (Nonterminal → Parse Node) → Parse α} (hL : StillLevel L) (t : Token)
    (h : ∀ read, StillReaders read → Still (body read)) : Still (nested L t body) := by
  unfold nested
  rcases hL.inner with hi | ⟨read, hi, hr⟩
  · rw [hi]
    exact .fail rfl _
  · rw [hi]
    exact h read hr

lemma still_bounded (limit : Int) (allowance : Nat) (n : Node) (t : Token) :
    Still (bounded limit allowance n t) := .ite (fun _ => .fail rfl _) fun _ => .pure _

/-! ### Expressions -/

lemma still_climb (hr : StillReaders read) (least : Nat) (inMatrix : Bool) (bound : Nat)
    (lhs : Node) : Still (climb L read least inMatrix bound lhs) := by
  induction bound generalizing lhs with
  | zero => exact .pure _
  | succ bound ih =>
    refine .get_bind fun s => ?_
    dsimp only
    cases hk : s.current.kind.binary? with
    | none => exact (Still.pure _).stillAt s
    | some op =>
      refine .ite (fun _ => (Still.pure _).stillAt s) fun _ => .discard_bind ?_
      refine .advance_bind (TokenKind.isStill_of_binary? hk) ?_
      exact (hr.expression ..).bind fun _ => (still_bounded ..).bind fun _ => ih _

lemma still_expression (hL : StillLevel L) (least : Nat) (inMatrix : Bool) :
    Still (expression L least inMatrix) := by
  refine .current_bind fun s => Still.stillAt ?_ s
  exact still_nested hL _ fun read hr => (hr.unary ..).bind fun _ =>
    .tokensLeft_bind fun _ => still_climb hr ..

lemma still_anyExpression (hL : StillLevel L) : Still (anyExpression L) :=
  still_expression hL 1 false

/-! ### Names and numbers -/

lemma still_memberParts (inMatrix : Bool) (bound : Nat) : Still (memberParts inMatrix bound) := by
  induction bound with
  | zero => exact .pure _
  | succ bound ih =>
    refine .current_bind fun s => .ite (fun hc => .discard_bind ?_)
      fun _ => (Still.pure _).stillAt s
    simp only [Bool.and_eq_true, beq_iff_eq] at hc
    refine .advance_bind (by rw [hc.1]; rfl) ?_
    exact (Still.leafOf rfl _).bind fun _ => ih.bind fun _ => .pure _

lemma still_memberAccess (inMatrix : Bool) : Still (memberAccess inMatrix) :=
  (Still.leafOf rfl _).bind fun _ => .tokensLeft_bind fun _ =>
    (still_memberParts ..).bind fun _ => .node ..

lemma still_rangeBound : Still rangeBound := by
  refine .discard_bind (.expect (by decide)) (.current_bind fun s => .ite (fun hc => ?_) fun _ =>
    (Still.fail rfl _).stillAt s)
  exact .advance_bind (by rw [beq_iff_eq.mp hc]; rfl) (.pure _)

lemma still_range : Still range := by
  refine (Still.leafOf rfl _).bind fun _ => still_rangeBound.bind fun _ => .current_bind fun s =>
    .ite (fun _ => (Still.node ..).stillAt s) fun _ => Still.stillAt ?_ s
  refine still_rangeBound.bind fun _ => .current_bind fun s => .ite (fun hc => .discard_bind ?_)
    fun _ => (Still.node ..).stillAt s
  exact .advance_bind (by rw [beq_iff_eq.mp hc]; rfl) (.fail_bind rfl _)

/-- A number is read where one is ahead. -/
lemma stillAt_number (hk : s.current.kind = .number) : StillAt number s := by
  refine .advance_bind (by rw [hk]; rfl) ?_
  refine .current_bind fun s => .ite (fun hc => .discard_bind ?_) fun _ => (Still.pure _).stillAt s
  simp only [Bool.and_eq_true, beq_iff_eq] at hc
  exact .advance_bind (by rw [hc.1]; rfl) (.node ..)

/-! ### Parentheses and calls -/

/-- Reading an opening delimiter that is no brace. -/
lemma still_opener_bind {k : TokenKind} (hk : k.isStill = true) {g : Token → Parse α}
    (hg : ∀ t, t.kind = k → Still (g t)) : Still (expect [k] >>= g) := by
  refine ⟨fun s => ?_⟩
  by_cases hc : [k].contains s.current.kind = true
  · have hkind : s.current.kind = k := by simpa using hc
    refine ⟨?_⟩
    rw [bind_ok (run_expect hc), ← run_advance g s]
    exact (StillAt.advance_bind (hkind ▸ hk) (hg _ hkind)).run
  · refine ⟨?_⟩
    rw [bind_error (run_expect_other hc)]
    exact .error rfl

lemma still_bracketed (hL : StillLevel L) : Still (bracketed L) := by
  refine still_opener_bind rfl fun opener ho => .current_bind fun s =>
    .ite (fun _ => (Still.fail_bind rfl _).stillAt s) fun _ => Still.stillAt ?_ s
  exact (still_anyExpression hL).bind fun _ =>
    .discard_bind (.close (by rw [ho]; decide)) (.node ..)

section

variable {readValue : Parse Node} {opener : Token}

lemma still_keywordArgument (hv : Still readValue) : Still (keywordArgument readValue) :=
  (Still.leafOf rfl _).bind fun _ =>
    .discard_bind (.expect (by decide)) (hv.bind fun _ => .node ..)

lemma still_argumentSeparator (ho : opener.kind = .leftParen) :
    Still (argumentSeparator opener) := by
  refine .current_bind fun s => .ite (fun hc => .discard_bind ?_) fun _ => .ite (fun _ => ?_)
    fun _ => (Still.pure _).stillAt s
  · refine .advance_bind (by rw [beq_iff_eq.mp hc]; rfl) ?_
    exact .current_bind fun s => .ite (fun _ => (Still.fail rfl _).stillAt s) fun _ =>
      (Still.pure _).stillAt s
  · refine .of_bind_pure (.discard_bind (Still.stillAt ?_ s))
    exact (Still.close (by rw [ho]; decide)).bind fun _ => .pure _

lemma still_argumentList (ho : opener.kind = .leftParen) (hv : Still readValue)
    (definition : Bool) (bound : Nat) (named : Bool) :
    Still (argumentList readValue definition opener bound named) := by
  induction bound generalizing named with
  | zero => exact .fail rfl _
  | succ bound ih =>
    have hmore {x : Parse Node} (hx : Still x) (named : Bool)
        (g : Node → List Node × List Node → List Node × List Node) :
        Still (x >>= fun n => argumentSeparator opener >>= fun _ =>
          argumentList readValue definition opener bound named >>= fun r => pure (g n r)) :=
      hx.bind fun n => (still_argumentSeparator ho).bind fun _ => (ih named).bind fun _ => .pure _
    refine .get_bind fun s => Still.stillAt ?_ s
    dsimp only
    refine .ite (fun _ => .pure _) fun _ => .ite (fun _ => .fail rfl _) fun _ => .ite (fun _ => ?_)
      fun _ => .ite (fun _ => .fail rfl _) fun _ => ?_
    · exact hmore (still_keywordArgument hv) true fun n r => (r.1, n :: r.2)
    · exact .ite (fun _ => hmore (.leafOf rfl _) false fun n r => (n :: r.1, r.2))
        fun _ => hmore hv false fun n r => (n :: r.1, r.2)

lemma still_skipLeadingComma : Still skipLeadingComma := by
  refine .get_bind fun s => .ite (fun hc => ?_) fun _ => (Still.pure _).stillAt s
  simp only [Bool.and_eq_true, beq_iff_eq] at hc
  exact .of_bind_pure (.discard_bind (.advance_bind (by rw [hc.1.1]; rfl) (.pure _)))

/-- The list of arguments leaves the closing parenthesis. -/
lemma still_arguments (ho : opener.kind = .leftParen) (hv : Still readValue)
    (definition : Bool) : Still (arguments readValue definition opener) := by
  have hlist : Still (tokensLeft >>= fun bound =>
      argumentList readValue definition opener bound false >>= fun r => advance >>= fun closer =>
        pure (Node.spanning .positionalArgs opener.place closer.stop r.1,
          Node.spanning .keywordArgs opener.place closer.stop r.2)) := by
    refine .tokensLeft_bind fun bound => ⟨fun s => ?_⟩
    refine ReportsAt.bind ((still_argumentList ho hv definition bound false).stillAt s)
      fun r t hr _ ht => ht ▸ StillAt.advance_bind ?_ (.pure _)
    rw [current_of_argumentList hr]
    rfl
  exact .ite (fun _ => still_skipLeadingComma.bind fun _ => hlist) fun _ => hlist

end

lemma still_call (hL : StillLevel L) (target : Node) : Still (call L target) := by
  refine still_opener_bind rfl fun opener ho => (still_nested hL opener fun read hr => ?_).bind
    fun _ => .node ..
  exact still_arguments ho (hr.expression ..) false

/-! ### Matrices -/

lemma still_rowElements (hr : StillReaders read) (bound : Nat) :
    Still (rowElements read bound) := by
  induction bound with
  | zero => exact .pure _
  | succ bound ih =>
    refine .current_bind fun s => .ite (fun _ => (Still.pure _).stillAt s)
      fun _ => Still.stillAt ?_ s
    exact (hr.expression ..).bind fun _ => .discard_bind (.accept (by decide))
      (ih.bind fun _ => .pure _)

lemma still_rows {opener : Token} (ho : opener.kind = .leftBracket) (hr : StillReaders read)
    (bound : Nat) : Still (rows read opener bound) := by
  induction bound with
  | zero => exact .current_bind fun s => (Still.fail rfl _).stillAt s
  | succ bound ih =>
    refine .current_bind fun s => Still.stillAt (.tokensLeft_bind fun _ => ?_) s
    refine (still_rowElements hr _).bind fun elements => ?_
    cases elements.getLast? with
    | none => exact .fail rfl _
    | some last =>
      refine .current_bind fun s => .ite (fun hc => .discard_bind ?_) fun _ => Still.stillAt ?_ s
      · refine .advance_bind (by rw [beq_iff_eq.mp hc]; rfl) ?_
        exact (Still.node ..).bind fun _ => ih.bind fun _ => .pure _
      · exact .discard_bind (.close (by rw [ho]; decide)) (.pure _)

lemma still_matrix (hL : StillLevel L) : Still (matrix L) := by
  refine still_opener_bind rfl fun opener ho => (still_nested hL opener fun read hr => ?_).bind
    fun _ => .node ..
  exact .tokensLeft_bind fun _ => still_rows ho hr _

/-! ### Strings -/

/-- A snippet is read apart from the tokens around it. -/
lemma still_onTokens (tokens : Parser) {p : Parse α} (h : Still p) : Still (onTokens tokens p) := by
  refine ⟨fun s => ⟨?_⟩⟩
  have hp := (h.stillAt { tokens with trace := s.trace }).run
  unfold onTokens
  cases hr : p { tokens with trace := s.trace } with
  | ok a t => exact .ok rfl rfl
  | error e t =>
    rw [hr] at hp
    cases hp with
    | error h => exact .error h

lemma still_snippetExpression (hL : StillLevel L) (seg : Segment Token) (tokens : List Token) :
    Still (snippetExpression L seg tokens) := by
  have hinner : Still (onTokens (Parser.ofTokens tokens) do
      let e ← anyExpression L
      let t ← current
      if t.kind != .eof then fail (.leftoverInSnippet (.of t)) t.span
      return e) :=
    still_onTokens _ ((still_anyExpression hL).bind fun _ => .current_bind fun s =>
      .ite (fun _ => (Still.fail_bind rfl _).stillAt s) fun _ => (Still.pure _).stillAt s)
  refine ⟨fun s => ⟨?_⟩⟩
  unfold snippetExpression
  simp only [run_note, run_modify]
  split
  · exact .error rfl
  · exact (hinner.stillAt { s with
      trivia := s.trivia ++ (Parser.ofTokens tokens).trivia
      trace := .snippetParsed seg.line seg.col :: s.trace }).run

lemma still_segmentNode (hL : StillLevel L) (seg : Segment Token) : Still (segmentNode L seg) := by
  unfold segmentNode
  cases seg.form with
  | snippet tokens => exact (still_snippetExpression hL seg tokens).bind fun _ => .pure _
  | _ => exact .pure _

lemma still_string (hL : StillLevel L) : Still (Grammar.string L) := by
  have hsegments (segs : List (Segment Token)) : Still (segs.mapM (segmentNode L)) := by
    induction segs with
    | nil => exact .pure _
    | cons seg segs ih =>
      rw [List.mapM_cons]
      exact (still_segmentNode hL seg).bind fun _ => ih.bind fun _ => .pure _
  exact (Still.expect (by decide)).bind fun t => (hsegments t.segments).bind fun _ => .pure _

/-! ### Operands -/

lemma still_primary (hL : StillLevel L) (inMatrix : Bool) : Still (primary L inMatrix) := by
  refine .get_bind fun s => ?_
  cases hk : s.current.kind with
  | leftBracket => exact (still_matrix hL).stillAt s
  | leftParen => exact (still_bracketed hL).stillAt s
  | identifier =>
    refine Still.stillAt ((still_memberAccess inMatrix).bind fun target => ?_) s
    exact .current_bind fun s => .ite (fun _ => (still_call hL target).stillAt s) fun _ =>
      (Still.pure _).stillAt s
  | number => exact .ite (fun _ => still_range.stillAt s) fun _ => stillAt_number hk
  | string => exact (still_string hL).stillAt s
  | _ => exact (Still.fail rfl _).stillAt s

lemma still_suffixes (L : Level) (bound : Nat) (operand : Node) :
    Still (suffixes L bound operand) := by
  induction bound generalizing operand with
  | zero => exact .pure _
  | succ bound ih =>
    refine .current_bind fun s => .ite (fun hc => .discard_bind ?_)
      fun _ => (Still.pure _).stillAt s
    rw [Bool.and_eq_true] at hc
    refine .advance_bind (TokenKind.isStill_of_isSuffix hc.1) ?_
    exact (Still.node ..).bind fun _ => (still_bounded ..).bind fun _ => ih _

lemma still_unary (hL : StillLevel L) (inMatrix : Bool) : Still (unary L inMatrix) := by
  refine .current_bind fun s => .ite (fun hc => .discard_bind ?_) fun _ => Still.stillAt ?_ s
  · refine .advance_bind (TokenKind.isStill_of_isUnary hc) ?_
    exact (still_nested hL _ fun read hr => hr.unary ..).bind fun _ => .pure _
  · exact (still_primary hL inMatrix).bind fun _ => .tokensLeft_bind fun _ => still_suffixes L ..

/-! ### Bodies -/

/-- Reading a word that tells what the next brace opens. -/
lemma mindsAt_word_bind {kind : TokenKind} (header : Body) {g : Token → Parse α}
    (hne : kind ≠ .eof)
    (hk : ∀ (b : Bodies) (x : Token), x.kind = kind → b.after x = b.heading header)
    (hg : ∀ x t, t.bodies = s.bodies.heading header → MindsAt (g x) t) :
    MindsAt (expect [kind] >>= g) s := by
  refine ReportsAt.bind (P := (· = s.bodies.heading header)) ⟨?_⟩
    fun x t _ ht hb => MindsAt.of_eq ht (by rw [hb, Bodies.opened_heading]) (hg x t hb)
  by_cases hc : [kind].contains s.current.kind = true
  · have hkind : s.current.kind = kind := by simpa using hc
    rw [run_expect hc]
    refine .ok s.tokens_step ?_
    rw [Parser.bodies_step_of_ne (hkind ▸ hne), hk _ _ hkind]
  · rw [run_expect_other hc]
    exact .error fun h => by cases h

/-- The closing brace of a body. -/
lemma reportsAt_closeBody {opener : Token} (ho : opener.kind = .leftBrace) {all : List Token}
    {header : Body} {opened : List Body} (hs : s.bodies.opened = header :: opened) :
    ReportsAt (·.opened = opened) (Strays all) (close opener) s := by
  refine .current_bind (.ite (fun hc => .of_bind_pure (.advance_bind ⟨.ok rfl ?_⟩)) fun _ =>
    .ite (fun _ => ⟨.error fun h => by cases h⟩) fun _ => ⟨.error fun h => by cases h⟩)
  have hk : s.current.kind = .rightBrace := by
    rw [ho] at hc
    exact Option.some.inj (beq_iff_eq.mp hc)
  rw [Parser.bodies_step_of_ne (by rw [hk]; decide), Bodies.after, hk]
  show s.bodies.opened.tail = opened
  rw [hs, List.tail_cons]

lemma mindsAt_statements {readOne : Parse Node} {loops : Nat}
    (h : ∀ s, s.bodies.loops = loops → MindsAt readOne s) (closer : Option TokenKind)
    (bound : Nat) (hs : s.bodies.loops = loops) :
    MindsAt (statements true readOne closer bound) s := by
  induction bound generalizing s with
  | zero => exact (Still.pure _).mindsAt s
  | succ bound ih =>
    refine ReportsAt.current_bind (.ite (fun hc => .discard_bind (.advance_bind ?_)) fun _ =>
      .ite (fun _ => (Still.pure _).mindsAt s) fun _ => ?_)
    · have hb := Parser.bodies_step_of_isStill (TokenKind.isStill_of_isSeparator hc)
      exact MindsAt.of_eq s.tokens_step (by rw [hb]) (ih (hb ▸ hs))
    · rw [attempt_strict]
      exact (h s hs).bind fun _ t ht =>
        (ih (Bodies.loops_congr ht ▸ hs)).bind_still fun _ => .pure _

/-- In the braces the loops are counted from the body that they enclose. -/
lemma mindsAt_block (hL : StillLevel L) {loops : Nat} (hs : s.bodies.enter.loops = loops) :
    MindsAt (block L loops) s := by
  refine ReportsAt.current_bind (.ite (fun _ => ⟨.error fun h => by cases h⟩) fun hk =>
    .discard_bind (.advance_bind ?_))
  have hk : s.current.kind = .leftBrace := by simpa using hk
  have hb : s.step.bodies = s.bodies.enter := by
    rw [Parser.bodies_step_of_ne (by rw [hk]; decide), Bodies.after, hk]
  refine ReportsAt.bind (P := (·.opened = s.bodies.opened)) ?_
    fun _ t _ ht ho => ⟨.ok rfl ho⟩
  unfold nested
  rcases hL.inner with hi | ⟨read, hi, hr⟩
  · rw [hi]
    exact ⟨.error fun h => by cases h⟩
  · rw [hi, hL.strict]
    refine .tokensLeft_bind (ReportsAt.bind (P := (·.opened = s.bodies.enter.opened)) ?_
      fun _ t _ ht ho => .discard_bind (.bind (reportsAt_closeBody hk ho)
        fun _ u _ _ hu => ⟨.ok rfl hu⟩))
    rw [← hb, ← s.tokens_step]
    exact mindsAt_statements (fun u hu => by rw [← hs, ← hb, ← hu]; exact hr.statement u) _ _ rfl

/-! ### Statements -/

lemma still_semicolon : Still semicolon := (Still.accept (by decide)).bind fun _ => .pure _

lemma still_assignment (hL : StillLevel L) : Still (assignment L) :=
  (Still.leafOf rfl _).bind fun _ => .discard_bind (.expect (by decide))
    ((still_anyExpression hL).bind fun _ => still_semicolon.bind fun _ => .node ..)

lemma still_expressionStatement (hL : StillLevel L) : Still (expressionStatement L) :=
  (still_anyExpression hL).bind fun _ => still_semicolon.bind fun _ => .node ..

lemma still_symbolDeclaration : Still symbolDeclaration :=
  (Still.expect (by decide)).bind fun _ => (Still.leafOf rfl _).bind fun _ => .node ..

lemma still_importStatement : Still importStatement :=
  (Still.expect (by decide)).bind fun _ => .current_bind fun s =>
    .ite (fun _ => (Still.fail_bind rfl _).stillAt s) fun _ =>
      ((still_memberAccess false).bind fun _ => .node ..).stillAt s

lemma still_returnStatement (hL : StillLevel L) : Still (returnStatement L) :=
  (Still.expect (by decide)).bind fun _ => (still_anyExpression hL).bind fun _ => .node ..

/-- Line ends open and close no body. -/
lemma bodies_atClause (s : Parser) :
    (atClause s).tokens = s.tokens ∧ (atClause s).bodies = s.bodies := by
  obtain ⟨ls, hls, hl, -⟩ := passes_atClause s
  have hrest : s.rest = ls ++ (atClause s).rest := hls.rest
  have hbefore : (atClause s).before = ls.reverse ++ s.before := Moves.before hls
  constructor
  · simp [Parser.tokens, hbefore, hrest]
  · have hstill (b : Bodies) : ls.foldl Bodies.after b = b := by
      clear hls hrest hbefore
      induction ls with
      | nil => rfl
      | cons l ls ih =>
        rw [List.forall_mem_cons] at hl
        rw [List.foldl_cons, Bodies.after_of_isStill (by rw [hl.1]; rfl), ih hl.2]
    rw [Parser.bodies, hbefore, List.reverse_append, List.reverse_reverse, openBodies,
      List.foldl_append, hstill]
    rfl

/-- The word of a clause makes the next body one of a branch. -/
lemma mindsAt_clauseWord {g : Token → Parse α}
    (hk : (atClause s).current.kind = .kwElseif ∨ (atClause s).current.kind = .kwElse)
    (hg : ∀ x t, t.bodies = s.bodies.heading .branch → MindsAt (g x) t) :
    ReportsAt (·.opened = s.bodies.opened) (Strays s.tokens) (advance >>= g) (atClause s) := by
  obtain ⟨ht, hb⟩ := bodies_atClause s
  have hstep : (atClause s).step.bodies = s.bodies.heading .branch := by
    rcases hk with hk | hk <;>
      rw [Parser.bodies_step_of_ne (by rw [hk]; decide), Bodies.after, hk, hb]
  exact .advance_bind (MindsAt.of_eq ((atClause s).tokens_step.trans ht)
    (by rw [hstep, Bodies.opened_heading]) (hg _ _ hstep))

lemma mindsAt_clauses (hL : StillLevel L) (bound : Nat) (seenElse : Bool) {loops : Nat}
    (hs : s.bodies.loops = loops) : MindsAt (clauses L loops bound seenElse) s := by
  induction bound generalizing s seenElse with
  | zero => exact (Still.pure _).mindsAt s
  | succ bound ih =>
    -- a body and the clauses behind it
    have hbody {t : Parser} (ht : t.bodies = s.bodies.heading .branch)
        (seenElse : Bool) {g : Node → Parse Node} {f : Node → List Node → List Node}
        (hg : ∀ n, Still (g n)) : MindsAt (block L loops >>= fun body => g body >>= fun clause =>
          clauses L loops bound seenElse >>= fun more => pure (f clause more)) t := by
      have hloops : t.bodies.loops = loops := by rw [← hs, ht, Bodies.loops_heading]
      refine (mindsAt_block hL ?_).bind fun body u hu =>
        .still_bind (hg body) fun clause v _ hv => ?_
      · rw [ht, Bodies.loops_branch, hs]
      · refine (ih seenElse ?_).bind_still fun _ => .pure _
        rw [hv, Bodies.loops_congr hu, hloops]
    obtain ⟨ls, hls, hl, hkind⟩ := passes_atClause s
    rw [← Parser.current_kind, ← Parser.significant_kind] at hkind
    have hword {p : Parse (List Node)} (h : ReportsAt (·.opened = s.bodies.opened)
        (Strays s.tokens) p (atClause s)) : Report s.tokens (·.opened = s.bodies.opened)
          (Strays s.tokens) (p (atClause s)) := by
      have := h.run
      rwa [(bodies_atClause s).1] at this
    refine ⟨?_⟩
    by_cases hi : s.significant.kind = .kwElseif
    · rw [clauses_elseif hi]
      refine hword (mindsAt_clauseWord (.inl (hkind.trans hi)) fun x t ht => ?_)
      refine ReportsAt.ite (fun _ => ⟨.error fun h => by cases h⟩) fun _ => ?_
      exact MindsAt.still_bind (still_anyExpression hL) fun e u _ hu =>
        hbody (hu.trans ht) seenElse fun _ => .node ..
    · by_cases he : s.significant.kind = .kwElse
      · rw [clauses_else he]
        refine hword (mindsAt_clauseWord (.inr (hkind.trans he)) fun x t ht => ?_)
        refine ReportsAt.ite (fun _ => ⟨.error fun h => by cases h⟩) fun _ => ?_
        exact hbody ht true fun _ => .node ..
      · rw [clauses_end hi he]
        exact .ok rfl rfl

lemma mindsAt_ifStatement (hL : StillLevel L) : MindsAt (ifStatement L s.bodies.loops) s := by
  refine mindsAt_word_bind .branch (by decide) (fun b x hx => by rw [Bodies.after, hx])
    fun x t ht => .still_bind (still_anyExpression hL) fun e u _ hu => ?_
  refine (mindsAt_block hL ?_).bind fun body v hv => ?_
  · rw [hu, ht, Bodies.loops_branch]
  · refine ReportsAt.tokensLeft_bind ((mindsAt_clauses hL _ false ?_).bind_still fun _ => .node ..)
    exact Bodies.loops_congr (by rw [hv, hu, ht]; rfl)

lemma mindsAt_whileLoop (hL : StillLevel L) : MindsAt (whileLoop L s.bodies.loops) s := by
  refine mindsAt_word_bind .loop (by decide) (fun b x hx => by rw [Bodies.after, hx])
    fun x t ht => .still_bind (still_anyExpression hL) fun e u _ hu => ?_
  refine (mindsAt_block hL ?_).bind_still fun _ => .node ..
  rw [hu, ht, Bodies.loops_loop]

lemma mindsAt_forLoop (hL : StillLevel L) : MindsAt (forLoop L s.bodies.loops) s := by
  refine mindsAt_word_bind .loop (by decide) (fun b x hx => by rw [Bodies.after, hx])
    fun x t ht => .still_bind (.leafOf rfl _) fun n u _ hu => ?_
  rw [MindsAt, Parse.discard_bind]
  refine MindsAt.still_bind (.expect (by decide)) fun _ v _ hv =>
    .still_bind (still_anyExpression hL) fun e w _ hw => ?_
  refine (mindsAt_block hL ?_).bind_still fun _ => .node ..
  rw [hw, hv, hu, ht, Bodies.loops_loop]

/-- The loops around a definition do not count within its body. -/
lemma mindsAt_functionDefinition (hL : StillLevel L) : MindsAt (functionDefinition L) s := by
  refine mindsAt_word_bind .function (by decide)
    (fun b x hx => by rw [Bodies.after, hx]) fun x t ht => .still_bind (.leafOf rfl _)
      fun n u _ hu => .still_bind (.expect (by decide)) fun opener v hopener hv => ?_
  have ho := (expect_one_inv (by decide) (by decide) hopener).2.2.1
  refine .still_bind (still_arguments ho (still_anyExpression hL) true) fun args w _ hw => ?_
  refine (mindsAt_block hL ?_).bind_still fun _ => .node ..
  rw [hw, hv, hu, ht, Bodies.loops_function]

/-- A `break` or a `cont` is refused where no loop is counted. -/
lemma mindsAt_loopControl (hk : s.current.kind = .kwBreak ∨ s.current.kind = .kwCont) :
    MindsAt (loopControl s.bodies.loops) s := by
  have hrest : s.rest = s.current :: s.step.rest := by
    refine Parser.rest_eq_current ?_
    rw [← Parser.current_kind]
    rcases hk with hk | hk <;> rw [hk] <;> decide
  refine ReportsAt.advance_bind (.ite (fun hl => ⟨.error fun _ => ?_⟩) fun _ => ⟨.ok rfl ?_⟩)
  · refine ⟨s.before.reverse, s.current, s.step.rest, ?_, hk, rfl, hl⟩
    rw [Parser.tokens, ← hrest]
  · rw [Parser.bodies_step_of_isStill (by rcases hk with hk | hk <;> rw [hk] <;> rfl)]

lemma mindsAt_statement (hL : StillLevel L) : MindsAt (statement L s.bodies.loops) s := by
  have htoken (kind : Kind) (hk : s.current.kind.isStill = true) :
      MindsAt (tokenStatement kind) s := by
    refine ReportsAt.advance_bind ⟨.ok rfl ?_⟩
    rw [Parser.bodies_step_of_isStill hk]
  refine ReportsAt.get_bind ?_
  dsimp only
  cases hk : s.current.kind with
  | comment | kwExit => exact htoken _ (by rw [hk]; rfl)
  | kwBreak => exact mindsAt_loopControl (.inl hk)
  | kwCont => exact mindsAt_loopControl (.inr hk)
  | kwSym => exact still_symbolDeclaration.mindsAt s
  | kwIf => exact mindsAt_ifStatement hL
  | kwWhile => exact mindsAt_whileLoop hL
  | kwFor => exact mindsAt_forLoop hL
  | kwFn => exact mindsAt_functionDefinition hL
  | kwImport => exact still_importStatement.mindsAt s
  | kwRet => exact (still_returnStatement hL).mindsAt s
  | rightParen | rightBracket | rightBrace | kwElse | kwElseif =>
    exact (Still.fail rfl _).mindsAt s
  | identifier =>
    exact .ite (fun _ => (still_assignment hL).mindsAt s)
      fun _ => (still_expressionStatement hL).mindsAt s
  | _ => exact (still_expressionStatement hL).mindsAt s

end

/-! ### The whole grammar -/

lemma stillLevel (limit : Int) (n : Nat) : StillLevel (level limit true n) := by
  induction n with
  | zero => exact ⟨rfl, .inl rfl⟩
  | succ n ih =>
    refine ⟨rfl, .inr ⟨_, rfl, ?_⟩⟩
    refine ⟨fun least inMatrix => ?_, fun inMatrix => ?_, fun s => ?_⟩
    · rw [derive_eq]
      exact still_expression ih least inMatrix
    · rw [derive_eq]
      exact still_unary ih inMatrix
    · rw [derive_eq]
      exact mindsAt_statement ih

/-- The statements of a program are read outside of all loops. -/
lemma mindsAt_program (limit : Int) (n : Nat) (s : Parser) :
    MindsAt (program (level limit true n) s.bodies.loops) s := by
  have hL := stillLevel limit n
  refine ReportsAt.get_bind (.note_bind _ (.tokensLeft_bind ?_))
  rw [hL.strict]
  have hstatements : MindsAt (statements true (statement (level limit true n) s.bodies.loops) none
      s.rest.length) { s with trace := .parsingStarted s.count true :: s.trace } :=
    mindsAt_statements (fun u (hu : u.bodies.loops = s.bodies.loops) => by
      rw [← hu]
      exact mindsAt_statement hL) none _ rfl
  exact hstatements.bind_still fun _ => .current_bind fun t => (Still.pure _).stillAt t

end StpLang
