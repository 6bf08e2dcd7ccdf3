import StpLang.Proofs.Counters.Mirrors

/-!
A reader with counters reads the grammar.

Step by step the reader does what the grammar does at the level that its counters tell: it
is nested as deep as it has descended, and within as many loops as it has entered. Readers
of expressions are also those of snippets, which are strict and within no loop.

* `mirrors_expression` and `mirrors_statement` follow the grammar at one level.
* `fits_readers` ties the levels together.
-/

namespace StpLang

open Parse Grammar

section

variable {k : Counters} {R : Count.Inner} {strict : Bool}

/-- Only the depth and the limit of the reader count for what it descends to. -/
lemma Fits.recount (hR : Fits R k) (strict : Bool) (loops : Nat) :
    Fits R { k with strict, loops } := ⟨hR.expression, hR.unary, hR.statement⟩

/-! ### Binary operators -/

lemma mirrors_climb (hR : Fits R k) (hlt : k.depth < k.limit) (least : Nat) (inMatrix : Bool)
    (bound : Nat) (lhs : Node) :
    Mirrors k.deeper (Count.climb R least inMatrix bound lhs)
      (climb (levelAt k.limit strict k.depth)
        (produce (levelAt k.limit strict (k.depth + 1))) least inMatrix bound lhs) := by
  induction bound generalizing lhs with
  | zero => exact .pure _
  | succ bound ih =>
    refine .lift_bind _ fun s => ?_
    dsimp only
    cases s.current.kind.binary? with
    | none => exact .pure _
    | some op =>
      refine .ite (.pure _) (.lift_bind _ fun _ => ?_)
      refine (hR.expression hlt ..).bind fun rhs => (mirrors_bounded _ _ _ _ ?_ ?_).bind
        fun _ => ih _
      · exact (levelAt_limit ..).1
      · rw [(levelAt_limit ..).2.2]
        simp only [Counters.deeper]
        omega

lemma mirrors_expression (hR : Fits R k) (least : Nat) (inMatrix : Bool) :
    Mirrors k (Count.expression R least inMatrix)
      (expression (levelAt k.limit strict k.depth) least inMatrix) :=
  .lift_bind _ fun _ => mirrors_nested fun hlt => (hR.unary hlt ..).bind fun _ =>
    .lift_bind _ fun _ => mirrors_climb hR hlt ..

lemma mirrors_anyExpression (hR : Fits R k) :
    Mirrors k (Count.anyExpression R) (anyExpression (levelAt k.limit strict k.depth)) :=
  mirrors_expression hR 1 false

/-! ### Parentheses and calls -/

lemma mirrors_bracketed (hR : Fits R k) :
    Mirrors k (Count.bracketed R) (bracketed (levelAt k.limit strict k.depth)) := by
  exact .lift_bind _ fun _ => .lift_bind _ fun _ => .when_bind _ fun _ =>
    (mirrors_anyExpression hR).bind fun _ => .lift_bind _ fun _ => .lift _

section

variable {readValue : Count Node} {readValue' : Parse Node}

lemma mirrors_keywordArgument (hv : Mirrors k readValue readValue') :
    Mirrors k (Count.keywordArgument readValue) (keywordArgument readValue') :=
  .lift_bind _ fun _ => .lift_bind _ fun _ => hv.bind fun _ => .lift _

lemma mirrors_argumentList (hv : Mirrors k readValue readValue') (definition : Bool)
    (opener : Token) (bound : Nat) (named : Bool) :
    Mirrors k (Count.argumentList readValue definition opener bound named)
      (argumentList readValue' definition opener bound named) := by
  induction bound generalizing named with
  | zero => exact .lift _
  | succ bound ih =>
    have hmore {x : Count Node} {y : Parse Node} (hx : Mirrors k x y) (named : Bool)
        (g : Node → List Node × List Node → List Node × List Node) :
        Mirrors k (x >>= fun n => Count.lift (argumentSeparator opener) >>= fun _ =>
            Count.argumentList readValue definition opener bound named >>= fun r => pure (g n r))
          (y >>= fun n => argumentSeparator opener >>= fun _ =>
            argumentList readValue' definition opener bound named >>= fun r => pure (g n r)) :=
      hx.bind fun _ => .lift_bind _ fun _ => (ih named).bind fun _ => .pure _
    refine .lift_bind _ fun s => .ite (.pure _) (.ite (.lift _) (.ite ?_ (.ite (.lift _) ?_)))
    · exact hmore (mirrors_keywordArgument hv) true fun n r => (r.1, n :: r.2)
    · exact .ite (hmore (.lift _) false fun n r => (n :: r.1, r.2))
        (hmore hv false fun n r => (n :: r.1, r.2))

lemma mirrors_arguments (hv : Mirrors k readValue readValue') (definition : Bool)
    (opener : Token) :
    Mirrors k (Count.arguments readValue definition opener)
      (arguments readValue' definition opener) := by
  have hlist := Mirrors.lift_bind (k := k) tokensLeft fun bound =>
    (mirrors_argumentList hv definition opener bound false).bind fun r =>
      Mirrors.lift_bind advance fun closer =>
        .pure (Node.spanning .positionalArgs opener.place closer.stop r.1,
          Node.spanning .keywordArgs opener.place closer.stop r.2)
  exact .ite (.lift_bind _ fun _ => hlist) hlist

end

lemma mirrors_call (hR : Fits R k) (target : Node) :
    Mirrors k (Count.call R target) (call (levelAt k.limit strict k.depth) target) :=
  .lift_bind _ fun _ => (mirrors_nested fun hlt =>
    mirrors_arguments (hR.expression hlt ..) false _).bind fun _ => .lift _

/-! ### Matrices -/

lemma mirrors_rowElements (hR : Fits R k) (hlt : k.depth < k.limit) (bound : Nat) :
    Mirrors k.deeper (Count.rowElements R bound)
      (rowElements (produce (levelAt k.limit strict (k.depth + 1))) bound) := by
  induction bound with
  | zero => exact .pure _
  | succ bound ih =>
    exact .lift_bind _ fun _ => .ite (.pure _) ((hR.expression hlt ..).bind fun _ =>
      .lift_bind _ fun _ => ih.bind fun _ => .pure _)

lemma mirrors_rows (hR : Fits R k) (hlt : k.depth < k.limit) (opener : Token) (bound : Nat) :
    Mirrors k.deeper (Count.rows R opener bound)
      (rows (produce (levelAt k.limit strict (k.depth + 1))) opener bound) := by
  induction bound with
  | zero => exact .lift_bind _ fun _ => .lift _
  | succ bound ih =>
    refine .lift_bind _ fun _ => .lift_bind _ fun _ =>
      (mirrors_rowElements hR hlt _).bind fun elements => ?_
    cases elements.getLast? with
    | none => exact .lift _
    | some last =>
      exact .lift_bind _ fun _ => .ite
        (.lift_bind _ fun _ => .lift_bind _ fun _ => ih.bind fun _ => .pure _)
        (.lift_bind _ fun _ => .pure _)

lemma mirrors_matrix (hR : Fits R k) :
    Mirrors k (Count.matrix R) (matrix (levelAt k.limit strict k.depth)) := by
  have hrows (opener : Token) :
      Mirrors k (Count.nested opener do Count.rows R opener (← Count.lift tokensLeft))
        (nested (levelAt k.limit strict k.depth) opener fun read => do
          rows read opener (← tokensLeft)) :=
    mirrors_nested fun hlt => .lift_bind _ fun _ => mirrors_rows hR hlt ..
  exact .lift_bind _ fun opener => (hrows opener).bind fun _ => .lift _

/-! ### Strings -/

/-- The reader of a snippet is strict and within no loop, at the same depth. -/
lemma mirrors_snippetExpression (hR : Fits R k) (seg : Segment Token) (tokens : List Token) :
    Mirrors k (Count.snippetExpression R seg tokens)
      (snippetExpression (levelAt k.limit strict k.depth) seg tokens) := by
  exact .lift_bind _ fun _ => .lift_bind _ fun _ => .when_bind _ fun _ =>
    .counters_bind (.apart _ ((mirrors_anyExpression (hR.recount true 0)).bind fun _ =>
      .lift_bind _ fun _ => .when_bind _ fun _ => .pure _))

lemma mirrors_segmentNode (hR : Fits R k) (seg : Segment Token) :
    Mirrors k (Count.segmentNode R seg)
      (segmentNode (levelAt k.limit strict k.depth) seg) := by
  unfold Count.segmentNode Grammar.segmentNode
  cases seg.form with
  | snippet tokens => exact (mirrors_snippetExpression hR seg tokens).bind fun _ => .pure _
  | _ => exact .pure _

lemma mirrors_string (hR : Fits R k) :
    Mirrors k (Count.string R) (Grammar.string (levelAt k.limit strict k.depth)) := by
  have hsegments (segs : List (Segment Token)) :
      Mirrors k (segs.mapM (Count.segmentNode R))
        (segs.mapM (segmentNode (levelAt k.limit strict k.depth))) := by
    induction segs with
    | nil => exact .pure _
    | cons seg segs ih =>
      rw [List.mapM_cons, List.mapM_cons]
      exact (mirrors_segmentNode hR seg).bind fun _ => ih.bind fun _ => .pure _
  exact .lift_bind _ fun t => (hsegments t.segments).bind fun _ => .pure _

/-! ### Operands -/

lemma mirrors_nameOrCall (hR : Fits R k) (inMatrix : Bool) :
    Mirrors k (Count.nameOrCall R inMatrix)
      (nameOrCall (levelAt k.limit strict k.depth) inMatrix) :=
  .lift_bind _ fun _ => .lift_bind _ fun _ => .ite (mirrors_call hR _) (.pure _)

lemma mirrors_primary (hR : Fits R k) (inMatrix : Bool) :
    Mirrors k (Count.primary R inMatrix)
      (primary (levelAt k.limit strict k.depth) inMatrix) := by
  refine .lift_bind _ fun s => ?_
  cases s.current.kind with
  | leftBracket => exact mirrors_matrix hR
  | leftParen => exact mirrors_bracketed hR
  | identifier => exact mirrors_nameOrCall hR inMatrix
  | number => exact .ite (.lift _) (.lift _)
  | string => exact mirrors_string hR
  | _ => exact .lift _

lemma mirrors_suffixes (bound : Nat) (operand : Node) :
    Mirrors k (Count.suffixes bound operand)
      (suffixes (levelAt k.limit strict k.depth) bound operand) := by
  induction bound generalizing operand with
  | zero => exact .pure _
  | succ bound ih =>
    refine .lift_bind _ fun t => .ite (.lift_bind _ fun _ => .lift_bind _ fun n => ?_) (.pure _)
    refine (mirrors_bounded _ _ n _ ?_ ?_).bind fun _ => ih n
    · exact (levelAt_limit ..).1
    · have hpos := n.height_pos
      rw [(levelAt_limit ..).2.2]
      omega

lemma mirrors_suffix (hR : Fits R k) (inMatrix : Bool) :
    Mirrors k (Count.suffix R inMatrix) (suffix (levelAt k.limit strict k.depth) inMatrix) :=
  (mirrors_primary hR inMatrix).bind fun _ => .lift_bind _ fun _ => mirrors_suffixes ..

lemma mirrors_unary (hR : Fits R k) (inMatrix : Bool) :
    Mirrors k (Count.unary R inMatrix) (unary (levelAt k.limit strict k.depth) inMatrix) :=
  .lift_bind _ fun _ => .ite
    (.lift_bind _ fun _ => (mirrors_nested fun hlt => hR.unary hlt ..).bind fun _ => .pure _)
    (mirrors_suffix hR inMatrix)

/-! ### Statements -/

lemma mirrors_attempt (inBlock : Bool) {readOne : Count Node} {readOne' : Parse Node}
    (h : Mirrors k readOne readOne') :
    Mirrors k (Count.attempt inBlock readOne) (attempt k.strict inBlock readOne') := by
  refine ⟨fun p => ?_⟩
  unfold Count.attempt attempt
  rw [h.run p]
  cases readOne' p with
  | ok n q => rfl
  | error e q =>
    simp only [Counters.put]
    split <;> rfl

lemma mirrors_statements {readOne : Count Node} {readOne' : Parse Node}
    (h : Mirrors k readOne readOne') (closer : Option TokenKind) (bound : Nat) :
    Mirrors k (Count.statements readOne closer bound)
      (statements k.strict readOne' closer bound) := by
  induction bound with
  | zero => exact .pure _
  | succ bound ih =>
    exact .lift_bind _ fun _ => .ite (.lift_bind _ fun _ => ih) (.ite (.pure _)
      ((mirrors_attempt _ h).bind fun _ => ih.bind fun _ => .pure _))

lemma mirrors_block (hR : Fits R k) :
    Mirrors k (Count.block R) (block (levelAt k.limit k.strict k.depth) k.loops) := by
  refine .lift_bind _ fun opener => .when_bind _ fun _ => .lift_bind _ fun _ => .bind ?_
    fun _ => .lift _
  refine mirrors_nested fun hlt => .lift_bind _ fun _ => .bind ?_ fun _ =>
    .lift_bind _ fun _ => .pure _
  rw [(levelAt_limit ..).2.1]
  exact mirrors_statements (hR.statement hlt k.strict k.loops) ..

/-- In the body of a loop the reader is within one loop more, and behind it no longer. -/
lemma mirrors_loopBody (hR : Fits R k) :
    Mirrors k (Count.loopBody R) (block (levelAt k.limit k.strict k.depth) (k.loops + 1)) :=
  .ensuring (fun k => { k with loops := k.loops + 1 }) _
    (mirrors_block (hR.recount k.strict (k.loops + 1))) rfl

/-- In the body of a function the reader is within no loop, and behind it within those that
it was in before. -/
lemma mirrors_functionBody (hR : Fits R k) :
    Mirrors k (Count.functionBody R) (block (levelAt k.limit k.strict k.depth) 0) :=
  .counters_bind (.ensuring (fun k => { k with loops := 0 }) _
    (mirrors_block (hR.recount k.strict 0)) rfl)

lemma mirrors_assignment (hR : Fits R k) :
    Mirrors k (Count.assignment R) (assignment (levelAt k.limit strict k.depth)) :=
  .lift_bind _ fun _ => .lift_bind _ fun _ => (mirrors_anyExpression hR).bind fun _ =>
    .lift_bind _ fun _ => .lift _

lemma mirrors_expressionStatement (hR : Fits R k) :
    Mirrors k (Count.expressionStatement R)
      (expressionStatement (levelAt k.limit strict k.depth)) :=
  (mirrors_anyExpression hR).bind fun _ => .lift_bind _ fun _ => .lift _

lemma mirrors_clauses (hR : Fits R k) (bound : Nat) (seenElse : Bool) :
    Mirrors k (Count.clauses R bound seenElse)
      (clauses (levelAt k.limit k.strict k.depth) k.loops bound seenElse) := by
  induction bound generalizing seenElse with
  | zero => exact .pure _
  | succ bound ih =>
    refine .lift_bind _ fun s => ?_
    cases s.significant.kind with
    | kwElseif =>
      exact .lift_bind _ fun _ => .lift_bind _ fun _ => .when_bind _ fun _ =>
        (mirrors_anyExpression hR).bind fun _ => (mirrors_block hR).bind fun _ =>
          .lift_bind _ fun _ => (ih seenElse).bind fun _ => .pure _
    | kwElse =>
      exact .lift_bind _ fun _ => .lift_bind _ fun _ => .when_bind _ fun _ =>
        (mirrors_block hR).bind fun _ => .lift_bind _ fun _ => (ih true).bind fun _ => .pure _
    | _ => exact .pure _

lemma mirrors_ifStatement (hR : Fits R k) :
    Mirrors k (Count.ifStatement R)
      (ifStatement (levelAt k.limit k.strict k.depth) k.loops) :=
  .lift_bind _ fun _ => (mirrors_anyExpression hR).bind fun _ => (mirrors_block hR).bind fun _ =>
    .lift_bind _ fun _ => (mirrors_clauses hR ..).bind fun _ => .lift _

lemma mirrors_whileLoop (hR : Fits R k) :
    Mirrors k (Count.whileLoop R) (whileLoop (levelAt k.limit k.strict k.depth) k.loops) :=
  .lift_bind _ fun _ => (mirrors_anyExpression hR).bind fun _ =>
    (mirrors_loopBody hR).bind fun _ => .lift _

lemma mirrors_forLoop (hR : Fits R k) :
    Mirrors k (Count.forLoop R) (forLoop (levelAt k.limit k.strict k.depth) k.loops) :=
  .lift_bind _ fun _ => .lift_bind _ fun _ => .lift_bind _ fun _ =>
    (mirrors_anyExpression hR).bind fun _ => (mirrors_loopBody hR).bind fun _ => .lift _

lemma mirrors_loopControl : Mirrors k Count.loopControl (loopControl k.loops) :=
  .counters_bind (.lift _)

lemma mirrors_returnStatement (hR : Fits R k) :
    Mirrors k (Count.returnStatement R)
      (returnStatement (levelAt k.limit strict k.depth)) :=
  .lift_bind _ fun _ => (mirrors_anyExpression hR).bind fun _ => .lift _

lemma mirrors_functionDefinition (hR : Fits R k) :
    Mirrors k (Count.functionDefinition R)
      (functionDefinition (levelAt k.limit k.strict k.depth)) :=
  .lift_bind _ fun _ => .lift_bind _ fun _ => .lift_bind _ fun _ =>
    (mirrors_arguments (mirrors_anyExpression hR) true _).bind fun _ =>
      (mirrors_functionBody hR).bind fun _ => .lift _

lemma mirrors_statement (hR : Fits R k) :
    Mirrors k (Count.statement R)
      (statement (levelAt k.limit k.strict k.depth) k.loops) := by
  refine .lift_bind _ fun s => ?_
  dsimp only
  cases s.current.kind with
  | kwIf => exact mirrors_ifStatement hR
  | kwWhile => exact mirrors_whileLoop hR
  | kwFor => exact mirrors_forLoop hR
  | kwFn => exact mirrors_functionDefinition hR
  | kwRet => exact mirrors_returnStatement hR
  | kwBreak | kwCont => exact mirrors_loopControl
  | comment | kwSym | kwImport | kwExit | rightParen | rightBracket | rightBrace | kwElse
  | kwElseif => exact .lift _
  | identifier => exact .ite (mirrors_assignment hR) (mirrors_expressionStatement hR)
  | _ => exact mirrors_expressionStatement hR

lemma mirrors_program (hR : Fits R k) :
    Mirrors k (Count.program R) (program (levelAt k.limit k.strict k.depth) k.loops) := by
  have hstrict := (levelAt_limit k.limit k.strict k.depth).2.1
  unfold program
  rw [hstrict]
  exact .counters_bind (.lift_bind (do note (.parsingStarted (← get).count k.strict)) fun _ =>
    .lift_bind _ fun _ => (mirrors_statements (mirrors_statement hR) none _).bind fun _ =>
      .lift_bind _ fun _ => .pure _)

end

/-! ### The whole grammar -/

/-- With as many readers as there are levels left, the reader fits its counters. -/
lemma fits_readers (k : Counters) : Fits (Count.readers (k.limit - k.depth).toNat) k := by
  generalize hn : (k.limit - k.depth).toNat = n
  induction n generalizing k with
  | zero =>
    have hout : ¬k.depth < k.limit := by omega
    exact ⟨fun h => absurd h hout, fun h => absurd h hout, fun h => absurd h hout⟩
  | succ n ih =>
    have hinner := ih k.deeper (by simp only [Counters.deeper]; omega)
    refine ⟨fun _ strict strict' loops least inMatrix => ?_,
      fun _ strict strict' loops inMatrix => ?_, fun _ strict loops => ?_⟩
    · exact mirrors_expression (hinner.recount strict loops) least inMatrix
    · exact mirrors_unary (hinner.recount strict loops) inMatrix
    · exact mirrors_statement (hinner.recount strict loops)

end StpLang
