import StpLang.Proofs.Diagnostics.Ranges

/-!
The errors of the grammar point into the text.

Wherever a reader of the grammar fails, the range that it blames is that of a token, of
an opening delimiter, or of a piece of a string, and all of these lie in the text.

* `AimingLevel` says so of the readers one level further in.
* `aims_expression` and `aims_statement` follow the grammar at one level.
* `aimsLevel` ties the levels together, and `aims_program` is the result for programs.
-/

namespace StpLang

open Parse Grammar

/-- What is read one level further in points into the text. -/
structure AimingLevel (cs : List Char) (L : Level) : Prop where
  inner : ∀ read ∈ L.inner, ∀ x, Aims cs (read x)

section

variable {α : Type} {cs : List Char} {L : Level} {read : Nonterminal → Parse Node}

lemma aims_nested {t : Token} {body : (Nonterminal → Parse Node) → Parse α} (hL : AimingLevel cs L)
    (ht : t.Ranges cs) (h : ∀ read, (∀ x, Aims cs (read x)) → Aims cs (body read)) :
    Aims cs (nested L t body) := by
  unfold nested
  cases hi : L.inner with
  | none => exact .fail ht.span rfl
  | some read => exact h read (hL.inner read hi)

lemma aims_bounded (limit : Int) (allowance : Nat) (n : Node) {t : Token} (ht : t.Ranges cs) :
    Aims cs (bounded limit allowance n t) :=
  .ite (fun _ => .fail ht.span rfl) fun _ => .pure _

/-! ### Binary operators -/

lemma aims_climb (hr : ∀ x, Aims cs (read x)) (least : Nat) (inMatrix : Bool) (bound : Nat)
    (lhs : Node) : Aims cs (climb L read least inMatrix bound lhs) := by
  induction bound generalizing lhs with
  | zero => exact .pure _
  | succ bound ih =>
    refine .get_bind fun s hs => ?_
    dsimp only
    cases s.current.kind.binary? with
    | none => exact .pure _
    | some op =>
      refine .ite (fun _ => .pure _) fun _ => .discard_bind .advance ?_
      exact (hr _).bind fun _ => (aims_bounded _ _ _ hs.current).bind fun _ => ih _

lemma aims_expression (hL : AimingLevel cs L) (least : Nat) (inMatrix : Bool) :
    Aims cs (expression L least inMatrix) :=
  .current_bind fun _ ht => aims_nested hL ht fun _ hr =>
    (hr _).bind fun _ => Aims.tokensLeft.bind fun _ => aims_climb hr ..

lemma aims_anyExpression (hL : AimingLevel cs L) : Aims cs (anyExpression L) :=
  aims_expression hL 1 false

/-! ### Names and numbers -/

lemma aims_memberParts (inMatrix : Bool) (bound : Nat) :
    Aims cs (memberParts inMatrix bound) := by
  induction bound with
  | zero => exact .pure _
  | succ bound ih =>
    exact .current_bind fun _ _ => .ite (fun _ => .discard_bind .advance
      ((Aims.leafOf ..).bind fun _ => ih.bind fun _ => .pure _)) fun _ => .pure _

lemma aims_memberAccess (inMatrix : Bool) : Aims cs (memberAccess inMatrix) :=
  (Aims.leafOf ..).bind fun _ => Aims.tokensLeft.bind fun _ =>
    (aims_memberParts ..).bind fun _ => .node ..

lemma aims_rangeBound : Aims cs rangeBound :=
  .discard_bind (.expect _) (.current_bind fun _ ht =>
    .ite (fun _ => .map _ .advance) fun _ => .fail ht.span rfl)

lemma aims_range : Aims cs range :=
  (Aims.leafOf ..).bind fun _ => aims_rangeBound.bind fun _ => .current_bind fun _ _ =>
    .ite (fun _ => .node ..) fun _ => aims_rangeBound.bind fun _ => .current_bind fun _ ht =>
      .ite (fun _ => .discard_bind .advance ((Aims.fail ht.span rfl).bind fun _ => .node ..))
        fun _ => .node ..

lemma aims_number : Aims cs number :=
  Aims.advance.bind fun _ => .current_bind fun _ _ =>
    .ite (fun _ => .discard_bind .advance (.node ..)) fun _ => .pure _

/-! ### Parentheses and calls -/

lemma aims_bracketed (hL : AimingLevel cs L) : Aims cs (bracketed L) := by
  refine .expect_bind fun opener ho => .current_bind fun t ht => ?_
  have hrest : Aims cs (anyExpression L >>= fun e => discard (close opener) >>= fun _ =>
      node .bracketed opener.place [e]) :=
    (aims_anyExpression hL).bind fun _ => .discard_bind (.close ho) (.node ..)
  exact .ite (fun _ => (Aims.fail ht.span rfl).bind fun _ => hrest) fun _ => hrest

section

variable {readValue : Parse Node} {opener : Token}

lemma aims_keywordArgument (hv : Aims cs readValue) : Aims cs (keywordArgument readValue) :=
  (Aims.leafOf ..).bind fun _ => .discard_bind (.expect _) (hv.bind fun _ => .node ..)

lemma aims_argumentSeparator (ho : opener.Ranges cs) : Aims cs (argumentSeparator opener) :=
  .current_bind fun _ ht => .ite
    (fun _ => .discard_bind .advance (.current_bind fun _ _ =>
      .ite (fun _ => .fail ht.span rfl) fun _ => .pure _))
    fun _ => .ite (fun _ => .discard (.close ho)) fun _ => .pure _

lemma aims_argumentList (ho : opener.Ranges cs) (hv : Aims cs readValue) (definition : Bool)
    (bound : Nat) (named : Bool) :
    Aims cs (argumentList readValue definition opener bound named) := by
  induction bound generalizing named with
  | zero => exact .fail ho.span rfl
  | succ bound ih =>
    have hmore {x : Parse Node} (hx : Aims cs x) (named : Bool)
        (g : Node → List Node × List Node → List Node × List Node) :
        Aims cs (x >>= fun n => argumentSeparator opener >>= fun _ =>
          argumentList readValue definition opener bound named >>= fun r => pure (g n r)) :=
      hx.bind fun _ => (aims_argumentSeparator ho).bind fun _ => (ih named).bind fun _ => .pure _
    refine .get_bind fun s hs => .ite (fun _ => .pure _) fun _ =>
      .ite (fun _ => .fail ho.span rfl) fun _ => .ite (fun _ => ?_) fun _ =>
        .ite (fun _ => .fail hs.current.span rfl) fun _ => .ite (fun _ => ?_) fun _ => ?_
    · exact hmore (aims_keywordArgument hv) true fun n r => (r.1, n :: r.2)
    · exact hmore (.leafOf ..) false fun n r => (n :: r.1, r.2)
    · exact hmore hv false fun n r => (n :: r.1, r.2)

lemma aims_skipLeadingComma : Aims cs skipLeadingComma :=
  .get_bind fun _ _ => .ite (fun _ => .discard .advance) fun _ => .pure _

lemma aims_arguments (ho : opener.Ranges cs) (hv : Aims cs readValue) (definition : Bool) :
    Aims cs (arguments readValue definition opener) := by
  have hlist : Aims cs (tokensLeft >>= fun bound =>
      argumentList readValue definition opener bound false >>= fun r => advance >>= fun closer =>
        pure (Node.spanning .positionalArgs opener.place closer.stop r.1,
          Node.spanning .keywordArgs opener.place closer.stop r.2)) :=
    Aims.tokensLeft.bind fun _ => (aims_argumentList ho hv definition _ false).bind fun _ =>
      Aims.advance.bind fun _ => .pure _
  exact .ite (fun _ => aims_skipLeadingComma.bind fun _ => hlist) fun _ => hlist

end

lemma aims_call (hL : AimingLevel cs L) (target : Node) : Aims cs (call L target) :=
  .expect_bind fun _ ho =>
    (aims_nested hL ho fun _ hr => aims_arguments ho (hr _) false).bind fun _ => .node ..

/-! ### Matrices -/

lemma aims_rowElements (hr : ∀ x, Aims cs (read x)) (bound : Nat) :
    Aims cs (rowElements read bound) := by
  induction bound with
  | zero => exact .pure _
  | succ bound ih =>
    exact .current_bind fun _ _ => .ite (fun _ => .pure _) fun _ =>
      (hr _).bind fun _ => .discard_bind (.accept _) (ih.bind fun _ => .pure _)

lemma aims_rows {opener : Token} (ho : opener.Ranges cs) (hr : ∀ x, Aims cs (read x))
    (bound : Nat) : Aims cs (rows read opener bound) := by
  induction bound with
  | zero => exact .current_bind fun _ ht => .fail ht.span rfl
  | succ bound ih =>
    refine .current_bind fun _ ht => Aims.tokensLeft.bind fun _ =>
      (aims_rowElements hr _).bind fun elements => ?_
    cases elements.getLast? with
    | none => exact .fail ht.span rfl
    | some last =>
      exact .current_bind fun _ _ => .ite
        (fun _ => .discard_bind .advance
          ((Aims.node ..).bind fun _ => ih.bind fun _ => .pure _))
        fun _ => .discard_bind (.close ho) (.pure _)

lemma aims_matrix (hL : AimingLevel cs L) : Aims cs (matrix L) :=
  .expect_bind fun _ ho => (aims_nested hL ho fun _ hr =>
    Aims.tokensLeft.bind fun _ => aims_rows ho hr _).bind fun _ => .node ..

/-! ### Strings -/

/-- Other tokens are read apart from those around them. -/
lemma aims_onTokens {tokens : Parser} (ht : tokens.Ranges cs) {p : Parse α} (hp : Aims cs p) :
    Aims cs (onTokens tokens p) := by
  refine ⟨fun s hs => ?_⟩
  have hrun := hp.run { tokens with trace := s.trace } ⟨ht.tokens, ht.eof, ht.errors⟩
  unfold onTokens
  cases hr : p { tokens with trace := s.trace } with
  | ok a t => exact .ok ⟨hs.tokens, hs.eof, hs.errors⟩
  | error e t =>
    rw [hr] at hrun
    cases hrun with
    | error _ he => exact .error ⟨hs.tokens, hs.eof, hs.errors⟩ he

lemma aims_snippetExpression (hL : AimingLevel cs L) {seg : Segment Token} (hseg : seg.span.In cs)
    {tokens : List Token} (ht : (Parser.ofTokens tokens).Ranges cs) :
    Aims cs (snippetExpression L seg tokens) := by
  have hinner : Aims cs (onTokens (Parser.ofTokens tokens) do
      let e ← anyExpression L
      let t ← current
      if t.kind != .eof then fail (.leftoverInSnippet (.of t)) t.span
      return e) :=
    aims_onTokens ht ((aims_anyExpression hL).bind fun _ => .current_bind fun _ ht =>
      .ite (fun _ => (Aims.fail ht.span rfl).bind fun _ => .pure _) fun _ => .pure _)
  refine (Aims.note _).bind fun _ => Aims.bind ⟨fun s hs => .ok ⟨hs.tokens, hs.eof, hs.errors⟩⟩
    fun _ => .ite (fun _ => (Aims.fail hseg rfl).bind fun _ => hinner) fun _ => hinner

lemma aims_segmentNode (hL : AimingLevel cs L) {seg : Segment Token} (hseg : seg.span.In cs)
    (hsnippet : ∀ us ∈ seg.snippet?, (Parser.ofTokens us).Ranges cs) :
    Aims cs (segmentNode L seg) := by
  unfold segmentNode
  unfold Segment.snippet? at hsnippet
  cases hf : seg.form with
  | snippet tokens =>
    rw [hf] at hsnippet
    exact (aims_snippetExpression hL hseg (hsnippet tokens rfl)).bind fun _ => .pure _
  | _ => exact .pure _

lemma aims_segments (hL : AimingLevel cs L) {segs : List (Segment Token)}
    (hsegs : ∀ seg ∈ segs, seg.span.In cs)
    (hsnippets : ∀ us ∈ segs.filterMap Segment.snippet?, (Parser.ofTokens us).Ranges cs) :
    Aims cs (segs.mapM (segmentNode L)) := by
  induction segs with
  | nil => exact .pure _
  | cons seg segs ih =>
    rw [List.forall_mem_cons] at hsegs
    rw [List.mapM_cons]
    refine (aims_segmentNode hL hsegs.1 fun us hus => hsnippets us ?_).bind fun _ =>
      (ih hsegs.2 fun us hus => hsnippets us ?_).bind fun _ => .pure _
    · exact List.mem_filterMap.mpr ⟨seg, List.mem_cons_self, hus⟩
    · obtain ⟨x, hx, hform⟩ := List.mem_filterMap.mp hus
      exact List.mem_filterMap.mpr ⟨x, List.mem_cons_of_mem _ hx, hform⟩

lemma aims_string (hL : AimingLevel cs L) : Aims cs (Grammar.string L) := by
  refine .expect_bind fun t ht => Aims.bind ?_ fun _ => .pure _
  cases ht with
  | mk _ _ hpieces hended htokens =>
    exact aims_segments hL hpieces fun us hus => ranges_ofTokens (hended us hus) (htokens us hus)

/-! ### Operands -/

lemma aims_nameOrCall (hL : AimingLevel cs L) (inMatrix : Bool) : Aims cs (nameOrCall L inMatrix) :=
  (aims_memberAccess inMatrix).bind fun target => .current_bind fun _ _ =>
    .ite (fun _ => aims_call hL target) fun _ => .pure _

lemma aims_primary (hL : AimingLevel cs L) (inMatrix : Bool) : Aims cs (primary L inMatrix) := by
  refine .get_bind fun s hs => ?_
  cases s.current.kind with
  | leftBracket => exact aims_matrix hL
  | leftParen => exact aims_bracketed hL
  | identifier => exact aims_nameOrCall hL inMatrix
  | number => exact .ite (fun _ => aims_range) fun _ => aims_number
  | string => exact aims_string hL
  | _ => exact .fail hs.current.span rfl

lemma aims_suffixes (L : Level) (bound : Nat) (operand : Node) :
    Aims cs (suffixes L bound operand) := by
  induction bound generalizing operand with
  | zero => exact .pure _
  | succ bound ih =>
    exact .current_bind fun _ ht => .ite (fun _ => .discard_bind .advance
      ((Aims.node ..).bind fun _ => (aims_bounded _ _ _ ht).bind fun _ => ih _)) fun _ => .pure _

lemma aims_suffix (hL : AimingLevel cs L) (inMatrix : Bool) : Aims cs (suffix L inMatrix) :=
  (aims_primary hL inMatrix).bind fun _ => Aims.tokensLeft.bind fun _ => aims_suffixes L ..

lemma aims_unary (hL : AimingLevel cs L) (inMatrix : Bool) : Aims cs (unary L inMatrix) :=
  .current_bind fun _ ht => .ite
    (fun _ => .discard_bind .advance ((aims_nested hL ht fun _ hr => hr _).bind fun _ => .pure _))
    fun _ => aims_suffix hL inMatrix

/-! ### Statements -/

/-- The error from which reading recovers is one of the statement. -/
lemma aims_attempt (strict inBlock : Bool) {readOne : Parse Node} (h : Aims cs readOne) :
    Aims cs (attempt strict inBlock readOne) := by
  refine ⟨fun s hs => ?_⟩
  have hrun := h.run s hs
  unfold attempt
  cases hr : readOne s with
  | ok n t =>
    rw [hr] at hrun
    cases hrun with
    | ok ht => exact .ok ht
  | error e t =>
    rw [hr] at hrun
    cases hrun with
    | error ht he =>
      cases strict with
      | true => exact .error ht he
      | false => exact .ok (ht.recover he ..)

lemma aims_statements (strict : Bool) {readOne : Parse Node} (h : Aims cs readOne)
    (closer : Option TokenKind) (bound : Nat) :
    Aims cs (statements strict readOne closer bound) := by
  induction bound with
  | zero => exact .pure _
  | succ bound ih =>
    exact .current_bind fun _ _ => .ite (fun _ => .discard_bind .advance ih) fun _ =>
      .ite (fun _ => .pure _) fun _ =>
        (aims_attempt strict _ h).bind fun _ => ih.bind fun _ => .pure _

lemma aims_block (hL : AimingLevel cs L) (loops : Nat) : Aims cs (block L loops) := by
  refine .current_bind fun opener ho => ?_
  have hbody : Aims cs (discard advance >>= fun _ => nested L opener (fun read => do
      let children ←
        statements L.strict (read (.statement loops)) (some .rightBrace) (← tokensLeft)
      discard (close opener)
      return children) >>= fun children => node .block opener.place children) := by
    refine .discard_bind .advance ((aims_nested hL ho fun read hr => ?_).bind fun _ => .node ..)
    exact Aims.tokensLeft.bind fun _ => (aims_statements _ (hr _) ..).bind fun _ =>
      .discard_bind (.close ho) (.pure _)
  exact .ite (fun _ => (Aims.fail ho.span rfl).bind fun _ => hbody) fun _ => hbody

lemma aims_semicolon : Aims cs semicolon := (Aims.accept _).bind fun _ => .pure _

lemma aims_assignment (hL : AimingLevel cs L) : Aims cs (assignment L) :=
  (Aims.leafOf ..).bind fun _ => .discard_bind (.expect _)
    ((aims_anyExpression hL).bind fun _ => aims_semicolon.bind fun _ => .node ..)

lemma aims_expressionStatement (hL : AimingLevel cs L) : Aims cs (expressionStatement L) :=
  (aims_anyExpression hL).bind fun _ => aims_semicolon.bind fun _ => .node ..

lemma aims_symbolDeclaration : Aims cs symbolDeclaration :=
  (Aims.expect _).bind fun _ => (Aims.leafOf ..).bind fun _ => .node ..

lemma aims_importStatement : Aims cs importStatement :=
  (Aims.expect _).bind fun _ => .current_bind fun _ ht =>
    have hname := (aims_memberAccess false).bind fun _ => .node ..
    .ite (fun _ => (Aims.fail ht.span rfl).bind fun _ => hname) fun _ => hname

lemma aims_returnStatement (hL : AimingLevel cs L) : Aims cs (returnStatement L) :=
  (Aims.expect _).bind fun _ => (aims_anyExpression hL).bind fun _ => .node ..

lemma aims_clauses (hL : AimingLevel cs L) (loops bound : Nat) (seenElse : Bool) :
    Aims cs (clauses L loops bound seenElse) := by
  induction bound generalizing seenElse with
  | zero => exact .pure _
  | succ bound ih =>
    refine .get_bind fun s hs => ?_
    cases s.significant.kind with
    | kwElseif =>
      refine .set_bind (hs.forward _) (.advance_bind fun t ht => ?_)
      have hclause := (aims_anyExpression hL).bind fun condition =>
        (aims_block hL loops).bind fun body =>
          (Aims.node .elseifClause t.place [condition, body] [(.condition, [0]), (.body, [1])]
            none).bind fun clause => (ih seenElse).bind fun more => .pure (clause :: more)
      exact .ite (fun _ => (Aims.fail ht.span rfl).bind fun _ => hclause) fun _ => hclause
    | kwElse =>
      refine .set_bind (hs.forward _) (.advance_bind fun t ht => ?_)
      have hclause := (aims_block hL loops).bind fun body =>
        (Aims.node .elseClause t.place [body] [(.body, [0])] none).bind fun clause =>
          (ih true).bind fun more => .pure (clause :: more)
      exact .ite (fun _ => (Aims.fail ht.span rfl).bind fun _ => hclause) fun _ => hclause
    | _ => exact .pure _

lemma aims_ifStatement (hL : AimingLevel cs L) (loops : Nat) : Aims cs (ifStatement L loops) :=
  (Aims.expect _).bind fun _ => (aims_anyExpression hL).bind fun _ =>
    (aims_block hL loops).bind fun _ => Aims.tokensLeft.bind fun _ =>
      (aims_clauses hL loops _ false).bind fun _ => .node ..

lemma aims_whileLoop (hL : AimingLevel cs L) (loops : Nat) : Aims cs (whileLoop L loops) :=
  (Aims.expect _).bind fun _ => (aims_anyExpression hL).bind fun _ =>
    (aims_block hL _).bind fun _ => .node ..

lemma aims_forLoop (hL : AimingLevel cs L) (loops : Nat) : Aims cs (forLoop L loops) :=
  (Aims.expect _).bind fun _ => (Aims.leafOf ..).bind fun _ => .discard_bind (.expect _)
    ((aims_anyExpression hL).bind fun _ => (aims_block hL _).bind fun _ => .node ..)

lemma aims_loopControl (loops : Nat) : Aims cs (loopControl loops) :=
  .advance_bind fun _ ht =>
    .ite (fun _ => (Aims.fail ht.span rfl).bind fun _ => .pure _) fun _ => .pure _

lemma aims_functionDefinition (hL : AimingLevel cs L) : Aims cs (functionDefinition L) :=
  (Aims.expect _).bind fun _ => (Aims.leafOf ..).bind fun _ => .expect_bind fun _ ho =>
    (aims_arguments ho (aims_anyExpression hL) true).bind fun _ =>
      (aims_block hL 0).bind fun _ => .node ..

lemma aims_tokenStatement (kind : Kind) : Aims cs (tokenStatement kind) :=
  Aims.advance.bind fun _ => .pure _

lemma aims_statement (hL : AimingLevel cs L) (loops : Nat) : Aims cs (statement L loops) := by
  refine .get_bind fun s hs => ?_
  dsimp only
  cases s.current.kind with
  | comment | kwExit => exact aims_tokenStatement _
  | kwBreak | kwCont => exact aims_loopControl loops
  | kwSym => exact aims_symbolDeclaration
  | kwIf => exact aims_ifStatement hL loops
  | kwWhile => exact aims_whileLoop hL loops
  | kwFor => exact aims_forLoop hL loops
  | kwFn => exact aims_functionDefinition hL
  | kwImport => exact aims_importStatement
  | kwRet => exact aims_returnStatement hL
  | rightParen | rightBracket | rightBrace | kwElse | kwElseif =>
    exact .fail hs.current.span rfl
  | identifier =>
    exact .ite (fun _ => aims_assignment hL) fun _ => aims_expressionStatement hL
  | _ => exact aims_expressionStatement hL

/-! ### The whole grammar -/

lemma aims_produce (hL : AimingLevel cs L) (x : Nonterminal) : Aims cs (produce L x) := by
  cases x with
  | expression least inMatrix => exact aims_expression hL least inMatrix
  | unary inMatrix => exact aims_unary hL inMatrix
  | statement loops => exact aims_statement hL loops

lemma aimsLevel (limit : Int) (strict : Bool) (n : Nat) :
    AimingLevel cs (level limit strict n) := by
  induction n with
  | zero => exact ⟨fun _ h => by cases h⟩
  | succ n ih =>
    refine ⟨fun read h x => ?_⟩
    cases h
    rw [derive_eq]
    exact aims_produce ih x

lemma aims_program (limit : Int) (strict : Bool) (n loops : Nat) :
    Aims cs (program (level limit strict n) loops) :=
  .get_bind fun _ _ => (Aims.note _).bind fun _ => Aims.tokensLeft.bind fun _ =>
    (aims_statements _ (aims_statement (aimsLevel limit strict n) loops) ..).bind fun _ =>
      .current_bind fun _ _ => .pure _

end

end StpLang
