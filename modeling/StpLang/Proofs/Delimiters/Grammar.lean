import StpLang.Proofs.Delimiters.Fair

/-!
The strict grammar judges delimiters rightly.

Every reader keeps the stack as it found it: what it reads opens and closes its own
delimiters. The error that a delimiter has no partner arises in four places, where a
group is closed, in a list of arguments, at the start of a statement and at the end of
a block, and in each of them the tokens ahead do not close the stack.

* `fair_expression` and `fair_statement` follow the grammar at one level.
* `fairLevel` ties the levels together.
* `fair_program` is the result for whole programs.
-/

namespace StpLang

open Parse Grammar

/-! ### Kinds of tokens -/

namespace TokenKind

variable {kind : TokenKind}

lemma isPlain_of_binary? {op : Nat × Assoc} (h : kind.binary? = some op) : kind.isPlain = true := by
  cases kind <;> first | rfl | cases h

lemma isPlain_of_isUnary (h : kind.isUnary = true) : kind.isPlain = true := by
  cases kind <;> first | rfl | cases h

lemma isPlain_of_isSuffix (h : kind.isSuffix = true) : kind.isPlain = true := by
  cases kind <;> first | rfl | cases h

lemma isPlain_of_isSeparator (h : kind.isSeparator = true) : kind.isPlain = true := by
  cases kind <;> first | rfl | cases h

end TokenKind

/-! ### Levels -/

/-- At the level of a statement, a closing delimiter ahead closes nothing. -/
def Unclosing (o : List TokenKind) (s : Parser) : Prop :=
  s.current.kind.isCloser = true → ¬Unwinds o s.rest

/-- The readers one level further in are fair, and an expression takes a token. -/
structure FairReaders (read : Nonterminal → Parse Node) : Prop where
  expression : ∀ o least inMatrix, Fair o o (read (.expression least inMatrix))
  unary : ∀ o inMatrix, Fair o o (read (.unary inMatrix))
  statement : ∀ o loops s, Unclosing o s → FairAt o o (read (.statement loops)) s
  starts : Starts .quiet (read (.expression 1 false)) (read (.expression 1 false))

/-- A strict level with fair readers. -/
structure FairLevel (L : Level) : Prop where
  strict : L.strict = true
  starts : Starts .quiet (anyExpression L) (anyExpression L)
  inner : L.inner = none ∨ ∃ read, L.inner = some read ∧ FairReaders read

section

variable {α : Type} {o o' : List TokenKind} {L : Level} {read : Nonterminal → Parse Node}
  {s : Parser}

lemma fair_nested {body : (Nonterminal → Parse Node) → Parse α} (hL : FairLevel L) (t : Token)
    (h : ∀ read, FairReaders read → Fair o o' (body read)) : Fair o o' (nested L t body) := by
  unfold nested
  rcases hL.inner with hi | ⟨read, hi, hr⟩
  · rw [hi]
    exact .fail (fun h => by cases h) _
  · rw [hi]
    exact h read hr

lemma fair_bounded (limit : Int) (allowance : Nat) (n : Node) (t : Token) :
    Fair o o (bounded limit allowance n t) :=
  .ite (fun _ => .fail (fun h => by cases h) _) fun _ => .pure _

/-! ### Binary operators -/

lemma fair_climb (hr : FairReaders read) (least : Nat) (inMatrix : Bool) (bound : Nat)
    (lhs : Node) : Fair o o (climb L read least inMatrix bound lhs) := by
  induction bound generalizing lhs with
  | zero => exact .pure _
  | succ bound ih =>
    refine .get_bind fun s => ?_
    dsimp only
    cases hk : s.current.kind.binary? with
    | none => exact (Fair.pure _).fairAt s
    | some op =>
      refine .ite (fun _ => (Fair.pure _).fairAt s) fun _ => .discard_bind ?_
      refine .plain_bind (TokenKind.isPlain_of_binary? hk) (Fair.fairAt ?_ _)
      exact (hr.expression ..).bind fun _ => (fair_bounded ..).bind fun _ => ih _

lemma fair_expression (hL : FairLevel L) (least : Nat) (inMatrix : Bool) :
    Fair o o (expression L least inMatrix) := by
  refine .current_bind fun s => Fair.fairAt ?_ s
  exact fair_nested hL _ fun read hr => (hr.unary ..).bind fun _ =>
    .tokensLeft_bind fun s => (fair_climb hr ..).fairAt s

lemma fair_anyExpression (hL : FairLevel L) : Fair o o (anyExpression L) :=
  fair_expression hL 1 false

/-! ### Names and numbers -/

lemma fair_memberParts (inMatrix : Bool) (bound : Nat) : Fair o o (memberParts inMatrix bound) := by
  induction bound with
  | zero => exact .pure _
  | succ bound ih =>
    refine .current_bind fun s => .ite (fun hc => .discard_bind ?_) fun _ => (Fair.pure _).fairAt s
    simp only [Bool.and_eq_true, beq_iff_eq] at hc
    refine .plain_bind (by rw [hc.1]; rfl) (Fair.fairAt ?_ _)
    exact (Fair.leafOf rfl _).bind fun _ => ih.bind fun _ => .pure _

lemma fair_memberAccess (inMatrix : Bool) : Fair o o (memberAccess inMatrix) :=
  (Fair.leafOf rfl _).bind fun _ => .tokensLeft_bind fun s =>
    ((fair_memberParts ..).bind fun _ => .node ..).fairAt s

lemma fair_rangeBound : Fair o o rangeBound := by
  refine .discard_bind (.expect (by decide)) (.current_bind fun s => .ite (fun hc => ?_) fun _ =>
    (Fair.refuse rfl _).fairAt s)
  exact .plain_bind (by rw [beq_iff_eq.mp hc]; rfl) ((Fair.pure _).fairAt _)

lemma fair_range : Fair o o range := by
  refine (Fair.leafOf rfl _).bind fun _ => fair_rangeBound.bind fun _ => .current_bind fun s =>
    .ite (fun _ => (Fair.node ..).fairAt s) fun _ => Fair.fairAt ?_ s
  refine fair_rangeBound.bind fun _ => .current_bind fun s => .ite (fun hc => .discard_bind ?_)
    fun _ => (Fair.node ..).fairAt s
  exact .plain_bind (by rw [beq_iff_eq.mp hc]; rfl) ((Fair.refuse_bind rfl _).fairAt _)

/-- A number is read where one is ahead. -/
lemma fairAt_number (hk : s.current.kind = .number) : FairAt o o number s := by
  refine .plain_bind (by rw [hk]; rfl) (Fair.fairAt ?_ _)
  refine .current_bind fun s => .ite (fun hc => .discard_bind ?_) fun _ => (Fair.pure _).fairAt s
  simp only [Bool.and_eq_true, beq_iff_eq] at hc
  exact .plain_bind (by rw [hc.1]; rfl) ((Fair.node ..).fairAt _)

/-! ### Parentheses and calls -/

lemma fair_bracketed (hL : FairLevel L) : Fair o o (bracketed L) := by
  refine .expect_opener_bind rfl fun opener ho => .current_bind fun s =>
    .ite (fun _ => (Fair.refuse_bind rfl _).fairAt s) fun _ => Fair.fairAt ?_ s
  exact (fair_anyExpression hL).bind fun _ =>
    .discard_bind (.close (by rw [ho]; rfl) rfl) (.node ..)

section

variable {readValue : Parse Node} {opener : Token}

lemma fair_keywordArgument (hv : ∀ o, Fair o o readValue) :
    Fair o o (keywordArgument readValue) :=
  (Fair.leafOf rfl _).bind fun _ =>
    .discard_bind (.expect (by decide)) ((hv o).bind fun _ => .node ..)

/-- Where neither a comma nor the closing parenthesis stands, the separator is
missing. -/
lemma fair_argumentSeparator (ho : opener.kind = .leftParen) :
    Fair (.rightParen :: o) (.rightParen :: o) (argumentSeparator opener) := by
  refine .current_bind fun s => .ite (fun hc => .discard_bind ?_) fun _ => .ite (fun hc => ?_)
    fun _ => (Fair.pure _).fairAt s
  · refine .plain_bind (by rw [beq_iff_eq.mp hc]; rfl) (Fair.fairAt ?_ _)
    exact .current_bind fun s => .ite (fun _ => (Fair.refuse rfl _).fairAt s) fun _ =>
      (Fair.pure _).fairAt s
  · refine .of_bind_pure (.discard_bind ?_)
    exact (FairAt.close_other (by rw [ho]; rfl) (bne_iff_ne.mp hc)).bind
      fun _ t _ => (Fair.pure (o := .rightParen :: o) _).fairAt t

/-- Every round reads an argument, so that the bound is never met. -/
lemma fairAt_argumentList (ho : opener.kind = .leftParen) (hv : ∀ o, Fair o o readValue)
    (hs : Starts .quiet readValue readValue) (definition : Bool) (bound : Nat) (named : Bool)
    (hlen : s.rest.length ≤ bound) :
    FairAt (.rightParen :: o) (.rightParen :: o)
      (argumentList readValue definition opener bound named) s := by
  induction bound generalizing named s with
  | zero =>
    refine ⟨fun he => ?_⟩
    obtain ⟨ts, hts⟩ := he.current
    rw [hts] at hlen
    cases hlen
  | succ bound ih =>
    have hmore {x : Parse Node} (hx : Fair (.rightParen :: o) (.rightParen :: o) x)
        (hxs : Starts .quiet x x) (named : Bool)
        (g : Node → List Node × List Node → List Node × List Node) :
        FairAt (.rightParen :: o) (.rightParen :: o) (x >>= fun n => argumentSeparator opener >>=
          fun _ => argumentList readValue definition opener bound named >>=
            fun r => pure (g n r)) s := by
      refine (hx.fairAt s).bind fun n t ht => ((fair_argumentSeparator ho).fairAt t).bind
        fun _ u hu => (ih named ?_).bind fun r v _ => (Fair.pure _).fairAt v
      have hlt := hxs.rest_length ht
      have hle := (goes_argumentSeparator opener).rest_length hu
      omega
    refine .get_bind ?_
    dsimp only
    refine .ite (fun _ => (Fair.pure _).fairAt s) fun hc => .ite (fun hk => ?_) fun _ => ?_
    · refine ⟨fun he => .error fun _ => not_unwinds_of_other he ?_ (mt beq_iff_eq.mpr hc)⟩
      simp only [Bool.or_eq_true, beq_iff_eq] at hk
      rcases hk with (hk | hk) | hk
      · exact .inl hk
      · exact .inr (by rw [hk]; rfl)
      · exact .inr (by rw [hk]; rfl)
    · refine .ite (fun _ => ?_) fun _ => .ite (fun _ => (Fair.refuse rfl _).fairAt s) fun _ => ?_
      · exact hmore (fair_keywordArgument hv) (starts_keywordArgument hs.goes) true
          fun n r => (r.1, n :: r.2)
      · have hname : Starts .quiet (leafOf .identifier .identifier)
            (leafOf .identifier .identifier) := .leafOf _ (by decide)
        exact .ite (fun _ => hmore (.leafOf rfl _) hname false fun n r => (n :: r.1, r.2))
          fun _ => hmore (hv _) hs false fun n r => (n :: r.1, r.2)

lemma fair_skipLeadingComma : Fair o o skipLeadingComma := by
  refine .get_bind fun s => .ite (fun hc => ?_) fun _ => (Fair.pure _).fairAt s
  simp only [Bool.and_eq_true, beq_iff_eq] at hc
  exact .of_bind_pure (.discard_bind (.plain_bind (by rw [hc.1.1]; rfl) ((Fair.pure _).fairAt _)))

lemma fair_arguments (ho : opener.kind = .leftParen) (hv : ∀ o, Fair o o readValue)
    (hs : Starts .quiet readValue readValue) (definition : Bool) :
    Fair (.rightParen :: o) o (arguments readValue definition opener) := by
  have hlist : Fair (.rightParen :: o) o (tokensLeft >>= fun bound =>
      argumentList readValue definition opener bound false >>= fun r => advance >>= fun closer =>
        pure (Node.spanning .positionalArgs opener.place closer.stop r.1,
          Node.spanning .keywordArgs opener.place closer.stop r.2)) :=
    .tokensLeft_bind fun s => (fairAt_argumentList ho hv hs _ _ _ (Nat.le_refl _)).bind
      fun r t hr => .closer_bind (current_of_argumentList hr) rfl ((Fair.pure _).fairAt _)
  exact .ite (fun _ => fair_skipLeadingComma.bind fun _ => hlist) fun _ => hlist

end

lemma fair_call (hL : FairLevel L) (target : Node) : Fair o o (call L target) := by
  refine .expect_opener_bind rfl fun opener ho => (fair_nested hL opener fun read hr => ?_).bind
    fun _ => .node ..
  exact fair_arguments ho (fun o => hr.expression o ..) hr.starts false

/-! ### Matrices -/

lemma fair_rowElements (hr : FairReaders read) (bound : Nat) :
    Fair o o (rowElements read bound) := by
  induction bound with
  | zero => exact .pure _
  | succ bound ih =>
    refine .current_bind fun s => .ite (fun _ => (Fair.pure _).fairAt s) fun _ => Fair.fairAt ?_ s
    exact (hr.expression ..).bind fun _ => .discard_bind (.accept (by decide))
      (ih.bind fun _ => .pure _)

lemma fair_rows {opener : Token} (ho : opener.kind = .leftBracket) (hr : FairReaders read)
    (bound : Nat) : Fair (.rightBracket :: o) o (rows read opener bound) := by
  induction bound with
  | zero => exact .current_bind fun s => (Fair.refuse rfl _).fairAt s
  | succ bound ih =>
    refine .current_bind fun s => Fair.fairAt (.tokensLeft_bind fun s => Fair.fairAt ?_ s) s
    refine (fair_rowElements hr _).bind fun elements => ?_
    cases elements.getLast? with
    | none => exact .refuse rfl _
    | some last =>
      refine .current_bind fun s => .ite (fun hc => .discard_bind ?_) fun _ => Fair.fairAt ?_ s
      · refine .plain_bind (by rw [beq_iff_eq.mp hc]; rfl) (Fair.fairAt ?_ _)
        exact (Fair.node ..).bind fun _ => ih.bind fun _ => .pure _
      · exact .discard_bind (.close (by rw [ho]; rfl) rfl) (.pure _)

lemma fair_matrix (hL : FairLevel L) : Fair o o (matrix L) := by
  refine .expect_opener_bind rfl fun opener ho => (fair_nested hL opener fun read hr => ?_).bind
    fun _ => .node ..
  exact .tokensLeft_bind fun s => (fair_rows ho hr _).fairAt s

/-! ### Strings -/

/-- What the outcome of reading some pieces of a string that hold the snippets `lists`
tells of these. -/
inductive Examined (lists : List (List Token)) (ts : List Token) :
    EStateM.Result Error Parser α → Prop
  | ok {a : α} {t : Parser} (hrest : t.rest = ts) (h : ∀ us ∈ lists, Unwinds [] us) :
      Examined lists ts (.ok a t)
  | error {e : Error} {t : Parser}
      (h : e.category = .unbalanced → ¬∀ us ∈ lists, Unwinds [] us) : Examined lists ts (.error e t)

/-- What is made of the result tells nothing more. -/
lemma Examined.map {β : Type} {p : Parse α} {lists : List (List Token)} {ts : List Token}
    (h : Examined lists ts (p s)) (f : α → β) :
    Examined lists ts ((p >>= fun a => pure (f a)) s) := by
  cases hr : p s with
  | ok a t =>
    rw [hr] at h
    rw [bind_ok hr]
    cases h with
    | ok hrest h => exact .ok hrest h
  | error e t =>
    rw [hr] at h
    rw [bind_error hr]
    cases h with
    | error h => exact .error h

/-- A snippet is an expression on its own, read to its end mark. -/
lemma examined_snippetExpression (hL : FairLevel L) (seg : Segment Token) {tokens : List Token}
    (ht : Ended tokens) (s : Parser) :
    Examined [tokens] s.rest (snippetExpression L seg tokens s) := by
  have hlists : (∀ us ∈ [tokens], Unwinds [] us) ↔ Unwinds [] (Parser.settle 0 none tokens).1 := by
    rw [List.forall_mem_singleton, unwinds_settle ht]
  unfold snippetExpression
  simp only [run_note, run_modify]
  split
  · exact .error fun h => by cases h
  · unfold onTokens
    generalize hu : ({ Parser.ofTokens tokens with
      trace := .snippetParsed seg.line seg.col :: s.trace } : Parser) = u
    have hrest : u.rest = (Parser.settle 0 none tokens).1 := by rw [← hu]; rfl
    have hv := ((fair_anyExpression (o := []) hL).fairAt u).run
      (hrest ▸ ended_settle ht 0 none)
    rw [hrest] at hv
    cases hr : anyExpression L u with
    | error e t =>
      rw [hr] at hv
      simp only [bind_error hr]
      cases hv with
      | error h => exact .error fun hc hl => h hc (hlists.mp hl)
    | ok e t =>
      rw [hr] at hv
      simp only [bind_ok hr, run_current]
      cases hv with
      | ok hended h =>
        by_cases hk : t.current.kind = .eof
        · obtain ⟨ht, hsegs⟩ := hended.rest_eof hk
          rw [hk]
          exact .ok rfl (hlists.mpr (h.mpr (ht ▸ (unwinds_eof hk hsegs).mpr rfl)))
        · rw [if_pos (bne_iff_ne.mpr hk)]
          exact .error fun h => by cases h

lemma examined_segmentNode (hL : FairLevel L) (seg : Segment Token)
    (hseg : ∀ us ∈ seg.snippet?, Ended us) (s : Parser) :
    Examined seg.snippet?.toList s.rest (segmentNode L seg s) := by
  unfold Segment.snippet? at hseg ⊢
  unfold segmentNode
  cases hf : seg.form with
  | snippet tokens =>
    rw [hf] at hseg
    exact (examined_snippetExpression hL seg (hseg tokens rfl) s).map _
  | _ => exact .ok rfl fun us hus => absurd hus List.not_mem_nil

lemma examined_segments (hL : FairLevel L) (segs : List (Segment Token))
    (hsegs : ∀ us ∈ segs.filterMap Segment.snippet?, Ended us) (s : Parser) :
    Examined (segs.filterMap Segment.snippet?) s.rest (segs.mapM (segmentNode L) s) := by
  induction segs generalizing s with
  | nil => exact .ok rfl fun us hus => absurd hus List.not_mem_nil
  | cons seg segs ih =>
    have hlists : (seg :: segs).filterMap Segment.snippet?
        = seg.snippet?.toList ++ segs.filterMap Segment.snippet? := by
      rw [List.filterMap_cons]
      cases seg.snippet? <;> rfl
    rw [hlists, List.forall_mem_append] at hsegs
    rw [hlists, List.mapM_cons]
    have hfirst := examined_segmentNode hL seg
      (fun us hus => hsegs.1 us (Option.mem_toList.mpr hus)) s
    cases hr : segmentNode L seg s with
    | error e t =>
      rw [hr] at hfirst
      rw [bind_error hr]
      cases hfirst with
      | error h => exact .error fun hc hl => h hc (List.forall_mem_append.mp hl).1
    | ok n t =>
      rw [hr] at hfirst
      rw [bind_ok hr]
      cases hfirst with
      | ok hrest h =>
        have hmore := (ih hsegs.2 t).map (n :: ·)
        rw [hrest] at hmore
        generalize (segs.mapM (segmentNode L) >>= fun ns => pure (n :: ns)) t = r at hmore ⊢
        cases hmore with
        | ok hrest' h' => exact .ok hrest' (List.forall_mem_append.mpr ⟨h, h'⟩)
        | error h' => exact .error fun hc hl => h' hc (List.forall_mem_append.mp hl).2

/-- The snippets of a string are judged when its pieces are read. -/
lemma fair_string (hL : FairLevel L) : Fair o o (Grammar.string L) := by
  refine ⟨fun s => ⟨fun he => ?_⟩⟩
  unfold Grammar.string
  by_cases hc : [TokenKind.string].contains s.current.kind = true
  · have hk : s.current.kind = .string := by simpa using hc
    obtain ⟨hrest, hended, -, hsnippets⟩ := he.step (by rw [hk]; decide)
    have hunwinds : Unwinds o s.rest ↔ s.current.Sealed ∧ Unwinds o s.step.rest := by
      rw [hrest]
      exact unwinds_other (by rw [hk]; rfl) (by rw [hk]; rfl)
    have hx := (examined_segments hL s.current.segments hsnippets s.step).map
      fun ns => Node.spanning .string s.current.place s.current.stop ns
        [(.stringChars, List.range ns.length)]
    rw [bind_ok (run_expect hc)]
    generalize (s.current.segments.mapM (segmentNode L) >>= _) s.step = r at hx ⊢
    cases hx with
    | ok hrest' h =>
      rw [← hrest'] at hended hunwinds
      exact .ok hended (by rw [hunwinds, and_iff_right (Token.sealed_iff.mpr h)])
    | error h => exact .error fun hc hcl => h hc (Token.sealed_iff.mp (hunwinds.mp hcl).1)
  · rw [bind_error (run_expect_other hc)]
    exact .error fun h => by cases h

/-! ### Operands -/

lemma fair_primary (hL : FairLevel L) (inMatrix : Bool) : Fair o o (primary L inMatrix) := by
  refine .get_bind fun s => ?_
  cases hk : s.current.kind with
  | leftBracket => exact (fair_matrix hL).fairAt s
  | leftParen => exact (fair_bracketed hL).fairAt s
  | identifier =>
    refine Fair.fairAt ((fair_memberAccess inMatrix).bind fun target => ?_) s
    exact .current_bind fun s => .ite (fun _ => (fair_call hL target).fairAt s) fun _ =>
      (Fair.pure _).fairAt s
  | number => exact .ite (fun _ => fair_range.fairAt s) fun _ => fairAt_number hk
  | string => exact (fair_string hL).fairAt s
  | _ => exact (Fair.refuse rfl _).fairAt s

lemma fair_suffixes (L : Level) (bound : Nat) (operand : Node) :
    Fair o o (suffixes L bound operand) := by
  induction bound generalizing operand with
  | zero => exact .pure _
  | succ bound ih =>
    refine .current_bind fun s => .ite (fun hc => .discard_bind ?_) fun _ => (Fair.pure _).fairAt s
    rw [Bool.and_eq_true] at hc
    refine .plain_bind (TokenKind.isPlain_of_isSuffix hc.1) (Fair.fairAt ?_ _)
    exact (Fair.node ..).bind fun _ => (fair_bounded ..).bind fun _ => ih _

lemma fair_unary (hL : FairLevel L) (inMatrix : Bool) : Fair o o (unary L inMatrix) := by
  refine .current_bind fun s => .ite (fun hc => .discard_bind ?_) fun _ => Fair.fairAt ?_ s
  · refine .plain_bind (TokenKind.isPlain_of_isUnary hc) (Fair.fairAt ?_ _)
    exact (fair_nested hL _ fun read hr => hr.unary ..).bind fun _ => .pure _
  · exact (fair_primary hL inMatrix).bind fun _ => .tokensLeft_bind fun s =>
      (fair_suffixes L ..).fairAt s

/-! ### Statements -/

/-- A closing delimiter that is not the next one expected closes nothing. -/
lemma unclosing_of_head (h : o.head? ≠ some s.current.kind) : Unclosing o s := by
  intro hk hcl
  cases hs : s.rest with
  | nil =>
    rw [Parser.current_kind, hs] at hk
    cases hk
  | cons t ts =>
    rw [hs, ← Parser.current_of_rest hs, unwinds_closer hk] at hcl
    exact h hcl.2.1

/-- Where statements do not end, no expected closing delimiter is ahead. -/
lemma fair_statements {readOne : Parse Node} {closer : Option TokenKind} (ho : o.head? = closer)
    (h : ∀ s, Unclosing o s → FairAt o o readOne s) (bound : Nat) :
    Fair o o (statements true readOne closer bound) := by
  induction bound with
  | zero => exact .pure _
  | succ bound ih =>
    refine .current_bind fun s => .ite (fun hc => .discard_bind ?_) fun _ =>
      .ite (fun _ => (Fair.pure _).fairAt s) fun hc => ?_
    · exact .plain_bind (TokenKind.isPlain_of_isSeparator hc) (ih.fairAt _)
    · rw [attempt_strict]
      simp only [Bool.or_eq_true, beq_iff_eq, not_or] at hc
      exact (h s (unclosing_of_head (ho ▸ hc.2))).bind fun _ t _ =>
        (ih.bind fun _ => .pure _).fairAt t

lemma fair_block (hL : FairLevel L) (loops : Nat) : Fair o o (block L loops) := by
  refine .current_bind fun s => .ite (fun _ => (Fair.refuse_bind rfl _).fairAt s) fun hk =>
    .discard_bind ?_
  have hk : s.current.kind = .leftBrace := by simpa using hk
  refine .opener_bind (c := .rightBrace) (by rw [hk]; rfl) (Fair.fairAt ?_ _)
  refine (fair_nested hL _ fun read hr => ?_).bind fun _ => .node ..
  have hstatements (bound : Nat) : Fair (.rightBrace :: o) (.rightBrace :: o)
      (statements true (read (.statement loops)) (some .rightBrace) bound) :=
    fair_statements rfl (hr.statement _ loops) bound
  rw [hL.strict]
  refine .tokensLeft_bind fun s => Fair.fairAt ((hstatements _).bind fun _ => ?_) s
  exact .discard_bind (.close (by rw [hk]; rfl) rfl) (.pure _)

lemma fair_semicolon : Fair o o semicolon := (Fair.accept (by decide)).bind fun _ => .pure _

lemma fair_assignment (hL : FairLevel L) : Fair o o (assignment L) :=
  (Fair.leafOf rfl _).bind fun _ => .discard_bind (.expect (by decide))
    ((fair_anyExpression hL).bind fun _ => fair_semicolon.bind fun _ => .node ..)

lemma fair_expressionStatement (hL : FairLevel L) : Fair o o (expressionStatement L) :=
  (fair_anyExpression hL).bind fun _ => fair_semicolon.bind fun _ => .node ..

lemma fair_symbolDeclaration : Fair o o symbolDeclaration :=
  (Fair.expect (by decide)).bind fun _ => (Fair.leafOf rfl _).bind fun _ => .node ..

lemma fair_importStatement : Fair o o importStatement :=
  (Fair.expect (by decide)).bind fun _ => .current_bind fun s =>
    .ite (fun _ => (Fair.refuse_bind rfl _).fairAt s) fun _ =>
      ((fair_memberAccess false).bind fun _ => .node ..).fairAt s

lemma fair_returnStatement (hL : FairLevel L) : Fair o o (returnStatement L) :=
  (Fair.expect (by decide)).bind fun _ => (fair_anyExpression hL).bind fun _ => .node ..

/-- Line ends are passed without a change of the stack. -/
lemma Ended.behind_lines {ls ts : List Token} (h : Ended (ls ++ ts))
    (hl : ∀ l ∈ ls, l.kind = .newline) : Ended ts ∧ (Unwinds o (ls ++ ts) ↔ Unwinds o ts) := by
  induction ls with
  | nil => exact ⟨h, .rfl⟩
  | cons l ls ih =>
    rw [List.forall_mem_cons] at hl
    rw [List.cons_append] at h ⊢
    generalize ls ++ ts = us at h ih ⊢
    cases h with
    | eof he => exact absurd (hl.1.symm.trans he) (by decide)
    | cons _ hsegs _ h =>
      obtain ⟨hts, hcl⟩ := ih h hl.2
      have hsealed := Token.sealed_of_segments (hsegs (by rw [hl.1]; decide))
      rw [unwinds_other (by rw [hl.1]; rfl) (by rw [hl.1]; rfl), and_iff_right hsealed]
      exact ⟨hts, hcl⟩

/-- The clauses are read from the word that opens them, behind line ends. -/
lemma fair_clauses (hL : FairLevel L) (loops bound : Nat) (seenElse : Bool) :
    Fair o o (clauses L loops bound seenElse) := by
  induction bound generalizing seenElse with
  | zero => exact .pure _
  | succ bound ih =>
    refine ⟨fun s => ⟨fun he => ?_⟩⟩
    obtain ⟨ls, hls, hl, hkind⟩ := passes_atClause s
    rw [← Parser.current_kind, ← Parser.significant_kind] at hkind
    have hrest : s.rest = ls ++ (atClause s).rest := hls.rest
    rw [hrest] at he ⊢
    obtain ⟨hended, hcl⟩ := he.behind_lines (o := o) hl
    have hword {p : Parse (List Node)} (h : FairAt o o p (atClause s)) :
        Verdict o o (ls ++ (atClause s).rest) (p (atClause s)) :=
      .of_iff hcl (h.run hended)
    by_cases hi : s.significant.kind = .kwElseif
    · rw [clauses_elseif hi]
      refine hword (.plain_bind (by rw [hkind, hi]; rfl) (Fair.fairAt ?_ _))
      exact .ite (fun _ => .refuse_bind rfl _) fun _ => (fair_anyExpression hL).bind fun _ =>
        (fair_block hL loops).bind fun _ => (Fair.node ..).bind fun _ =>
          (ih seenElse).bind fun _ => .pure _
    · by_cases hs : s.significant.kind = .kwElse
      · rw [clauses_else hs]
        refine hword (.plain_bind (by rw [hkind, hs]; rfl) (Fair.fairAt ?_ _))
        exact .ite (fun _ => .refuse_bind rfl _) fun _ => (fair_block hL loops).bind fun _ =>
          (Fair.node ..).bind fun _ => (ih true).bind fun _ => .pure _
      · rw [clauses_end hi hs, ← hrest]
        exact .ok (hrest ▸ he) .rfl

lemma fair_ifStatement (hL : FairLevel L) (loops : Nat) : Fair o o (ifStatement L loops) :=
  (Fair.expect (by decide)).bind fun _ => (fair_anyExpression hL).bind fun _ =>
    (fair_block hL loops).bind fun _ => .tokensLeft_bind fun s =>
      ((fair_clauses hL loops _ false).bind fun _ => .node ..).fairAt s

lemma fair_whileLoop (hL : FairLevel L) (loops : Nat) : Fair o o (whileLoop L loops) :=
  (Fair.expect (by decide)).bind fun _ => (fair_anyExpression hL).bind fun _ =>
    (fair_block hL _).bind fun _ => .node ..

lemma fair_forLoop (hL : FairLevel L) (loops : Nat) : Fair o o (forLoop L loops) :=
  (Fair.expect (by decide)).bind fun _ => (Fair.leafOf rfl _).bind fun _ =>
    .discard_bind (.expect (by decide)) ((fair_anyExpression hL).bind fun _ =>
      (fair_block hL _).bind fun _ => .node ..)

lemma fair_functionDefinition (hL : FairLevel L) : Fair o o (functionDefinition L) :=
  (Fair.expect (by decide)).bind fun _ => (Fair.leafOf rfl _).bind fun _ =>
    .expect_opener_bind rfl fun _ ho =>
      (fair_arguments ho (fun _ => fair_anyExpression hL) hL.starts true).bind fun _ =>
        (fair_block hL 0).bind fun _ => .node ..

/-- A statement may begin anywhere but at a closing delimiter that closes something. -/
lemma fairAt_statement (hL : FairLevel L) (loops : Nat) (hs : Unclosing o s) :
    FairAt o o (statement L loops) s := by
  have htoken (kind : Kind) (hk : s.current.kind.isPlain = true) :
      FairAt o o (tokenStatement kind) s := .plain_bind hk ((Fair.pure _).fairAt _)
  have hstray (hk : s.current.kind.isCloser = true) (cause : Cause) (r : Span) :
      FairAt o o (fail cause r : Parse Node) s := ⟨fun _ => .error fun _ => hs hk⟩
  refine .get_bind ?_
  dsimp only
  cases hk : s.current.kind with
  | comment | kwExit => exact htoken _ (by rw [hk]; rfl)
  | kwBreak | kwCont =>
    exact .plain_bind (by rw [hk]; rfl) ((Fair.ite (fun _ => .refuse_bind rfl _)
      fun _ => .pure _).fairAt _)
  | kwSym => exact fair_symbolDeclaration.fairAt s
  | kwIf => exact (fair_ifStatement hL loops).fairAt s
  | kwWhile => exact (fair_whileLoop hL loops).fairAt s
  | kwFor => exact (fair_forLoop hL loops).fairAt s
  | kwFn => exact (fair_functionDefinition hL).fairAt s
  | kwImport => exact fair_importStatement.fairAt s
  | kwRet => exact (fair_returnStatement hL).fairAt s
  | rightParen | rightBracket | rightBrace => exact hstray (by rw [hk]; rfl) _ _
  | kwElse | kwElseif => exact (Fair.refuse rfl _).fairAt s
  | identifier =>
    exact .ite (fun _ => (fair_assignment hL).fairAt s)
      fun _ => (fair_expressionStatement hL).fairAt s
  | _ => exact (fair_expressionStatement hL).fairAt s

end

/-! ### The whole grammar -/

lemma fairLevel (limit : Int) (n : Nat) : FairLevel (level limit true n) := by
  have hstarts (n : Nat) := starts_anyExpression (levelPair .quiet limit n)
  induction n with
  | zero => exact ⟨rfl, hstarts 0, .inl rfl⟩
  | succ n ih =>
    refine ⟨rfl, hstarts _, .inr ⟨_, rfl, ?_⟩⟩
    refine ⟨fun o least inMatrix => ?_, fun o inMatrix => ?_, fun o loops s hs => ?_, ?_⟩
    · rw [derive_eq]
      exact fair_expression ih least inMatrix
    · rw [derive_eq]
      exact fair_unary ih inMatrix
    · rw [derive_eq]
      exact fairAt_statement ih loops hs
    · rw [derive_eq]
      exact hstarts n

/-- A strict reader of a whole program expects no closing delimiter. -/
lemma fair_program (limit : Int) (n loops : Nat) :
    Fair [] [] (program (level limit true n) loops) := by
  have hL := fairLevel limit n
  refine .get_bind fun s => Fair.fairAt (.note_bind _ ?_) s
  rw [hL.strict]
  refine .tokensLeft_bind fun s => Fair.fairAt ?_ s
  exact (fair_statements rfl (fun s hs => fairAt_statement hL loops hs) _).bind fun _ =>
    .current_bind fun s => (Fair.pure _).fairAt s

end StpLang
