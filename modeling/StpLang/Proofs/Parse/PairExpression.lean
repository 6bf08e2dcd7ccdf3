import StpLang.Proofs.Parse.Pair

/-!
Expressions read side by side.

Nothing that reads an expression asks whether the reader is strict, and none
of it records an error, so that two readers at the same level with the same
tokens ahead read the same expression, whatever they do about statements.

* `LevelPair` relates two levels of the grammar.
* `starts_expression` and `starts_unary` pair what is read one level in.
-/

namespace StpLang

open Parse Grammar

/-- What two readers read one level further in is paired. -/
structure Readers (m : Mode) (read read' : Nonterminal → Parse Node) : Prop where
  expression : ∀ least inMatrix,
    Starts .quiet (read (.expression least inMatrix)) (read' (.expression least inMatrix))
  unary : ∀ inMatrix, Starts .quiet (read (.unary inMatrix)) (read' (.unary inMatrix))
  statement : ∀ loops, Starts m (read (.statement loops)) (read' (.statement loops))
  grows : ∀ loops, Grows (read' (.statement loops))

/-- The first reader of a mode is strict. -/
def Mode.first : Mode → Bool
  | .recovering => false
  | _ => true

/-- The second reader of a mode is strict. -/
def Mode.second : Mode → Bool
  | .quiet => true
  | _ => false

/-- Two levels of the grammar that differ at most in strictness. -/
structure LevelPair (m : Mode) (L L' : Level) : Prop where
  limit : L'.limit = L.limit
  allowance : L'.allowance = L.allowance
  first : L.strict = m.first
  second : L'.strict = m.second
  inner : (L.inner = none ∧ L'.inner = none)
    ∨ ∃ read read', L.inner = some read ∧ L'.inner = some read' ∧ Readers m read read'

section

variable {α β : Type} {m n : Mode} {s s' : Parser} {L L' : Level}
  {read read' : Nonterminal → Parse Node}

/-! ### Descending and bounding -/

lemma Goes.nested {t : Token} {body body' : (Nonterminal → Parse Node) → Parse α}
    (hL : LevelPair n L L')
    (h : ∀ read read', Readers n read read' → Goes m (body read) (body' read')) :
    Goes m (nested L t body) (nested L' t body') := by
  unfold Grammar.nested
  rcases hL.inner with ⟨h1, h2⟩ | ⟨read, read', h1, h2, hr⟩
  · simp only [h1, h2, hL.limit]
    exact .fail ..
  · simp only [h1, h2]
    exact h read read' hr

lemma Goes.bounded (limit : Int) (allowance : Nat) (x : Node) (t : Token) :
    Goes m (bounded limit allowance x t) (bounded limit allowance x t) := by
  unfold Grammar.bounded
  exact .ite (fun _ => .fail ..) fun _ => .pure _

/-! ### Binary operators -/

lemma goes_climb (hL : LevelPair n L L') (hr : Readers n read read') (least : Nat)
    (inMatrix : Bool) (bound : Nat) (lhs : Node) :
    Goes .quiet (climb L read least inMatrix bound lhs)
      (climb L' read' least inMatrix bound lhs) := by
  induction bound generalizing lhs with
  | zero => exact .pure _
  | succ bound ih =>
    refine Goes.get_bind fun s s' h => ?_
    have hstart : startsElement s.current s' = startsElement s.current s := by
      simp only [startsElement, h.peek]
    simp only [h.current, hstart, hL.limit, hL.allowance]
    cases s.current.kind.binary? with
    | none => exact (Goes.pure _).run s s' h
    | some op =>
      refine (Goes.ite (fun _ => .pure _) fun _ => ?_).run s s' h
      refine .discard_bind .advance ((hr.expression ..).goes.bind fun rhs => ?_)
      exact (Goes.bounded ..).bind fun _ => ih _

lemma starts_expression (hL : LevelPair n L L') (least : Nat) (inMatrix : Bool) :
    Starts .quiet (expression L least inMatrix) (expression L' least inMatrix) := by
  refine .current_bind fun t b s s' h _ => ?_
  unfold Grammar.nested
  rcases hL.inner with ⟨h1, h2⟩ | ⟨read, read', h1, h2, hr⟩
  · simp only [h1, h2, hL.limit]
    exact .error (.refl ..)
  · simp only [h1, h2]
    exact ((hr.unary _).bind fun lhs => Goes.tokensLeft.bind fun _ => goes_climb hL hr ..).run s s' h

lemma starts_anyExpression (hL : LevelPair n L L') :
    Starts .quiet (anyExpression L) (anyExpression L') := starts_expression hL 1 false

/-! ### Names and numbers -/

lemma goes_memberParts (inMatrix : Bool) (bound : Nat) :
    Goes .quiet (memberParts inMatrix bound) (memberParts inMatrix bound) := by
  induction bound with
  | zero => exact .pure _
  | succ bound ih =>
    refine Goes.current.bind fun t => .ite (fun _ => ?_) fun _ => .pure _
    exact .discard_bind .advance ((Goes.leafOf ..).bind fun _ => ih.bind fun _ => .pure _)

lemma starts_memberAccess (inMatrix : Bool) :
    Starts .quiet (memberAccess inMatrix) (memberAccess inMatrix) :=
  (Starts.leafOf _ (by decide)).bind fun _ => Goes.tokensLeft.bind fun _ =>
    (goes_memberParts ..).bind fun _ => .node ..

lemma goes_rangeBound : Goes .quiet rangeBound rangeBound :=
  .discard_bind (.expect _) (Goes.current.bind fun _ =>
    .ite (fun _ => Goes.advance.bind fun _ => .pure _) fun _ => .fail ..)

lemma starts_range : Starts .quiet range range := by
  refine (Starts.leafOf _ (by decide)).bind fun first => goes_rangeBound.bind fun second => ?_
  refine Goes.current.bind fun t => .ite (fun _ => .node ..) fun _ => ?_
  refine goes_rangeBound.bind fun third => Goes.current.bind fun t => ?_
  exact .ite (fun _ => .discard_bind .advance (.fail_bind ..)) fun _ => .node ..

lemma Near.number (h : Near s s') (hne : s.rest ≠ []) :
    Paired .quiet 1 s s' (number s) (number s') := by
  obtain ⟨b, hb⟩ := h.current
  unfold Grammar.number
  rw [run_advance, run_advance, hb]
  refine h.pass hne (Goes.current.bind fun sign => ?_)
  exact .ite (fun _ => .discard_bind .advance (.node ..)) fun _ => .pure _

/-! ### Parentheses and calls -/

lemma starts_bracketed (hL : LevelPair n L L') :
    Starts .quiet (bracketed L) (bracketed L') := by
  refine Starts.expect_bind (by decide) fun opener b => Goes.current.bind fun t => ?_
  refine .ite (fun _ => .fail_bind ..) fun _ => ?_
  exact (starts_anyExpression hL).goes.bind fun e => .discard_bind (.close opener) (.node ..)

section

variable {readValue readValue' : Parse Node}

lemma starts_keywordArgument (h : Goes .quiet readValue readValue') :
    Starts .quiet (keywordArgument readValue) (keywordArgument readValue') :=
  (Starts.leafOf _ (by decide)).bind fun _ => .discard_bind (.expect _) (h.bind fun _ => .node ..)

lemma goes_argumentSeparator (opener : Token) :
    Goes .quiet (argumentSeparator opener) (argumentSeparator opener) := by
  refine Goes.current.bind fun t => .ite (fun _ => ?_) fun _ => ?_
  · exact .discard_bind .advance (Goes.current.bind fun _ =>
      .ite (fun _ => .fail ..) fun _ => .pure _)
  · exact .ite (fun _ => .discard (.close _)) fun _ => .pure _

lemma goes_argumentList (h : Goes .quiet readValue readValue') (definition : Bool)
    (opener : Token) (bound : Nat) (named : Bool) :
    Goes .quiet (argumentList readValue definition opener bound named)
      (argumentList readValue' definition opener bound named) := by
  induction bound generalizing named with
  | zero => exact .fail ..
  | succ bound ih =>
    refine Goes.get_bind fun s s' hs => ?_
    simp only [hs.current, hs.peek]
    refine (Goes.ite (fun _ => .pure _) fun _ => ?_).run s s' hs
    refine .ite (fun _ => .fail ..) fun _ => .ite (fun _ => ?_) fun _ => ?_
    · exact (starts_keywordArgument h).goes.bind fun _ => (goes_argumentSeparator _).bind fun _ =>
        (ih _).bind fun _ => .pure _
    · refine .ite (fun _ => .fail ..) fun _ => ?_
      refine .ite (fun _ => (Goes.leafOf ..).bind fun _ => ?_) fun _ => h.bind fun _ => ?_
      all_goals
        exact (goes_argumentSeparator _).bind fun _ => (ih _).bind fun _ => .pure _

lemma goes_skipLeadingComma : Goes .quiet skipLeadingComma skipLeadingComma := by
  refine Goes.get_bind fun s s' hs => ?_
  simp only [hs.current, hs.peek]
  exact (Goes.ite (fun _ => .discard .advance) fun _ => .pure _).run s s' hs

lemma goes_arguments (h : Goes .quiet readValue readValue') (definition : Bool)
    (opener : Token) :
    Goes .quiet (arguments readValue definition opener)
      (arguments readValue' definition opener) := by
  refine .ite (fun _ => goes_skipLeadingComma.bind fun _ => ?_) fun _ => ?_
  all_goals
    exact Goes.tokensLeft.bind fun _ => (goes_argumentList h ..).bind fun _ =>
      Goes.advance.bind fun _ => .pure _

end

lemma goes_call (hL : LevelPair n L L') (target : Node) :
    Goes .quiet (call L target) (call L' target) := by
  refine (Goes.expect _).bind fun opener => ?_
  refine Goes.bind (Goes.nested hL fun read read' hr => ?_) fun _ => .node ..
  exact goes_arguments (hr.expression ..).goes ..

/-! ### Matrices -/

lemma goes_rowElements (hr : Readers n read read') (bound : Nat) :
    Goes .quiet (rowElements read bound) (rowElements read' bound) := by
  induction bound with
  | zero => exact .pure _
  | succ bound ih =>
    refine Goes.current.bind fun t => .ite (fun _ => .pure _) fun _ => ?_
    exact (hr.expression ..).goes.bind fun _ => .discard_bind (.accept _)
      (ih.bind fun _ => .pure _)

lemma goes_rows (hr : Readers n read read') (opener : Token) (bound : Nat) :
    Goes .quiet (rows read opener bound) (rows read' opener bound) := by
  induction bound with
  | zero => exact Goes.current.bind fun _ => .fail ..
  | succ bound ih =>
    refine Goes.current.bind fun first => Goes.tokensLeft.bind fun _ =>
      (goes_rowElements hr _).bind fun elements => ?_
    cases elements.getLast? with
    | none => exact .fail ..
    | some last =>
      refine Goes.current.bind fun t => .ite (fun _ => ?_) fun _ => ?_
      · exact .discard_bind .advance ((Goes.node ..).bind fun _ => ih.bind fun _ => .pure _)
      · exact .discard_bind (.close _) (.pure _)

/-- The rows do not show the white space before the opening bracket. -/
lemma rows_with_spaced (read : Nonterminal → Parse Node) (opener : Token) (b : Bool)
    (bound : Nat) : rows read { opener with spaced := b } bound = rows read opener bound := by
  induction bound with
  | zero => rfl
  | succ bound ih =>
    unfold rows
    rw [ih]
    rfl

lemma starts_matrix (hL : LevelPair n L L') : Starts .quiet (matrix L) (matrix L') := by
  refine Starts.expect_bind (by decide) fun opener b => ?_
  refine Goes.bind (Goes.nested hL fun read read' hr => ?_) fun _ => .node ..
  refine Goes.tokensLeft.bind fun _ => ?_
  rw [rows_with_spaced]
  exact goes_rows hr ..

/-! ### Strings -/

/-- Other tokens are read alike, and of that reading nothing is kept but the
outcome. -/
lemma Goes.onTokens {tokens : Parser} {p p' : Parse α} (h : Starts .quiet p p') :
    Goes .quiet (onTokens tokens p) (onTokens tokens p') := by
  refine ⟨fun s s' _ => ?_⟩
  have hnear : Near { tokens with trace := s.trace } { tokens with trace := s'.trace } :=
    ⟨.refl _, rfl⟩
  have hp := h.run _ _ hnear
  unfold Grammar.onTokens
  generalize p { tokens with trace := s.trace } = r at hp
  generalize p' { tokens with trace := s'.trace } = r' at hp
  cases hp with
  | ok _ => exact .ok (.of_trace ..)
  | error _ => exact .error (.of_trace ..)
  | parted hm => cases hm

lemma goes_snippetExpression (hL : LevelPair n L L') (seg : Segment Token)
    (tokens : List Token) :
    Goes .quiet (snippetExpression L seg tokens) (snippetExpression L' seg tokens) := by
  refine ⟨fun s s' h => ?_⟩
  obtain ⟨inner, hinner⟩ : ∃ x, x = Parser.ofTokens tokens := ⟨_, rfl⟩
  -- the comments of the snippet are set aside on both sides
  let t : Parser := { s with
    trace := .snippetParsed seg.line seg.col :: s.trace, trivia := s.trivia ++ inner.trivia }
  let t' : Parser := { s' with
    trace := .snippetParsed seg.line seg.col :: s'.trace, trivia := s'.trivia ++ inner.trivia }
  have ht : Tracks .quiet 0 s s' t t' :=
    ⟨[], [], [], inner.trivia, ⟨rfl, rfl, by simp [t], rfl⟩, ⟨rfl, rfl, by simp [t'], rfl⟩, rfl,
      Nat.le_refl _, .inr rfl⟩
  unfold snippetExpression
  simp only [run_note, run_modify, ← hinner]
  refine .after_tracks ht ((Goes.ite (fun _ => .fail_bind ..) fun _ => .onTokens ?_).run t t'
    (ht.abreast h))
  refine (starts_anyExpression hL).bind fun e => Goes.current.bind fun t => ?_
  exact .ite (fun _ => .fail_bind ..) fun _ => .pure _

lemma goes_segmentNode (hL : LevelPair n L L') (seg : Segment Token) :
    Goes .quiet (segmentNode L seg) (segmentNode L' seg) := by
  unfold segmentNode
  cases seg.form with
  | snippet tokens => exact (goes_snippetExpression hL seg tokens).bind fun _ => .pure _
  | _ => exact .pure _

lemma Goes.mapM {f f' : α → Parse β} (h : ∀ a, Goes .quiet (f a) (f' a)) (as : List α) :
    Goes .quiet (as.mapM f) (as.mapM f') := by
  induction as with
  | nil => exact .pure _
  | cons a as ih =>
    rw [List.mapM_cons, List.mapM_cons]
    exact (h a).bind fun _ => ih.bind fun _ => .pure _

lemma starts_string (hL : LevelPair n L L') :
    Starts .quiet (Grammar.string L) (Grammar.string L') :=
  .expect_bind (by decide) fun t _ =>
    (Goes.mapM (goes_segmentNode hL) t.segments).bind fun _ => .pure _

/-! ### Operands -/

lemma starts_nameOrCall (hL : LevelPair n L L') (inMatrix : Bool) :
    Starts .quiet (nameOrCall L inMatrix) (nameOrCall L' inMatrix) :=
  (starts_memberAccess inMatrix).bind fun target => Goes.current.bind fun _ =>
    .ite (fun _ => goes_call hL target) fun _ => .pure _

lemma starts_primary (hL : LevelPair n L L') (inMatrix : Bool) :
    Starts .quiet (primary L inMatrix) (primary L' inMatrix) := by
  refine ⟨fun s s' h => ?_⟩
  obtain ⟨hfound, hspan, -⟩ := h.found
  unfold primary
  rw [run_get, run_get]
  simp only [h.kind, h.peek 0, hfound, hspan]
  cases hk : s.current.kind with
  | leftBracket => exact (starts_matrix hL).run s s' h
  | leftParen => exact (starts_bracketed hL).run s s' h
  | identifier => exact (starts_nameOrCall hL inMatrix).run s s' h
  | number =>
    by_cases hc : ((s.peek 1).kind == .ellipsis) = true
    · simpa only [hc, if_true] using starts_range.run s s' h
    · have hne : s.rest ≠ [] := Parser.rest_ne_nil (by simp [hk])
      simpa only [hc, Bool.false_eq_true, if_false] using h.number hne
  | string => exact (starts_string hL).run s s' h
  | _ => exact .error (.refl ..)

lemma goes_suffixes (hL : LevelPair n L L') (bound : Nat) (operand : Node) :
    Goes .quiet (suffixes L bound operand) (suffixes L' bound operand) := by
  induction bound generalizing operand with
  | zero => exact .pure _
  | succ bound ih =>
    refine Goes.current.bind fun t => .ite (fun _ => ?_) fun _ => .pure _
    refine .discard_bind .advance ((Goes.node ..).bind fun x => ?_)
    rw [hL.limit, hL.allowance]
    exact (Goes.bounded ..).bind fun _ => ih _

lemma starts_suffix (hL : LevelPair n L L') (inMatrix : Bool) :
    Starts .quiet (suffix L inMatrix) (suffix L' inMatrix) :=
  (starts_primary hL inMatrix).bind fun _ => Goes.tokensLeft.bind fun _ => goes_suffixes hL ..

lemma starts_unary (hL : LevelPair n L L') (inMatrix : Bool) :
    Starts .quiet (unary L inMatrix) (unary L' inMatrix) := by
  refine .current_bind fun t b s s' h ht => ?_
  by_cases hc : t.kind.isUnary = true
  · have hne : s.rest ≠ [] := by
      apply Parser.rest_ne_nil
      intro he
      rw [← ht, he] at hc
      cases hc
    simp only [hc, if_true, discard_bind]
    rw [run_advance, run_advance]
    refine h.pass hne (.bind (.nested (t := t) hL fun read read' hr => ?_) fun _ => .pure _)
    exact (hr.unary inMatrix).goes
  · simp only [hc]
    exact (starts_suffix hL inMatrix).run s s' h

end

end StpLang
