import StpLang.Proofs.Parse.Pair
import StpLang.Proofs.Shift.Lex
import StpLang.Proofs.Span.Laid

/-!
Reading the expressions of a moved text.

The grammar copies places from its tokens to its nodes and errors and decides by the
kinds, the texts and the white space of the tokens alone. So moved tokens are read as
the moved nodes.

* `Parser.Shifted` relates the readers of a text and of the moved text.
* `Shifts.expect`, `Shifts.node` and their kin move single actions.
* `Level.Moves` says that what is read one level further in moves;
  `shifts_expression` and `shifts_unary` follow.
-/

namespace StpLang

open Parse Grammar

variable {d : Shift}

/-! ### The prepared tokens -/

/-- What a token becomes moves with it. -/
lemma keptToken?_shift (d : Shift) (depth : Nat) (last : Option TokenKind) (t : Token) :
    keptToken? depth last (t.shift d) = (keptToken? depth last t).map (Token.shift d) := by
  unfold keptToken?
  simp only [Token.shift_kind]
  split
  · rfl
  split
  · simp only [Token.shift_eq, Option.map_some]
  · rfl

lemma settle_shift (d : Shift) (depth : Nat) (last : Option TokenKind) (ts : List Token) :
    Parser.settle depth last (ts.map (Token.shift d))
      = ((Parser.settle depth last ts).1.map (Token.shift d),
          (Parser.settle depth last ts).2.map (Node.shift d)) := by
  induction ts generalizing depth last with
  | nil => rfl
  | cons t ts ih =>
    have hdepth : depthAfter depth (t.shift d) = depthAfter depth t := by
      simp only [depthAfter, Token.shift_kind]
    rw [List.map_cons, settle_cons, settle_cons, keptToken?_shift, hdepth]
    cases keptToken? depth last t with
    | none => simp only [Option.map_none, ih, List.map_cons, Node.shift_leaf]
    | some u => simp only [Option.map_some, ih, List.map_cons, Token.shift_kind]

lemma movable_settle {ts : List Token} (h : ∀ t ∈ ts, t.Movable) (depth : Nat)
    (last : Option TokenKind) : ∀ t ∈ (Parser.settle depth last ts).1, t.Movable := by
  induction ts generalizing depth last with
  | nil => simp [Parser.settle]
  | cons t ts ih =>
    rw [List.forall_mem_cons] at h
    rw [settle_cons]
    cases hk : keptToken? depth last t with
    | none => exact ih h.2 _ _
    | some u =>
      refine List.forall_mem_cons.mpr ⟨?_, ih h.2 _ _⟩
      rcases keptToken?_some hk with rfl | ⟨-, rfl⟩
      · exact h.1
      · exact h.1.of_segments rfl

/-! ### Readers -/

/-- The readers stand at the same place of a text and of the moved text. The log is
left aside. -/
structure Parser.Shifted (d : Shift) (s s' : Parser) : Prop where
  before : s'.before = s.before.map (Token.shift d)
  rest : s'.rest = s.rest.map (Token.shift d)
  errors : s'.errors = s.errors.map (Error.shift d)
  trivia : s'.trivia = s.trivia.map (Node.shift d)
  movable : ∀ t ∈ s.rest, t.Movable
  /-- The end mark behind the last token needs one. -/
  someToken : s.rest ≠ [] ∨ s.before ≠ []

namespace Parser.Shifted

variable {s s' : Parser}

lemma eof (h : Shifted d s s') : s'.eof = s.eof.shift d := by
  have hlast : (s'.rest.getLast? <|> s'.before.head?)
      = (s.rest.getLast? <|> s.before.head?).map (Token.shift d) := by
    rw [h.rest, h.before, List.getLast?_map, List.head?_map]
    cases s.rest.getLast? <;> rfl
  unfold Parser.eof
  rw [hlast]
  cases hl : (s.rest.getLast? <|> s.before.head?) with
  | some t =>
    simp only [Option.map_some, Token.shift_eofAt]
    simp only [Token.shift_eq]
  | none =>
    simp only [Option.orElse_eq_orElse, Option.orElse_eq_or, Option.or_eq_none_iff,
      List.getLast?_eq_none_iff, List.head?_eq_none_iff] at hl
    exact absurd h.someToken (by simp [hl])

lemma current (h : Shifted d s s') : s'.current = s.current.shift d := by
  unfold Parser.current
  rw [h.rest, h.eof]
  cases s.rest <;> rfl

lemma peek (h : Shifted d s s') (k : Nat) : s'.peek k = (s.peek k).shift d := by
  unfold Parser.peek
  rw [h.rest, h.eof, List.getElem?_map]
  cases s.rest[k]? <;> rfl

lemma previous (h : Shifted d s s') : s'.previous = s.previous.shift d := by
  unfold Parser.previous
  rw [h.before, h.current, List.head?_map]
  cases s.before.head? <;> rfl

lemma significant (h : Shifted d s s') : s'.significant.kind = s.significant.kind := by
  have hfind : s'.rest.find? (·.kind != .newline)
      = (s.rest.find? (·.kind != .newline)).map (Token.shift d) := by
    rw [h.rest, List.find?_map]
    simp only [Function.comp_def, Token.shift_kind]
  unfold Parser.significant
  rw [hfind, h.eof]
  cases s.rest.find? (·.kind != .newline) <;> exact Token.shift_kind ..

lemma position (h : Shifted d s s') : s'.position = s.position := by
  rw [Parser.position, h.before, List.length_map, Parser.position]

lemma length (h : Shifted d s s') : s'.rest.length = s.rest.length := by
  rw [h.rest, List.length_map]

lemma step (h : Shifted d s s') : Shifted d s.step s'.step := by
  have hrest := h.rest
  cases hs : s.rest with
  | nil =>
    rw [hs, List.map_nil] at hrest
    simpa only [Parser.step, hs, hrest] using h
  | cons t ts =>
    rw [hs, List.map_cons] at hrest
    have hmove := h.movable
    rw [hs, List.forall_mem_cons] at hmove
    simp only [Parser.step, hs, hrest]
    exact ⟨by rw [h.before, List.map_cons], rfl, h.errors, h.trivia, hmove.2, .inr (by simp)⟩

lemma forward (h : Shifted d s s') (n : Nat) : Shifted d (s.forward n) (s'.forward n) := by
  induction n generalizing s s' with
  | zero => exact h
  | succ n ih => exact ih h.step

/-- The log does not count. -/
lemma with_trace (h : Shifted d s s') (trace trace' : List Event) :
    Shifted d { s with trace } { s' with trace := trace' } :=
  ⟨h.before, h.rest, h.errors, h.trivia, h.movable, h.someToken⟩

/-- The readers at the beginning of a sequence of tokens. -/
lemma ofTokens {ts : List Token} (h : ∀ t ∈ ts, t.Movable) (hne : (Parser.ofTokens ts).rest ≠ []) :
    Shifted d (Parser.ofTokens ts) (Parser.ofTokens (ts.map (Token.shift d))) := by
  have hsettle := settle_shift d 0 none ts
  refine ⟨rfl, ?_, rfl, ?_, movable_settle h 0 none, .inl hne⟩
  · exact congrArg Prod.fst hsettle
  · exact congrArg Prod.snd hsettle

end Parser.Shifted

/-! ### Single actions -/

/-- A step of reading tokens moves with them. -/
abbrev ParseShifts {α : Type} (d : Shift) (act : α → α) (f f' : Parse α) : Prop :=
  Shifts d (Parser.Shifted d) act f f'

section

variable {α β : Type} {act : α → α} {act' : β → β}

namespace Shifts

lemma get_bind {k k' : Parser → Parse β} (h : ∀ s s', Parser.Shifted d s s' →
      ShiftedResult d (Parser.Shifted d) act' (k s s) (k' s' s')) :
    ParseShifts d act' (get >>= k) (get >>= k') := ⟨fun hs => h _ _ hs⟩

lemma fail {c : Cause} {r r' : Span} (h : r' = r.shift d) :
    ParseShifts d act (Parse.fail c r : Parse α) (Parse.fail c r') := by
  rw [h]
  exact .throw rfl

lemma fail_bind {c : Cause} {r r' : Span} (h : r' = r.shift d) (k k' : α → Parse β) :
    ParseShifts d act' (Parse.fail c r >>= k) (Parse.fail c r' >>= k') := by
  rw [h]
  exact ⟨fun hs => .error hs⟩

lemma discard_bind {f f' : Parse α} {g g' : PUnit → Parse β} (hf : ParseShifts d act f f')
    (hg : ParseShifts d act' (g ⟨⟩) (g' ⟨⟩)) :
    ParseShifts d act' (discard f >>= g) (discard f' >>= g') := by
  rw [Parse.discard_bind, Parse.discard_bind]
  exact hf.bind fun _ => hg

lemma discard {f f' : Parse α} (hf : ParseShifts d act f f') :
    ParseShifts d id (discard f) (discard f') := by
  rw [← bind_pure (Functor.discard f), ← bind_pure (Functor.discard f')]
  exact hf.discard_bind (.pure _)

lemma current : ParseShifts d (Token.shift d) current current := by
  refine ⟨fun {s s'} h => ?_⟩
  show ShiftedResult _ _ _ (.ok s.current s) (.ok s'.current s')
  rw [h.current]
  exact .ok h

lemma tokensLeft : ParseShifts d id tokensLeft tokensLeft := by
  refine ⟨fun {s s'} h => ?_⟩
  show ShiftedResult _ _ _ (.ok s.rest.length s) (.ok s'.rest.length s')
  rw [h.length]
  exact .ok (a := s.rest.length) h

lemma advance : ParseShifts d (Token.shift d) advance advance := by
  refine ⟨fun {s s'} h => ?_⟩
  show ShiftedResult _ _ _ (.ok s.current s.step) (.ok s'.current s'.step)
  rw [h.current]
  exact .ok h.step

lemma accept (kinds : List TokenKind) :
    ParseShifts d (Option.map (Token.shift d)) (accept kinds) (accept kinds) := by
  unfold Parse.accept
  rw [map_eq_bind]
  refine current.bind fun t => ?_
  rw [Token.shift_kind]
  exact .ite (fun _ => advance.bind fun _ => .of_eq rfl) fun _ => .of_eq rfl

lemma expect (kinds : List TokenKind) :
    ParseShifts d (Token.shift d) (expect kinds) (expect kinds) := by
  refine current.bind fun t => ?_
  rw [Token.shift_kind, Token.shift_found, Token.shift_span]
  exact .ite (fun _ => advance) fun _ => .fail rfl

lemma close (opener : Token) :
    ParseShifts d (Token.shift d) (close opener) (close (opener.shift d)) := by
  unfold Parse.close
  refine current.bind fun t => ?_
  simp only [Token.shift_kind, Token.shift_found, Token.shift_span, Token.shift_value]
  exact .ite (fun _ => advance) fun _ => .ite (fun _ => .fail rfl) fun _ => .fail rfl

lemma leafOf (tokenKind : TokenKind) (kind : Kind) :
    ParseShifts d (Node.shift d) (leafOf tokenKind kind) (leafOf tokenKind kind) :=
  (expect _).bind fun t => .of_eq (Node.shift_leaf d kind t).symm

lemma node (kind : Kind) {p p' : Place} {ns ns' : List Node} (fields : FieldTable)
    (value : Option String) (hp : p' = p.shift d) (hns : ns' = ns.map (Node.shift d)) :
    ParseShifts d (Node.shift d) (node kind p ns fields value) (node kind p' ns' fields value) := by
  refine ⟨fun {s s'} h => ?_⟩
  rw [run_node, run_node, h.previous, Token.shift_stop, hp, hns, ← Node.shift_spanning]
  exact .ok h

lemma mapM {γ δ : Type} {f : γ → Parse δ} {f' : γ → Parse δ} {move : γ → γ} {act : δ → δ}
    (xs : List γ) (h : ∀ x ∈ xs, ParseShifts d act (f x) (f' (move x))) :
    ParseShifts d (List.map act) (xs.mapM f) ((xs.map move).mapM f') := by
  induction xs with
  | nil => exact .of_eq rfl
  | cons x xs ih =>
    rw [List.forall_mem_cons] at h
    rw [List.map_cons, List.mapM_cons, List.mapM_cons]
    exact h.1.bind fun _ => (ih h.2).bind fun _ => .of_eq rfl

end Shifts

end

/-! ### Descending and bounding -/

/-- What is read one level further in moves with the tokens. -/
def Level.Moves (d : Shift) (L : Level) : Prop :=
  ∀ read, L.inner = some read → ∀ x, ParseShifts d (Node.shift d) (read x) (read x)

section

variable {α : Type} {act : α → α} {L : Level} {read : Nonterminal → Parse Node}

lemma Shifts.nested (hL : L.Moves d) (t : Token) {body body' : (Nonterminal → Parse Node) → Parse α}
    (h : ∀ read, (∀ x, ParseShifts d (Node.shift d) (read x) (read x)) →
      ParseShifts d act (body read) (body' read)) :
    ParseShifts d act (nested L t body) (nested L (t.shift d) body') := by
  unfold Grammar.nested
  cases hi : L.inner with
  | none => exact .fail (Token.shift_span d t)
  | some read => exact h read (hL read hi)

lemma Shifts.bounded (limit : Int) (allowance : Nat) (n : Node) (t : Token) :
    ParseShifts d id (bounded limit allowance n t)
      (bounded limit allowance (n.shift d) (t.shift d)) := by
  unfold Grammar.bounded
  rw [Node.height_shift]
  exact .ite (fun _ => .fail (Token.shift_span d t)) fun _ => .of_eq rfl

/-! ### Binary operators -/

lemma startsElement_shift {s s' : Parser} (h : Parser.Shifted d s s') (t : Token) :
    startsElement (t.shift d) s' = startsElement t s := by
  simp only [startsElement, h.peek, Token.shift_kind, Token.shift_spaced]

lemma binaryNode_shift (d : Shift) (lhs : Node) (op : Token) (rhs : Node) :
    binaryNode (lhs.shift d) (op.shift d) (rhs.shift d) = (binaryNode lhs op rhs).shift d := by
  simp only [binaryNode, Node.shift_spanning, Node.shift_place, Node.shift_stop, List.map_cons,
    List.map_nil, Node.shift_leaf]

lemma shifts_climb (hr : ∀ x, ParseShifts d (Node.shift d) (read x) (read x)) (least : Nat)
    (inMatrix : Bool) (bound : Nat) (lhs : Node) :
    ParseShifts d (Node.shift d) (climb L read least inMatrix bound lhs)
      (climb L read least inMatrix bound (lhs.shift d)) := by
  induction bound generalizing lhs with
  | zero => exact .of_eq rfl
  | succ bound ih =>
    refine .get_bind fun s s' h => ?_
    simp only [h.current, startsElement_shift h, Token.shift_kind]
    cases s.current.kind.binary? with
    | none => exact .ok h
    | some op =>
      refine Shifts.run (.ite (fun _ => .of_eq rfl) fun _ => ?_) h
      refine .discard_bind .advance ((hr _).bind fun rhs => ?_)
      rw [binaryNode_shift]
      exact (Shifts.bounded ..).bind fun _ => ih _

lemma shifts_expression (hL : L.Moves d) (least : Nat) (inMatrix : Bool) :
    ParseShifts d (Node.shift d) (expression L least inMatrix) (expression L least inMatrix) :=
  Shifts.current.bind fun t => .nested hL t fun _ hr => (hr _).bind fun _ =>
    Shifts.tokensLeft.bind fun _ => shifts_climb hr ..

lemma shifts_anyExpression (hL : L.Moves d) :
    ParseShifts d (Node.shift d) (anyExpression L) (anyExpression L) := shifts_expression hL 1 false

/-! ### Names and numbers -/

lemma shifts_memberParts (inMatrix : Bool) (bound : Nat) :
    ParseShifts d (List.map (Node.shift d)) (memberParts inMatrix bound)
      (memberParts inMatrix bound) := by
  induction bound with
  | zero => exact .of_eq rfl
  | succ bound ih =>
    refine Shifts.current.bind fun t => ?_
    rw [Token.shift_kind, Token.shift_spaced]
    refine .ite (fun _ => ?_) fun _ => .of_eq rfl
    exact .discard_bind .advance ((Shifts.leafOf ..).bind fun _ => ih.bind fun _ => .of_eq rfl)

lemma shifts_memberAccess (inMatrix : Bool) :
    ParseShifts d (Node.shift d) (memberAccess inMatrix) (memberAccess inMatrix) := by
  refine (Shifts.leafOf ..).bind fun first => Shifts.tokensLeft.bind fun _ =>
    (shifts_memberParts ..).bind fun parts => ?_
  have hvalue : (first.shift d :: parts.map (Node.shift d)).map (·.value.getD "")
      = (first :: parts).map (·.value.getD "") := by
    simp only [List.map_cons, List.map_map, Function.comp_def, Node.shift_value]
  simp only [hvalue]
  exact .node _ _ _ (Node.shift_place ..) rfl

lemma shifts_rangeBound : ParseShifts d (Node.shift d) rangeBound rangeBound := by
  refine .discard_bind (.expect _) (Shifts.current.bind fun t => ?_)
  rw [Token.shift_kind, Token.shift_found]
  refine .ite (fun _ => Shifts.advance.bind fun t => .of_eq (Node.shift_leaf ..).symm) fun _ => ?_
  exact .fail (Token.shift_span ..)

lemma shifts_range : ParseShifts d (Node.shift d) range range := by
  refine (Shifts.leafOf ..).bind fun first => shifts_rangeBound.bind fun second =>
    Shifts.current.bind fun t => ?_
  rw [Token.shift_kind]
  refine .ite (fun _ => .node _ _ _ (Node.shift_place ..) rfl) fun _ => ?_
  refine shifts_rangeBound.bind fun third => Shifts.current.bind fun t => ?_
  rw [Token.shift_kind]
  refine .ite (fun _ => .discard_bind .advance ?_) fun _ => ?_
  · exact .fail_bind (Token.shift_span ..) _ _
  · exact .node _ _ _ (Node.shift_place ..) rfl

lemma shifts_number : ParseShifts d (Node.shift d) number number := by
  refine Shifts.advance.bind fun t => Shifts.current.bind fun sign => ?_
  rw [Token.shift_kind, Token.shift_spaced, Token.shift_value, Token.shift_value]
  refine .ite (fun _ => .discard_bind .advance ?_) fun _ => .of_eq (Node.shift_leaf ..).symm
  exact .node _ _ _ (Token.shift_place ..) rfl

/-! ### Parentheses and calls -/

lemma shifts_bracketed (hL : L.Moves d) :
    ParseShifts d (Node.shift d) (bracketed L) (bracketed L) := by
  refine (Shifts.expect _).bind fun opener => Shifts.current.bind fun t => ?_
  rw [Token.shift_kind]
  refine .ite (fun _ => .fail_bind (Token.shift_span ..) _ _) fun _ => ?_
  exact (shifts_anyExpression hL).bind fun e => .discard_bind (.close opener)
    (.node _ _ _ (Token.shift_place ..) rfl)

section

variable {readValue : Parse Node}

lemma shifts_keywordArgument (h : ParseShifts d (Node.shift d) readValue readValue) :
    ParseShifts d (Node.shift d) (keywordArgument readValue) (keywordArgument readValue) :=
  (Shifts.leafOf ..).bind fun _ => .discard_bind (.expect _)
    (h.bind fun _ => .node _ _ _ (Node.shift_place ..) rfl)

lemma shifts_argumentSeparator (opener : Token) :
    ParseShifts d id (argumentSeparator opener) (argumentSeparator (opener.shift d)) := by
  refine Shifts.current.bind fun t => ?_
  rw [Token.shift_kind]
  refine .ite (fun _ => .discard_bind .advance (Shifts.current.bind fun u => ?_)) fun _ => ?_
  · rw [Token.shift_kind]
    exact .ite (fun _ => .fail (Token.shift_span ..)) fun _ => .of_eq rfl
  · exact .ite (fun _ => .discard (.close _)) fun _ => .of_eq rfl

/-- Moves the positional and the named arguments. -/
abbrev shiftArguments (d : Shift) (args : List Node × List Node) : List Node × List Node :=
  (args.1.map (Node.shift d), args.2.map (Node.shift d))

lemma shifts_argumentList (h : ParseShifts d (Node.shift d) readValue readValue)
    (definition : Bool) (opener : Token) (bound : Nat) (named : Bool) :
    ParseShifts d (shiftArguments d) (argumentList readValue definition opener bound named)
      (argumentList readValue definition (opener.shift d) bound named) := by
  induction bound generalizing named with
  | zero =>
    unfold argumentList
    rw [Token.shift_value]
    exact .fail (Token.shift_span ..)
  | succ bound ih =>
    refine .get_bind fun s s' hs => ?_
    simp only [hs.current, hs.peek, Token.shift_kind, Token.shift_span, Token.shift_value]
    refine Shifts.run (.ite (fun _ => .of_eq rfl) fun _ => ?_) hs
    refine .ite (fun _ => .fail rfl) fun _ => .ite (fun _ => ?_) fun _ => ?_
    · exact (shifts_keywordArgument h).bind fun _ => (shifts_argumentSeparator _).bind fun _ =>
        (ih _).bind fun _ => .of_eq rfl
    · refine .ite (fun _ => .fail rfl) fun _ => ?_
      refine .ite (fun _ => (Shifts.leafOf ..).bind fun _ => ?_) fun _ => h.bind fun _ => ?_
      all_goals
        exact (shifts_argumentSeparator _).bind fun _ => (ih _).bind fun _ => .of_eq rfl

lemma shifts_skipLeadingComma : ParseShifts d id skipLeadingComma skipLeadingComma := by
  refine .get_bind fun s s' hs => ?_
  simp only [hs.current, hs.peek, Token.shift_kind]
  exact Shifts.run (.ite (fun _ => .discard .advance) fun _ => .of_eq rfl) hs

lemma shifts_arguments (h : ParseShifts d (Node.shift d) readValue readValue) (definition : Bool)
    (opener : Token) :
    ParseShifts d (Prod.map (Node.shift d) (Node.shift d)) (arguments readValue definition opener)
      (arguments readValue definition (opener.shift d)) := by
  refine .ite (fun _ => shifts_skipLeadingComma.bind fun _ => ?_) fun _ => ?_
  all_goals
    refine Shifts.tokensLeft.bind fun _ => (shifts_argumentList h ..).bind fun args =>
      Shifts.advance.bind fun closer => .of_eq ?_
    simp only [Prod.map, Node.shift_spanning, Token.shift_place, Token.shift_stop]

end

lemma shifts_call (hL : L.Moves d) (target : Node) :
    ParseShifts d (Node.shift d) (call L target) (call L (target.shift d)) := by
  refine (Shifts.expect _).bind fun opener => ?_
  refine Shifts.bind (Shifts.nested hL opener fun _ hr => shifts_arguments (hr _) false opener)
    fun args => .node _ _ _ (Node.shift_place ..) rfl

/-! ### Matrices -/

lemma shifts_rowElements (hr : ∀ x, ParseShifts d (Node.shift d) (read x) (read x)) (bound : Nat) :
    ParseShifts d (List.map (Node.shift d)) (rowElements read bound) (rowElements read bound) := by
  induction bound with
  | zero => exact .of_eq rfl
  | succ bound ih =>
    refine Shifts.current.bind fun t => ?_
    rw [Token.shift_kind]
    refine .ite (fun _ => .of_eq rfl) fun _ => ?_
    exact (hr _).bind fun _ => .discard_bind (.accept _) (ih.bind fun _ => .of_eq rfl)

lemma shifts_rows (hr : ∀ x, ParseShifts d (Node.shift d) (read x) (read x)) (opener : Token)
    (bound : Nat) :
    ParseShifts d (List.map (Node.shift d)) (rows read opener bound)
      (rows read (opener.shift d) bound) := by
  induction bound with
  | zero => exact Shifts.current.bind fun t => .fail (Token.shift_span ..)
  | succ bound ih =>
    refine Shifts.current.bind fun first => Shifts.tokensLeft.bind fun _ =>
      (shifts_rowElements hr _).bind fun elements => ?_
    rw [List.getLast?_map]
    cases elements.getLast? with
    | none => exact .fail (Token.shift_span ..)
    | some last =>
      refine Shifts.current.bind fun t => ?_
      rw [Token.shift_kind]
      refine .ite (fun _ => .discard_bind .advance ?_) fun _ => ?_
      · exact (Shifts.node _ _ _ (Token.shift_place ..) rfl).bind fun _ =>
          ih.bind fun _ => .of_eq rfl
      · refine .discard_bind (.close _) (.of_eq ?_)
        simp only [List.map_cons, List.map_nil, Node.shift_spanning, Token.shift_place,
          Node.shift_stop]

lemma shifts_matrix (hL : L.Moves d) : ParseShifts d (Node.shift d) (matrix L) (matrix L) := by
  refine (Shifts.expect _).bind fun opener => ?_
  refine Shifts.bind (Shifts.nested hL opener fun read hr => ?_) fun _ =>
    .node _ _ _ (Token.shift_place ..) rfl
  exact Shifts.tokensLeft.bind fun _ => shifts_rows hr ..

/-! ### Strings -/

/-- Other tokens are read alike when they are moved. -/
lemma Shifts.onTokens {inner inner' : Parser} {p : Parse α} (hi : Parser.Shifted d inner inner')
    (h : ParseShifts d act p p) : ParseShifts d act (onTokens inner p) (onTokens inner' p) := by
  refine ⟨fun {s s'} hs => ?_⟩
  have hp := h.run (hi.with_trace s.trace s'.trace)
  unfold Grammar.onTokens
  generalize p { inner with trace := s.trace } = r at hp ⊢
  generalize p { inner' with trace := s'.trace } = r' at hp ⊢
  cases hp with
  | ok _ => exact .ok (hs.with_trace ..)
  | error _ => exact .error (hs.with_trace ..)

lemma Segment.shift_span (d : Shift) (seg : Segment Token) :
    (seg.shift d).span = seg.span.shift d := by
  rw [Segment.span, Segment.span, Span.shift_of]
  rfl

lemma shifts_snippetExpression (hL : L.Moves d) (seg : Segment Token) {tokens : List Token}
    (ht : ∀ t ∈ tokens, t.Movable) :
    ParseShifts d (Node.shift d) (snippetExpression L seg tokens)
      (snippetExpression L (seg.shift d) (tokens.map (Token.shift d))) := by
  refine ⟨fun {s s'} h => ?_⟩
  have htrivia : (Parser.ofTokens (tokens.map (Token.shift d))).trivia
      = (Parser.ofTokens tokens).trivia.map (Node.shift d) :=
    congrArg Prod.snd (settle_shift d 0 none tokens)
  unfold snippetExpression
  simp only [run_note, run_modify, htrivia]
  refine Shifts.run (?_ : ParseShifts d (Node.shift d) _ _)
    ⟨h.before, h.rest, h.errors, ?_, h.movable, h.someToken⟩
  · by_cases hne : (Parser.ofTokens tokens).rest = []
    · -- nothing is read of a snippet without tokens
      have hne' : (Parser.ofTokens (tokens.map (Token.shift d))).rest = [] := by
        have := congrArg Prod.fst (settle_shift d 0 none tokens)
        exact this.trans (by rw [show (Parser.settle 0 none tokens).1 = [] from hne]; rfl)
      have heof {p : Parser} (hp : p.rest = []) : (p.current.kind == .eof) = true := by
        simp only [Parser.current, hp, Parser.eof]
        split <;> rfl
      rw [if_pos (heof hne), if_pos (heof hne')]
      exact .fail_bind (Segment.shift_span ..) _ _
    · have hi := Parser.Shifted.ofTokens (d := d) ht hne
      rw [hi.current, Token.shift_kind]
      refine .ite (fun _ => .fail_bind (Segment.shift_span ..) _ _) fun _ => .onTokens hi ?_
      refine (shifts_anyExpression hL).bind fun e => Shifts.current.bind fun t => ?_
      rw [Token.shift_kind, Token.shift_found]
      exact .ite (fun _ => .fail_bind (Token.shift_span ..) _ _) fun _ => .of_eq rfl
  · simp only [h.trivia, List.map_append]

lemma shifts_segmentNode (hL : L.Moves d) {seg : Segment Token}
    (hdigits : ∀ digits, seg.form = .unicode digits → digits.length ≤ seg.stop)
    (hsnippet : ∀ ts, seg.form = .snippet ts → ∀ u ∈ ts, u.Movable) :
    ParseShifts d (Node.shift d) (segmentNode L seg) (segmentNode L (seg.shift d)) := by
  obtain ⟨form, text, line, col, start, stop⟩ := seg
  cases form with
  | unicode digits =>
    have hle := hdigits digits rfl
    simp only at hle
    simp only [segmentNode, Segment.shift, shiftForm]
    refine .of_eq ?_
    simp only [Node.shift_spanning, List.map_cons, List.map_nil]
    simp only [Node.shift_eq, List.map_nil]
    rw [Nat.sub_add_comm hle]
    rfl
  | snippet tokens =>
    simp only [segmentNode, Segment.shift, shiftForm_snippet]
    refine (shifts_snippetExpression hL _ (hsnippet tokens rfl)).bind fun e => .of_eq ?_
    rw [Node.shift_spanning]
    rfl
  | chars | escape | octal | other =>
    simp only [segmentNode, Segment.shift, shiftForm]
    refine .of_eq ?_
    rw [Node.shift_spanning]
    rfl

lemma shifts_string (hL : L.Moves d) :
    ParseShifts d (Node.shift d) (Grammar.string L) (Grammar.string L) := by
  refine ⟨fun {s s'} h => ?_⟩
  -- the pieces are those of the token ahead, which can be moved
  by_cases hk : [TokenKind.string].contains s.current.kind = true
  · have hne : s.rest ≠ [] := Parser.rest_ne_nil fun he => by rw [he] at hk; cases hk
    obtain ⟨t, ts, hs⟩ := List.exists_cons_of_ne_nil hne
    have hcur : s.current = t := by simp only [Parser.current, hs]
    have hmove : t.Movable := h.movable t (by rw [hs]; exact List.mem_cons_self)
    have hrun {p : Parser} (hp : [TokenKind.string].contains p.current.kind = true) :
        expect [.string] p = .ok p.current p.step := by
      simp only [expect, run_current, hp, if_true]
      rfl
    unfold Grammar.string
    rw [bind_ok (hrun hk), bind_ok (hrun (by rwa [h.current, Token.shift_kind])), h.current, hcur]
    refine Shifts.run ?_ h.step
    rw [Token.shift_segments]
    refine (Shifts.mapM t.segments fun seg hseg => shifts_segmentNode hL
      (fun _ => hmove.digits hseg) fun _ => hmove.snippets hseg).bind fun chars => .of_eq ?_
    rw [Node.shift_spanning, Token.shift_place, Token.shift_stop, List.length_map]
  · have hrun {p : Parser} (hp : ¬[TokenKind.string].contains p.current.kind = true) :
        expect [.string] p
          = .error ⟨.expected [.string] (.of p.current), p.current.span⟩ p := by
      simp only [expect, run_current, hp]
      rfl
    unfold Grammar.string
    rw [bind_error (hrun hk), bind_error (hrun (by rwa [h.current, Token.shift_kind])), h.current,
      Token.shift_found, Token.shift_span]
    exact .error h

/-! ### Operands -/

lemma shifts_nameOrCall (hL : L.Moves d) (inMatrix : Bool) :
    ParseShifts d (Node.shift d) (nameOrCall L inMatrix) (nameOrCall L inMatrix) := by
  refine (shifts_memberAccess inMatrix).bind fun target => Shifts.current.bind fun t => ?_
  rw [Token.shift_kind, Token.shift_spaced]
  exact .ite (fun _ => shifts_call hL target) fun _ => .of_eq rfl

lemma shifts_primary (hL : L.Moves d) (inMatrix : Bool) :
    ParseShifts d (Node.shift d) (primary L inMatrix) (primary L inMatrix) := by
  refine .get_bind fun s s' h => ?_
  simp only [h.current, h.peek, Token.shift_kind, Token.shift_found, Token.shift_span]
  cases s.current.kind with
  | leftBracket => exact (shifts_matrix hL).run h
  | leftParen => exact (shifts_bracketed hL).run h
  | identifier => exact (shifts_nameOrCall hL inMatrix).run h
  | number => exact Shifts.run (.ite (fun _ => shifts_range) fun _ => shifts_number) h
  | string => exact (shifts_string hL).run h
  | _ => exact .error h

lemma shifts_suffixes (bound : Nat) (operand : Node) :
    ParseShifts d (Node.shift d) (suffixes L bound operand)
      (suffixes L bound (operand.shift d)) := by
  induction bound generalizing operand with
  | zero => exact .of_eq rfl
  | succ bound ih =>
    refine Shifts.current.bind fun t => ?_
    rw [Token.shift_kind, Token.shift_spaced]
    refine .ite (fun _ => .discard_bind .advance ?_) fun _ => .of_eq rfl
    refine (Shifts.node _ _ _ (Node.shift_place ..) ?_).bind fun n =>
      (Shifts.bounded ..).bind fun _ => ih _
    simp only [List.map_cons, List.map_nil, Node.shift_leaf]

lemma shifts_suffix (hL : L.Moves d) (inMatrix : Bool) :
    ParseShifts d (Node.shift d) (suffix L inMatrix) (suffix L inMatrix) :=
  (shifts_primary hL inMatrix).bind fun _ => Shifts.tokensLeft.bind fun _ => shifts_suffixes ..

lemma shifts_unary (hL : L.Moves d) (inMatrix : Bool) :
    ParseShifts d (Node.shift d) (unary L inMatrix) (unary L inMatrix) := by
  refine Shifts.current.bind fun t => ?_
  rw [Token.shift_kind]
  refine .ite (fun _ => .discard_bind .advance ?_) fun _ => shifts_suffix hL inMatrix
  refine Shifts.bind (Shifts.nested hL t fun _ hr => hr _) fun operand => .of_eq ?_
  simp only [Node.shift_spanning, Token.shift_place, Node.shift_stop, List.map_cons, List.map_nil,
    Node.shift_leaf]

end

end StpLang
