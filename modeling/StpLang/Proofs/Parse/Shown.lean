import StpLang.Proofs.Node
import StpLang.Proofs.Parse.Rounds

/-!
Errors that are recorded show in the tree.

An error is recorded where a statement is given up, and a node takes the place
of the statement. The node may be lost again when the block around it fails in
turn, but then the same happens one level further out, so that in the end every
reading that recorded an error has made a node that stands for one.

* `Shows` says that a step which records an error makes something that holds
  one.
* `shows_statement` and `shows_program` follow this through the grammar.
-/

namespace StpLang

open Parse Grammar

/-- Whenever a step succeeds after it has recorded an error, its result holds
one. -/
structure Shows {α : Type} (holds : α → Prop) (p : Parse α) : Prop where
  run : ∀ {s a t}, p s = .ok a t → t.errors = s.errors ∨ holds a

/-- What a step makes holds an error, whatever the step does. -/
structure Keeps {α : Type} (holds : α → Prop) (p : Parse α) : Prop where
  run : ∀ {s a t}, p s = .ok a t → holds a

/-- One of the nodes holds an error. -/
def AnyError (ns : List Node) : Prop := ∃ n ∈ ns, n.hasError = true

section

variable {α β : Type} {holds : α → Prop} {holds' : β → Prop} {p : Parse α} {f : α → Parse β}

/-! ### Sequences -/

lemma Goes.errors_eq {s t : Parser} {a : α} (hp : Goes .quiet p p) (h : p s = .ok a t) :
    t.errors = s.errors := by
  have ht := hp.errors_after s
  rwa [h] at ht

namespace Shows

lemma of_quiet (hp : Goes .quiet p p) : Shows holds p := ⟨fun h => .inl (hp.errors_eq h)⟩

/-- What follows a step that records nothing. -/
lemma quiet_bind (hp : Goes .quiet p p) (hf : ∀ a, Shows holds' (f a)) :
    Shows holds' (p >>= f) := by
  refine ⟨fun h => ?_⟩
  obtain ⟨a, t, ha, hb⟩ := bind_eq_ok.mp h
  rw [← hp.errors_eq ha]
  exact (hf a).run hb

/-- What follows any other step must keep the error that the step shows. -/
lemma bind (hp : Shows holds p) (hf : ∀ a, Shows holds' (f a))
    (hkeep : ∀ a, holds a → Keeps holds' (f a)) : Shows holds' (p >>= f) := by
  refine ⟨fun h => ?_⟩
  obtain ⟨a, t, ha, hb⟩ := bind_eq_ok.mp h
  rcases hp.run ha with he | he
  · rw [← he]
    exact (hf a).run hb
  · exact .inr ((hkeep a he).run hb)

lemma ite {c : Prop} [Decidable c] {q : Parse α} (hp : Shows holds p) (hq : Shows holds q) :
    Shows holds (if c then p else q) := by
  split
  · exact hp
  · exact hq

lemma fail (c : Cause) (r : Span) : Shows holds (fail c r : Parse α) := ⟨fun h => by cases h⟩

lemma fail_bind (c : Cause) (r : Span) : Shows holds' (Parse.fail c r >>= f) :=
  ⟨fun h => by cases h⟩

lemma pure (a : α) : Shows holds (pure a : Parse α) := of_quiet (.pure a)

lemma node (kind : Kind) (place : Place) (children : List Node) (fields : FieldTable)
    (value : Option String) :
    Shows (fun n => n.hasError = true) (Parse.node kind place children fields value) :=
  of_quiet (.node ..)

end Shows

namespace Keeps

lemma bind (hf : ∀ a, Keeps holds' (f a)) : Keeps holds' (p >>= f) := by
  refine ⟨fun h => ?_⟩
  obtain ⟨a, t, -, hb⟩ := bind_eq_ok.mp h
  exact (hf a).run hb

lemma pure {a : α} (h : holds a) : Keeps holds (pure a : Parse α) := by
  refine ⟨fun hb => ?_⟩
  cases hb
  exact h

/-- A node holds the errors of its children. -/
lemma node {kind : Kind} {place : Place} {children : List Node} {fields : FieldTable}
    {value : Option String} (h : AnyError children) :
    Keeps (fun n => n.hasError = true) (Parse.node kind place children fields value) := by
  refine ⟨fun hn => ?_⟩
  cases hn
  obtain ⟨c, hc, hce⟩ := h
  exact Node.hasError_of_mem hc hce

end Keeps

lemma anyError_cons_left {n : Node} (h : n.hasError = true) (ns : List Node) :
    AnyError (n :: ns) := ⟨n, by simp, h⟩

lemma anyError_cons_right (n : Node) {ns : List Node} (h : AnyError ns) : AnyError (n :: ns) := by
  obtain ⟨c, hc, hce⟩ := h
  exact ⟨c, by simp [hc], hce⟩

end

/-! ### Statements -/

section

variable {L : Level} {loops : Nat}

/-- An error that is recovered from leaves a node. -/
lemma shows_attempt (inBlock : Bool) {readOne : Parse Node}
    (h : Shows (fun n => n.hasError = true) readOne) :
    Shows (fun n => n.hasError = true) (attempt false inBlock readOne) := by
  refine ⟨fun {s x t} hx => ?_⟩
  unfold attempt at hx
  cases hr : readOne s with
  | ok y u =>
    rw [hr] at hx
    cases hx
    exact h.run hr
  | error e u =>
    rw [hr] at hx
    simp only [Bool.false_eq_true, if_false] at hx
    cases hx
    exact .inr ((Node.hasError_iff _).mpr (.inl rfl))

lemma shows_statements {readOne : Parse Node} (h : Shows (fun n => n.hasError = true) readOne)
    (closer : Option TokenKind) (bound : Nat) :
    Shows AnyError (statements false readOne closer bound) := by
  induction bound with
  | zero => exact .pure _
  | succ bound ih =>
    refine .quiet_bind .current fun t => .ite ?_ (.ite (.pure _) ?_)
    · rw [discard_bind]
      exact .quiet_bind .advance fun _ => ih
    · refine (shows_attempt _ h).bind (fun x => ?_) fun x hx => ?_
      · exact ih.bind (fun _ => .pure _) fun _ hxs => .pure (anyError_cons_right x hxs)
      · exact .bind fun _ => .pure (anyError_cons_left hx _)

lemma shows_nested {α : Type} {holds : α → Prop} {t : Token}
    {body : (Nonterminal → Parse Node) → Parse α}
    (h : ∀ read, L.inner = some read → Shows holds (body read)) : Shows holds (nested L t body) := by
  unfold nested
  cases hi : L.inner with
  | none => exact .fail ..
  | some read => exact h read hi

/-- What the proofs below need to know of a level: it recovers from errors, its
expressions record none, and the statements further in show theirs. -/
structure ShowsBelow (L : Level) : Prop where
  strict : L.strict = false
  expression : Goes .quiet (anyExpression L) (anyExpression L)
  statement : ∀ read, L.inner = some read → ∀ loops,
    Shows (fun n => n.hasError = true) (read (.statement loops))

lemma shows_block (hL : ShowsBelow L) (loops : Nat) :
    Shows (fun n => n.hasError = true) (block L loops) := by
  refine .quiet_bind .current fun opener => .ite (.fail_bind ..) ?_
  rw [discard_bind]
  refine .quiet_bind .advance fun _ => ?_
  refine Shows.bind (shows_nested fun read hr => ?_) (fun _ => .node ..)
    fun _ (h : AnyError _) => .node h
  refine .quiet_bind .tokensLeft fun bound => ?_
  rw [hL.strict]
  refine (shows_statements (hL.statement read hr loops) _ bound).bind (fun xs => ?_) fun xs h => ?_
  · rw [discard_bind]
    exact .quiet_bind (.close _) fun _ => .pure _
  · rw [discard_bind]
    exact .bind fun _ => .pure h

lemma shows_elseifFrom (hL : ShowsBelow L) (loops : Nat) (seenElse : Bool)
    {more : Parse (List Node)} (h : Shows AnyError more) :
    Shows AnyError (elseifFrom L loops seenElse more) := by
  refine .quiet_bind .advance fun t => .ite (.fail_bind ..) ?_
  refine .quiet_bind hL.expression fun condition => (shows_block hL loops).bind (fun body => ?_)
    fun body hb => ?_
  · exact .quiet_bind (.node ..) fun clause =>
      h.bind (fun _ => .pure _) fun _ hs => .pure (anyError_cons_right clause hs)
  · refine ⟨fun hu => ?_⟩
    rw [run_node_bind] at hu
    obtain ⟨ys, v, -, hv⟩ := bind_eq_ok.mp hu
    cases hv
    exact anyError_cons_left (Node.hasError_of_mem (by simp [Node.spanning]) hb) _

lemma shows_elseFrom (hL : ShowsBelow L) (loops : Nat) (seenElse : Bool)
    {more : Parse (List Node)} (h : Shows AnyError more) :
    Shows AnyError (elseFrom L loops seenElse more) := by
  refine .quiet_bind .advance fun t => .ite (.fail_bind ..) ?_
  refine (shows_block hL loops).bind (fun body => ?_) fun body hb => ?_
  · exact .quiet_bind (.node ..) fun clause =>
      h.bind (fun _ => .pure _) fun _ hs => .pure (anyError_cons_right clause hs)
  · refine ⟨fun hu => ?_⟩
    rw [run_node_bind] at hu
    obtain ⟨ys, v, -, hv⟩ := bind_eq_ok.mp hu
    cases hv
    exact anyError_cons_left (Node.hasError_of_mem (by simp [Node.spanning]) hb) _

lemma shows_clauses (hL : ShowsBelow L) (loops bound : Nat) (seenElse : Bool) :
    Shows AnyError (clauses L loops bound seenElse) := by
  induction bound generalizing seenElse with
  | zero => exact .pure _
  | succ bound ih =>
    refine ⟨fun {s xs t} h => ?_⟩
    have herrors : (atClause s).errors = s.errors := by
      simpa [atClause] using (Moves.forward _ s).errors
    by_cases h1 : s.significant.kind = .kwElseif
    · rw [clauses_elseif h1] at h
      rw [← herrors]
      exact (shows_elseifFrom hL loops seenElse (ih seenElse)).run h
    · by_cases h2 : s.significant.kind = .kwElse
      · rw [clauses_else h2] at h
        rw [← herrors]
        exact (shows_elseFrom hL loops seenElse (ih true)).run h
      · rw [clauses_end h1 h2] at h
        cases h
        exact .inl rfl

lemma shows_ifStatement (hL : ShowsBelow L) (loops : Nat) :
    Shows (fun n => n.hasError = true) (ifStatement L loops) := by
  refine .quiet_bind (.expect _) fun t => .quiet_bind hL.expression fun condition =>
    (shows_block hL loops).bind (fun body => ?_) fun body hb => ?_
  · refine .quiet_bind .tokensLeft fun bound => (shows_clauses hL loops bound false).bind
      (fun _ => .node ..) fun more hm => .node ?_
    exact anyError_cons_right _ (anyError_cons_right _ hm)
  · refine .bind fun _ => .bind fun more => .node ?_
    exact anyError_cons_right _ (anyError_cons_left hb _)

lemma shows_whileLoop (hL : ShowsBelow L) (loops : Nat) :
    Shows (fun n => n.hasError = true) (whileLoop L loops) :=
  .quiet_bind (.expect _) fun _ => .quiet_bind hL.expression fun _ =>
    (shows_block hL _).bind (fun _ => .node ..) fun body hb => .node ⟨body, by simp, hb⟩

lemma shows_forLoop (hL : ShowsBelow L) (loops : Nat) :
    Shows (fun n => n.hasError = true) (forLoop L loops) := by
  refine .quiet_bind (.expect _) fun _ => .quiet_bind (.leafOf ..) fun _ => ?_
  rw [discard_bind]
  exact .quiet_bind (.expect _) fun _ => .quiet_bind hL.expression fun _ =>
    (shows_block hL _).bind (fun _ => .node ..) fun body hb => .node ⟨body, by simp, hb⟩

lemma shows_functionDefinition (hL : ShowsBelow L) :
    Shows (fun n => n.hasError = true) (functionDefinition L) :=
  .quiet_bind (.expect _) fun _ => .quiet_bind (.leafOf ..) fun _ =>
    .quiet_bind (.expect _) fun _ => .quiet_bind (goes_arguments hL.expression ..) fun _ =>
      (shows_block hL 0).bind (fun _ => .node ..) fun body hb => .node ⟨body, by simp, hb⟩

/-- The statements of a level show their errors. -/
lemma shows_statement_of_below (hL : ShowsBelow L) (loops : Nat) :
    Shows (fun n => n.hasError = true) (statement L loops) := by
  have hassign : Goes .quiet (assignment L) (assignment L) :=
    (Goes.leafOf ..).bind fun _ => .discard_bind (.expect _)
      (hL.expression.bind fun _ => goes_semicolon.bind fun _ => .node ..)
  have hexpression : Goes .quiet (expressionStatement L) (expressionStatement L) :=
    hL.expression.bind fun _ => goes_semicolon.bind fun _ => .node ..
  have htoken (kind : Kind) : Goes .quiet (tokenStatement kind) (tokenStatement kind) :=
    Goes.advance.bind fun _ => .pure _
  have hcontrol : Goes .quiet (loopControl loops) (loopControl loops) :=
    Goes.advance.bind fun _ => .ite (fun _ => .fail_bind ..) fun _ => .pure _
  have hreturn : Goes .quiet (returnStatement L) (returnStatement L) :=
    (Goes.expect _).bind fun _ => hL.expression.bind fun _ => .node ..
  refine ⟨fun {s x t} h => ?_⟩
  unfold statement at h
  rw [run_get] at h
  cases hk : s.current.kind with
  | kwIf => simp only [hk] at h; exact (shows_ifStatement hL loops).run h
  | kwWhile => simp only [hk] at h; exact (shows_whileLoop hL loops).run h
  | kwFor => simp only [hk] at h; exact (shows_forLoop hL loops).run h
  | kwFn => simp only [hk] at h; exact (shows_functionDefinition hL).run h
  | kwSym => simp only [hk] at h; exact .inl (starts_symbolDeclaration.goes.errors_eq h)
  | kwImport => simp only [hk] at h; exact .inl (starts_importStatement.goes.errors_eq h)
  | kwRet => simp only [hk] at h; exact .inl (hreturn.errors_eq h)
  | kwBreak | kwCont => simp only [hk] at h; exact .inl (hcontrol.errors_eq h)
  | comment | kwExit => simp only [hk] at h; exact .inl ((htoken _).errors_eq h)
  | rightParen | rightBracket | rightBrace | kwElse | kwElseif => simp only [hk] at h; cases h
  | identifier =>
    simp only [hk] at h
    split at h
    · exact .inl (hassign.errors_eq h)
    · exact .inl (hexpression.errors_eq h)
  | _ => simp only [hk] at h; exact .inl (hexpression.errors_eq h)

end

/-! ### The whole grammar -/

lemma showsBelow_level (limit : Int) (n : Nat) : ShowsBelow (level limit false n) := by
  induction n with
  | zero => exact ⟨rfl, goes_anyExpression .., fun read h => by cases h⟩
  | succ n ih =>
    refine ⟨rfl, goes_anyExpression .., fun read h loops => ?_⟩
    cases h
    rw [derive_eq]
    exact shows_statement_of_below ih loops

/-- A program in which an error was recorded holds a node that stands for
one. -/
lemma shows_program (limit : Int) (n loops : Nat) :
    Shows (fun n => n.hasError = true) (program (level limit false n) loops) := by
  have hs := shows_statements
    (shows_statement_of_below (showsBelow_level limit n) loops) none
  refine ⟨fun {s x t} h => ?_⟩
  rw [run_program] at h
  have hstrict : (level limit false n).strict = false := (showsBelow_level limit n).strict
  rw [hstrict] at h
  obtain ⟨xs, u, hxs, hu⟩ := bind_eq_ok.mp h
  rw [run_current] at hu
  cases hu
  refine ((hs _).run hxs).imp_right fun ⟨c, hc, hce⟩ => ?_
  exact Node.hasError_of_mem (by simpa [Node.spanning] using hc) hce

end StpLang
