import Mathlib.Data.List.Forall2
import StpLang.Proofs.Render

/-!
What is written on a sheet.

Only `elseif` and `else` change what stands on a sheet already, and the line that they
continue is always the closing brace of a block of their own `if`, at the same
indentation. So the lines that a node adds depend on the indentation alone, which is the
same again afterwards. This holds of all nodes, also of those that cannot be written.

* `Lays` says which lines a step of writing adds to a sheet, and `Continues` which lines it
  puts in the place of a closing brace.
* `Lays.choice` writes a block with clauses behind it, `Continues.attached` a clause.
* `appends_statement` is the result for all nodes, `lays_ifStatement` gives the lines of an
  `if`.
-/

namespace StpLang

open Source

/-! ### Steps of writing -/

namespace Source

/-- A line at an indentation. -/
def indented (k : Nat) (text : String) : String := Text.blanks (4 * k) ++ text

/-- The sheet with more lines below those on it. -/
def Sheet.extend (s : Sheet) (ls : List String) : Sheet :=
  { s with lines := ls.reverse ++ s.lines }

/-- The lines that a step writes on an empty sheet at an indentation. -/
def linesOf (w : Write Unit) (k : Nat) : Except RenderFault (List String) :=
  (·.2.lines.reverse) <$> w { indent := k }

/-- The lines of a header, of the body one step further in, and of what is behind it. -/
def blockLines (header : String) (body behind : Nat → Except RenderFault (List String))
    (k : Nat) : Except RenderFault (List String) := do
  return indented k (header ++ " \x7b") :: ((← body (k + 1)) ++ (← behind k))

end Source

/-- On every sheet a step adds the lines that `f` gives for the indentation, and keeps the
indentation. Where `f` fails, the step fails in the same way. -/
def Lays (w : Write Unit) (f : Nat → Except RenderFault (List String)) : Prop :=
  ∀ s, w s = (fun ls => ((), s.extend ls)) <$> f s.indent

/-- Where the latest line is a closing brace, a step puts the lines that `f` gives in its
place. -/
def Continues (w : Write Unit) (f : Nat → Except RenderFault (List String)) : Prop :=
  ∀ s : Sheet, w (s.extend [indented s.indent "\x7d"])
    = (fun ls => ((), s.extend ls)) <$> f s.indent

/-- A step adds lines to a sheet that depend on the indentation alone. -/
def Appends (w : Write Unit) : Prop := Lays w (linesOf w)

section

variable {α : Type} {w v body : Write Unit} {f g : Nat → Except RenderFault (List String)}
  {h : α → Write Unit} {r : α → Nat → Except RenderFault (List String)} {s : Sheet}
  {ls : List String}

lemma Source.Sheet.extend_extend (s : Sheet) (ls ms : List String) :
    (s.extend ls).extend ms = s.extend (ls ++ ms) := by
  simp [Sheet.extend]

/-- Lines below lines that have been added. -/
lemma Source.Sheet.map_extend (s : Sheet) (ls : List String)
    (x : Except RenderFault (List String)) :
    (fun ms => ((), (s.extend ls).extend ms)) <$> x
      = (fun ms => ((), s.extend ms)) <$> (do return ls ++ (← x)) := by
  cases x with
  | error e => rfl
  | ok ms => exact congrArg (fun t => Except.ok ((), t)) (s.extend_extend ls ms)

/-- The lines that a step adds to any sheet are those on an empty one. -/
lemma Lays.linesOf_eq (hw : Lays w f) (k : Nat) : linesOf w k = f k := by
  rw [linesOf, hw]
  show _ <$> (_ <$> f k) = f k
  cases f k with
  | error e => rfl
  | ok ls => simp [Functor.map, Except.map, Sheet.extend]

lemma Lays.appends (hw : Lays w f) : Appends w := by
  rw [Appends, show linesOf w = f from funext hw.linesOf_eq]
  exact hw

lemma Appends.run (hw : Appends w) (h : linesOf w s.indent = .ok ls) :
    w s = .ok ((), s.extend ls) := by
  rw [hw s, h]
  rfl

lemma Writable.exists_lines (h : Writable w) (k : Nat) : ∃ ls, linesOf w k = .ok ls := by
  obtain ⟨s, hs⟩ := h { indent := k }
  exact ⟨_, by rw [linesOf, hs]; rfl⟩

lemma lays_nothing : Lays (pure ()) fun _ => .ok [] := fun _ => rfl

lemma lays_line (text : String) : Lays (line text) fun k => .ok [indented k text] := fun _ => rfl

lemma lays_throw (e : RenderFault) : Lays (throw e) fun _ => .error e := fun _ => rfl

/-- A text is found before anything is written. -/
lemma lays_lift (x : Except RenderFault α) (hf : ∀ a, Lays (h a) (r a)) :
    Lays (liftM x >>= h) fun k => x >>= fun a => r a k := by
  intro s
  cases x with
  | error e => rfl
  | ok a => exact hf a s

lemma Lays.bind (hw : Lays w f) (hv : Lays v g) :
    Lays (w >>= fun _ => v) fun k => do return (← f k) ++ (← g k) := by
  intro s
  show (w s >>= fun r => v r.2) = _ <$> (f s.indent >>= fun ls => g s.indent >>= _)
  rw [hw s]
  cases f s.indent with
  | error e => rfl
  | ok ls => exact (hv (s.extend ls)).trans (s.map_extend ls (g s.indent))

/-! ### Blocks and clauses -/

lemma continues_nothing : Continues (pure ()) fun k => .ok [indented k "\x7d"] := fun _ => rfl

lemma continues_lift (x : Except RenderFault α) (hf : ∀ a, Continues (h a) (r a)) :
    Continues (liftM x >>= h) fun k => x >>= fun a => r a k := by
  intro s
  cases x with
  | error e => rfl
  | ok a => exact hf a s

/-- The brace that closes a block stands at the indentation of its header, and what comes
behind the block finds it there. -/
lemma Lays.closing (hbody : Lays body f) (hw : Continues w g) :
    Lays (closing body >>= fun _ => w) fun k => do return (← f (k + 1)) ++ (← g k) := by
  intro s
  show ((body { s with indent := s.indent + 1 } >>= _) >>= _)
    = _ <$> (f (s.indent + 1) >>= fun ls => g s.indent >>= _)
  rw [hbody]
  show ((_ <$> f (s.indent + 1)) >>= _) >>= _ = _
  cases f (s.indent + 1) with
  | error e => rfl
  | ok ls => exact (hw (s.extend ls)).trans (s.map_extend ls (g s.indent))

/-- A block with clauses behind it. -/
lemma Lays.choice (header : String) (hbody : Lays body f) (hw : Continues w g) :
    Lays (block header body >>= fun _ => w) (blockLines header f g) := by
  intro s
  have hall := (lays_line (header ++ " \x7b")).bind (hbody.closing hw) s
  rw [← bind_assoc] at hall
  rw [block, hall]
  show _ <$> ((f (s.indent + 1) >>= _) >>= _) = _
  simp only [bind_assoc, pure_bind]
  rfl

/-- What continues a closing brace is written as a line in its place. -/
lemma attach_brace (text : String) (s : Sheet) :
    attach text (s.extend [indented s.indent "\x7d"]) = line ("\x7d " ++ text) s := by
  have hline : indented s.indent "\x7d" ++ " " ++ text
      = Text.blanks (4 * s.indent) ++ ("\x7d " ++ text) := by
    rw [indented, String.append_assoc, String.append_assoc, ← @String.append_assoc "\x7d"]
    rfl
  show Except.ok ((), { s with lines := (indented s.indent "\x7d" ++ " " ++ text) :: s.lines })
    = _
  rw [hline]
  rfl

/-- A clause behind a closing brace. -/
lemma Continues.attached (header : String) (hbody : Lays body f) (hw : Continues w g) :
    Continues (attached header body >>= fun _ => w) (blockLines ("\x7d " ++ header) f g) := by
  intro s
  rw [← hbody.choice ("\x7d " ++ header) hw s]
  show ((attach (header ++ " \x7b") (s.extend [indented s.indent "\x7d"])
    >>= fun r => closing body r.2) >>= fun r => w r.2) = _
  rw [attach_brace, ← String.append_assoc]
  rfl

lemma appends_line (text : String) : Appends (line text) := (lays_line text).appends

lemma appends_lift (x : Except RenderFault α) (hf : ∀ a, Appends (h a)) :
    Appends (liftM x >>= h) := (lays_lift x hf).appends

/-- A block without clauses. -/
lemma appends_block (header : String) (hbody : Appends body) : Appends (block header body) := by
  have hblock := (hbody.choice header continues_nothing).appends
  rwa [bind_pure_unit] at hblock

end

/-! ### Nodes -/

/-- The lines of the statements below the child that bears a label. -/
def Node.linesBelow (f : Field) (n : Node) : Nat → Except RenderFault (List String) :=
  linesOf (statementsBelow (n.fields.first? f) n.children)

/-- The header of a clause. -/
def Node.clauseHeader (n : Node) : Except RenderFault String :=
  if n.kind == .elseifClause then
    return "elseif " ++ (← textAt (n.fields.first? .condition) n.children)
  else return "else"

/-- The lines of clauses from the closing brace before them on. The header of a clause
continues the brace of the block before it. -/
def Source.clauseLines : List Node → Nat → Except RenderFault (List String)
  | [], k => return [indented k "\x7d"]
  | n :: ns, k => do
    let header ← n.clauseHeader
    blockLines ("\x7d " ++ header) (n.linesBelow .body) (clauseLines ns) k

/-- The lines of an `if` with its clauses. -/
def Node.choiceLines (n : Node) (k : Nat) : Except RenderFault (List String) := do
  let condition ← textAt (n.fields.first? .condition) n.children
  blockLines ("if " ++ condition) (n.linesBelow .body) (clauseLines (n.children.drop 2)) k

mutual

/-- **What a node writes depends on the indentation alone.** -/
theorem appends_statement : (n : Node) → Appends (statement n)
  | ⟨kind, value, l, c, start, stop, children, fields⟩ => by
    have hbody (f : Field) : Appends (statementsBelow (fields.first? f) children) :=
      appends_statementsBelow _ children
    -- the texts of a node are found first, then a line or a block is written
    cases kind with
    | sourceFile => exact appends_statements children
    | comment | error | breakStatement | contStatement | exitStatement => exact appends_line _
    | symbolDeclaration | importStatement | returnStatement =>
      exact appends_lift _ fun _ => appends_line _
    | assignment => exact appends_lift _ fun _ => appends_lift _ fun _ => appends_line _
    | expressionStatement =>
      show Appends (if children.isEmpty then _ else _)
      split
      · exact (lays_throw _).appends
      · exact appends_lift _ fun _ => appends_line _
    | ifStatement =>
      exact appends_lift _ fun _ => ((hbody .body).choice _ (continues_clauses 2 children)).appends
    | whileLoop => exact appends_lift _ fun _ => appends_block _ (hbody .loopBody)
    | forLoop =>
      exact appends_lift _ fun _ => appends_lift _ fun _ => appends_block _ (hbody .loopBody)
    | functionDefinition =>
      exact appends_lift _ fun _ => appends_lift _ fun _ => appends_lift _ fun _ =>
        appends_block _ (hbody .fnBody)
    | identifier | memberAccess | number | percentage | operator | binary | unary | suffix
      | bracketed | range | matrix | call | keywordArg | string =>
      exact appends_lift _ fun _ => appends_line _
    | other name =>
      rw [statement.eq_def]
      dsimp only
      split
      · exact appends_lift _ fun _ => lays_nothing.appends
      · exact (lays_throw _).appends
    | _ => exact (lays_throw _).appends

lemma appends_statements : (ns : List Node) → Appends (statements ns)
  | [] => lays_nothing.appends
  | n :: ns => ((appends_statement n).bind (appends_statements ns)).appends

lemma appends_statementsBelow (position : Option Nat) : (ns : List Node) →
    Appends (statementsBelow position ns)
  | [] => lays_nothing.appends
  | ⟨_, _, _, _, _, _, children, _⟩ :: ns =>
    match position with
    | none => lays_nothing.appends
    | some 0 => appends_statements children
    | some (i + 1) => appends_statementsBelow (some i) ns

/-- Clauses find the closing brace of the block before them. -/
lemma continues_clauses (skipped : Nat) : (ns : List Node) →
    Continues (clauses skipped ns) (clauseLines (ns.drop skipped))
  | [] => by cases skipped <;> exact continues_nothing
  | ⟨kind, value, l, c, start, stop, children, fields⟩ :: ns =>
    match skipped with
    | k + 1 => continues_clauses k ns
    | 0 => by
      have hbody : Appends (statementsBelow (fields.first? .body) children) :=
        appends_statementsBelow _ children
      have hmore : Continues (clauses 0 ns) (clauseLines ns) := continues_clauses 0 ns
      -- whatever is no `elseif` counts as an `else`
      show Continues (if kind == .elseifClause then _ else _) fun k => _ >>= _
      rw [Node.clauseHeader]
      split
      · simp only [bind_assoc, pure_bind]
        exact continues_lift _ fun _ => .attached _ hbody hmore
      · exact .attached _ hbody hmore

end

/-- An `if` has the header of each clause on the line of the brace that closes the block
before it. -/
lemma lays_ifStatement {n : Node} (hk : n.kind = .ifStatement) :
    Lays (statement n) n.choiceLines := by
  obtain ⟨kind, value, l, c, start, stop, children, fields⟩ := n
  subst hk
  exact lays_lift _ fun _ =>
    (appends_statementsBelow _ children).choice _ (continues_clauses 2 children)

/-- Statements have the lines of each of them, one after another. -/
lemma linesOf_statements {k : Nat} {ns : List Node} {lss : List (List String)}
    (h : List.Forall₂ (fun n ls => linesOf (statement n) k = .ok ls) ns lss) :
    linesOf (statements ns) k = .ok lss.flatten := by
  induction h with
  | nil => exact lays_nothing.linesOf_eq k
  | @cons n ls ns lss hn _ ih =>
    have hsplit := ((appends_statement n).bind (appends_statements ns)).linesOf_eq k
    rw [hn, ih] at hsplit
    exact hsplit

end StpLang
