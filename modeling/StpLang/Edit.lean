import StpLang.Program

/-!
Editing a program that has been read.

An edit replaces a range of the text. The leading statements that end, with
their separators, before the range keep their nodes, and reading resumes behind
the last of them. A tree with errors is read anew.

* `Edit.apply` is the edited text.
* `keptStatements` are the nodes that stay.
* `reparse` reads the edited text.
-/

namespace StpLang

/-- The replacement of a range of a text. -/
structure Edit where
  start : Int
  stop : Int
  text : String
deriving DecidableEq, Repr

namespace Edit

/-- The wording for a range that does not lie in a text of the given length. -/
def rangeMessage (e : Edit) (length : Nat) : String :=
  s!"Invalid edit range {e.start}..{e.stop} for source of length {length}"

/-- The range lies in a text of the given length. -/
def fits (e : Edit) (length : Nat) : Bool :=
  0 ≤ e.start && e.start ≤ e.stop && e.stop ≤ length

/-- The edited text. -/
def apply (e : Edit) (source : String) : String :=
  let cs := source.toList
  String.ofList (cs.take e.start.toNat ++ e.text.toList ++ cs.drop e.stop.toNat)

end Edit

/-! ### What stays -/

/-- The blanks between a statement and its separator. -/
def isGap (c : Char) : Bool := c == ' ' || c == '\t' || c == '\r'

/-- The offset behind the line end or semicolon that ends a statement. -/
def separatorEnd? (source : List Char) (n : Node) : Option Nat :=
  if n.value == some ";" then some n.stop
  else
    let ahead := source.drop n.stop
    let width := (ahead.takeWhile isGap).length
    match ahead.drop width with
    | '\n' :: _ => some (n.stop + width + 1)
    | ';' :: _ => some (n.stop + width + 1)
    | _ => none

/-- The leading statements that end, with their separators, no later than
`start`. -/
def settledStatements (source : List Char) (start : Int) (children : List Node) :
    List Node :=
  children.takeWhile fun n => (separatorEnd? source n).any fun k => k ≤ start

/-- The statements that stay. An `if` at their end is read again, because an
`else` may follow it now. -/
def keptStatements (source : List Char) (start : Int) (children : List Node) :
    List Node :=
  let settled := settledStatements source start children
  if settled.getLast?.any (·.kind == .ifStatement) then settled.dropLast else settled

/-! ### Reading again -/

/-- The tree of an edited text, and the number of statements that stayed. -/
structure Reparsed where
  tree : Tree
  kept : Nat

/-- Joins the statements that stay with what is read behind the offset
`resume`. -/
def joinKept (old : Tree) (kept : List Node) (resume length : Nat) (rest : Tree) : Tree :=
  .ofNode (.spanning .sourceFile ⟨1, 1, 0⟩ length (kept ++ rest.root.children))
    rest.errors (old.trivia.filter (·.stop ≤ resume) ++ rest.trivia)

/-- Reads the text `source`, of which `old` is the tree, after an edit. -/
def reparse (old : Tree) (source : String) (e : Edit) (strict : Bool) (limit : Int) :
    Except Error Reparsed :=
  let edited := e.apply source
  let anew : Except Error Reparsed := do
    return ⟨← parse edited strict limit, 0⟩
  if !old.errors.isEmpty || old.root.hasError then anew
  else
    let kept := keptStatements source.toList e.start old.root.children
    match kept.getLast? with
    | none => anew
    | some last => do
      let resume := (separatorEnd? source.toList last).getD 0
      let cs := edited.toList
      let c := Cursor.atOffset edited resume (Text.lineAt cs resume) (Text.colAt cs resume)
      let rest ← (readFrom limit strict c).result
      return ⟨joinKept old kept resume cs.length rest, kept.length⟩

end StpLang
