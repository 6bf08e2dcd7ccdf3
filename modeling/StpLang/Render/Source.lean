import StpLang.Render.Fault
import StpLang.Tree

/-!
Trees as program text.

The text of a tree has one statement on a line, four blanks of indentation for
each block, one blank on either side of a binary operator and none around the
other operators. `elseif` and `else` stand on the line of the closing brace
before them.

* `expressionAs` is the text of an expression.
* A `Sheet` holds the lines written so far and the indentation; `statement`
  writes the lines of a statement on it.
* `Sheet.add` writes a tree, and `Sheet.output` is the text.
-/

namespace StpLang

/-- The position of the first child that bears a label. -/
def FieldTable.first? (table : FieldTable) (f : Field) : Option Nat :=
  (table.lookup f).bind List.head?

namespace Source

/-! ### Expressions -/

/-- The text of a value; a missing one has a name of its own. -/
def valueText (value : Option String) : String := value.getD "None"

/-- The text of the operator at a position. -/
def operatorAt (position : Option Nat) (children : List Node) :
    Except RenderFault String :=
  match position.bind (children[·]?) with
  | some n => .ok (valueText n.value)
  | none => .error .missingOperator

mutual

/-- The text of a node read as an expression of the given kind. -/
def expressionAs (kind : Kind) : Node → Except RenderFault String
  | ⟨_, value, _, _, _, _, children, fields⟩ =>
    match kind with
    | .identifier | .memberAccess | .number | .percentage | .operator =>
      return valueText value
    | .binary => do
      let lhs ← textAt (fields.first? .lhs) children
      let rhs ← textAt (fields.first? .rhs) children
      let op ← operatorAt (fields.first? .operator) children
      return lhs ++ " " ++ op ++ " " ++ rhs
    | .unary => do
      let op ← operatorAt (fields.first? .unaryOp) children
      return op ++ (← textAt (fields.first? .operand) children)
    | .suffix => do
      let operand ← textAt (fields.first? .operand) children
      return operand ++ (← operatorAt (fields.first? .operator) children)
    | .bracketed => do
      if children.isEmpty then .error .missingChild
      return "(" ++ (← textAt (some 0) children) ++ ")"
    | .range => return Text.join "..." (← texts children)
    | .matrix => return "[" ++ Text.join "; " (← rowTexts children) ++ "]"
    | .call => do
      let target ← textAt (fields.first? .fnName) children
      let positional ← textsBelow (fields.first? .posArgs) children
      let keyword ← textsBelow (fields.first? .keywordArgs) children
      return target ++ "(" ++ Text.join ", " (positional ++ keyword) ++ ")"
    | .keywordArg => do
      let name ← textAt (fields.first? .argumentName) children
      return name ++ "=" ++ (← textAt (fields.first? .argumentValue) children)
    | .string => do
      let segments := segmentTexts children
      let chosen ← ((fields.lookup .stringChars).getD []).mapM fun i =>
        (segments[i]?).getD (.ok "")
      return "\"" ++ String.join chosen ++ "\""
    | _ => .error (.noExpression kind.name)

/-- The text of the expression at a position. -/
def textAt (position : Option Nat) : List Node → Except RenderFault String
  | [] => .error .missingExpression
  | n :: ns =>
    match position with
    | none => .error .missingExpression
    | some 0 => expressionAs n.kind n
    | some (i + 1) => textAt (some i) ns

/-- The texts of expressions. -/
def texts : List Node → Except RenderFault (List String)
  | [] => return []
  | n :: ns => do
    let first ← expressionAs n.kind n
    return first :: (← texts ns)

/-- The texts of the expressions below the node at a position; none if there is
no such node. -/
def textsBelow (position : Option Nat) : List Node → Except RenderFault (List String)
  | [] => return []
  | ⟨_, _, _, _, _, _, children, _⟩ :: ns =>
    match position with
    | none => return []
    | some 0 => texts children
    | some (i + 1) => textsBelow (some i) ns

/-- The texts of the rows of a matrix. -/
def rowTexts : List Node → Except RenderFault (List String)
  | [] => return []
  | ⟨_, _, _, _, _, _, children, _⟩ :: ns => do
    let elements ← texts children
    return Text.join " " elements :: (← rowTexts ns)

/-- The texts of the segments of a string, each with its own outcome. -/
def segmentTexts : List Node → List (Except RenderFault String)
  | [] => []
  | ⟨kind, value, _, _, _, _, children, fields⟩ :: ns =>
    (if kind == .snippet then do
      return "\\\x7b" ++ (← textAt (fields.first? .formattingExpr) children) ++ "\\\x7d"
    else return valueText value)
      :: segmentTexts ns

end

/-- The text of an expression. -/
def expression (n : Node) : Except RenderFault String := expressionAs n.kind n

/-- The kinds that have a text as expressions. -/
def isExpression : Kind → Bool
  | .identifier | .memberAccess | .number | .percentage | .operator | .binary | .unary
  | .suffix | .bracketed | .range | .matrix | .call | .keywordArg | .string => true
  | _ => false

/-- A kind named `expr`, or `expr_` and the name of an expression, stands for
an expression that leaves no line. -/
def silent? : Kind → Option Kind
  | .other name =>
    if name == "expr" then some (.other name)
    else if name.startsWith "expr_" then
      let kind := Kind.ofName (String.ofList (name.toList.drop 5))
      if isExpression kind then some kind else none
    else none
  | _ => none

/-! ### Sheets -/

/-- Lines of text, and the indentation of the next one. -/
structure Sheet where
  /-- The lines written, the latest first. -/
  lines : List String := []
  /-- The number of blocks around the next line. -/
  indent : Nat := 0
deriving DecidableEq, Repr

/-- A step of writing. -/
abbrev Write := StateT Sheet (Except RenderFault)

/-- Writes a line. -/
def line (text : String) : Write Unit :=
  modify fun s => { s with lines := (Text.blanks (4 * s.indent) ++ text) :: s.lines }

/-- Continues the latest line, or writes the first one. -/
def attach (text : String) : Write Unit := do
  match (← get).lines with
  | l :: ls => modify fun s => { s with lines := (l ++ " " ++ text) :: ls }
  | [] => line text

/-- Writes the lines of a block one step further in, then its closing brace. -/
def closing (body : Write Unit) : Write Unit := do
  modify fun s => { s with indent := s.indent + 1 }
  body
  modify fun s => { s with indent := s.indent - 1 }
  line "\x7d"

/-- Writes a block below its header. -/
def block (header : String) (body : Write Unit) : Write Unit := do
  line (header ++ " \x7b")
  closing body

/-- Writes a block whose header stands on the line of the brace before it. -/
def attached (header : String) (body : Write Unit) : Write Unit := do
  attach (header ++ " \x7b")
  closing body

/-! ### Statements -/

mutual

/-- Writes a statement. -/
def statement : Node → Write Unit
  | ⟨kind, value, l, c, start, stop, children, fields⟩ =>
    match kind with
    | .sourceFile => statements children
    | .comment => line (valueText value)
    | .error => line ("# error: " ++ valueText value)
    | .assignment => do
      let name ← textAt (fields.first? .assignName) children
      let e ← textAt (fields.first? .assignExpr) children
      line (name ++ " = " ++ e ++ value.getD "")
    | .expressionStatement => do
      if children.isEmpty then throw .missingChild
      line ((← textAt (some 0) children) ++ value.getD "")
    | .symbolDeclaration => do
      line ("sym " ++ (← textAt (fields.first? .symName) children))
    | .ifStatement => do
      let condition ← textAt (fields.first? .condition) children
      block ("if " ++ condition) (statementsBelow (fields.first? .body) children)
      clauses 2 children
    | .whileLoop => do
      let condition ← textAt (fields.first? .loopExpr) children
      block ("while " ++ condition) (statementsBelow (fields.first? .loopBody) children)
    | .forLoop => do
      let name ← textAt (fields.first? .loopVar) children
      let e ← textAt (fields.first? .loopExpr) children
      block ("for " ++ name ++ " in " ++ e)
        (statementsBelow (fields.first? .loopBody) children)
    | .functionDefinition => do
      let name ← textAt (fields.first? .fnName) children
      let positional ← textsBelow (fields.first? .posArgs) children
      let keyword ← textsBelow (fields.first? .keywordArgs) children
      block ("fn " ++ name ++ "(" ++ Text.join ", " (positional ++ keyword) ++ ")")
        (statementsBelow (fields.first? .fnBody) children)
    | .importStatement => do
      line ("import " ++ (← textAt (fields.first? .moduleName) children))
    | .returnStatement => do
      line ("ret " ++ (← textAt (fields.first? .retExpr) children))
    | .breakStatement => line "break"
    | .contStatement => line "cont"
    | .exitStatement => line "exit"
    | _ => do
      let n : Node := ⟨kind, value, l, c, start, stop, children, fields⟩
      match silent? kind with
      | some k => discard (expressionAs k n : Except RenderFault String)
      | none =>
        if isExpression kind then line (← expression n)
        else throw (.noStatement kind.name)

/-- Writes statements. -/
def statements : List Node → Write Unit
  | [] => return ()
  | n :: ns => do
    statement n
    statements ns

/-- Writes the statements below the node at a position; none if there is no
such node. -/
def statementsBelow (position : Option Nat) : List Node → Write Unit
  | [] => return ()
  | ⟨_, _, _, _, _, _, children, _⟩ :: ns =>
    match position with
    | none => return ()
    | some 0 => statements children
    | some (i + 1) => statementsBelow (some i) ns

/-- Writes the clauses of an `if` behind the first `skipped` nodes. -/
def clauses (skipped : Nat) : List Node → Write Unit
  | [] => return ()
  | ⟨kind, _, _, _, _, _, children, fields⟩ :: ns =>
    match skipped with
    | k + 1 => clauses k ns
    | 0 => do
      if kind == .elseifClause then
        let condition ← textAt (fields.first? .condition) children
        attached ("elseif " ++ condition) (statementsBelow (fields.first? .body) children)
      else attached "else" (statementsBelow (fields.first? .body) children)
      clauses 0 ns

end

/-! ### Whole trees -/

/-- The kinds that can stand at the root. -/
def isRoot (kind : Kind) : Bool :=
  match kind with
  | .sourceFile | .comment | .error | .assignment | .expressionStatement
  | .symbolDeclaration | .ifStatement | .whileLoop | .forLoop | .functionDefinition
  | .importStatement | .returnStatement | .breakStatement | .contStatement
  | .exitStatement => true
  | _ => (silent? kind).isSome

/-- The text on a sheet; every line ends with a line feed. -/
def Sheet.output (s : Sheet) : String := String.join (s.lines.reverse.map (· ++ "\n"))

/-- Writes the statements of a program below what is on the sheet. -/
def Sheet.add (s : Sheet) (t : Tree) : Except RenderFault Sheet :=
  return ((← (statements t.root.children).run s)).2

end Source

end StpLang
