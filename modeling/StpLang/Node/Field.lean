import StpLang.Text.Quoted

/-!
Fields: the labels that a node gives to its children.

Tools ask a node for its children by these names, so the names are part of the
language.

* `Field.name` is the public name of a label and `Field.ofName?` reads it.
* A `FieldTable` lists the labels of one node with the positions of the
  children that bear them; `FieldTable.same` compares tables without regard to
  the order of their labels.
-/

namespace StpLang

/-- A label of a child. -/
inductive Field where
  | symName | retExpr | loopVar | loopExpr | loopBody | fnName | fnBody
  | posArgs | keywordArgs | argumentName | argumentValue | start | step
  | stop | operator | unaryOp | operand | lhs | rhs | stringChars
  | formattingExpr | hexDigits | condition | body | assignName | assignExpr
  | moduleName
deriving DecidableEq, Repr

namespace Field

/-- The public name of a label. -/
def name : Field → String
  | .symName => "sym_name"
  | .retExpr => "ret_expr"
  | .loopVar => "loop_var"
  | .loopExpr => "loop_expr"
  | .loopBody => "loop_body"
  | .fnName => "fn_name"
  | .fnBody => "fn_body"
  | .posArgs => "pos_args"
  | .keywordArgs => "keyword_args"
  | .argumentName => "argument_name"
  | .argumentValue => "argument_value"
  | .start => "start"
  | .step => "step"
  | .stop => "end"
  | .operator => "operator"
  | .unaryOp => "unary_op"
  | .operand => "operand"
  | .lhs => "lhs"
  | .rhs => "rhs"
  | .stringChars => "string_chars"
  | .formattingExpr => "formatting_expr"
  | .hexDigits => "hex_digits"
  | .condition => "condition"
  | .body => "body"
  | .assignName => "assign_name"
  | .assignExpr => "assign_expr"
  | .moduleName => "module_name"

/-- All labels. -/
def all : List Field :=
  [
    .symName, .retExpr, .loopVar, .loopExpr, .loopBody, .fnName, .fnBody,
    .posArgs, .keywordArgs, .argumentName, .argumentValue, .start, .step,
    .stop, .operator, .unaryOp, .operand, .lhs, .rhs, .stringChars,
    .formattingExpr, .hexDigits, .condition, .body, .assignName, .assignExpr,
    .moduleName]

/-- The label of a public name. -/
def ofName? (n : String) : Option Field := all.find? (·.name == n)

/-- The wording for a name that is no label. -/
def unknownMessage (n : String) : String := Text.quoted n ++ " is not a valid Field"

end Field

/-- The labels of a node, in the order in which they were attached, each with
the positions of the children that bear it. -/
abbrev FieldTable := List (Field × List Nat)

namespace FieldTable

/-- The table with the label `f` at `positions`; a label that is there already
keeps its place. -/
def insert (f : Field) (positions : List Nat) : FieldTable → FieldTable
  | [] => [(f, positions)]
  | (g, ps) :: table =>
    if g = f then (f, positions) :: table else (g, ps) :: insert f positions table

/-- Two tables attach the same labels at the same positions. -/
def same (a b : FieldTable) : Bool :=
  a.length == b.length && a.all fun (f, ps) => b.lookup f == some ps

/-- The first label that the child at position `i` bears. -/
def labelOf? (table : FieldTable) (i : Nat) : Option Field :=
  (table.find? (·.2.contains i)).map (·.1)

end FieldTable

end StpLang
