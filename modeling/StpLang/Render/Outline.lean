import StpLang.Tree

/-!
Trees as outlines.

Every node stands on a line of its own, two blanks to the right of its parent,
with its label, its kind and its text. The errors follow the nodes.
-/

namespace StpLang.Outline

/-- The line of a node at a depth. -/
def line (depth : Nat) (label : Option Field) (n : Node) : String :=
  Text.blanks (2 * depth) ++ (label.map (·.name ++ ": ")).getD ""
    ++ "'" ++ n.kind.name ++ "'" ++ (n.value.map (" : \"" ++ · ++ "\"")).getD ""

mutual

/-- The lines of a node and of everything below it. -/
def nodeLines (depth : Nat) (label : Option Field) : Node → List String
  | ⟨kind, value, _, _, _, _, children, fields⟩ =>
    line depth label { kind, value } :: childLines (depth + 1) fields 0 children

/-- The lines of children from position `i` on, labelled by the table of their
parent. -/
def childLines (depth : Nat) (fields : FieldTable) (i : Nat) : List Node → List String
  | [] => []
  | n :: ns =>
    nodeLines depth (fields.labelOf? i) n ++ childLines depth fields (i + 1) ns

end

/-- The line of an error. -/
def errorLine (e : Error) : String := e.category.label ++ ": " ++ e.summary

/-- The lines of a tree. -/
def lines (t : Tree) : List String :=
  nodeLines 0 none t.root ++ t.errors.map errorLine

end StpLang.Outline
