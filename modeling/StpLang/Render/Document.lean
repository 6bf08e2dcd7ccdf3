import StpLang.Json
import StpLang.Tree

/-!
Trees as JSON documents.

A node becomes an object with its kind, text, place, range and children, and
its labels if it has any. The document of a tree also lists the errors, if
there are any.
-/

namespace StpLang

/-- A field table as an object of positions. -/
def FieldTable.toJson (table : FieldTable) : Json :=
  .object (table.map fun (f, positions) => (f.name, .list (positions.map .number)))

namespace Node

mutual

/-- The members of the object of a node. -/
def members : Node → List (String × Json)
  | ⟨kind, value, line, col, start, stop, children, fields⟩ =>
    [("kind", .text kind.name), ("value", (value.map Json.text).getD .null),
      ("line", .number line), ("col", .number col), ("start", .number start),
      ("end", .number stop), ("children", .list (documents children))]
      ++ if fields.isEmpty then [] else [("fields", fields.toJson)]

/-- The objects of several nodes. -/
def documents : List Node → List Json
  | [] => []
  | n :: ns => .object (members n) :: documents ns

end

/-- The document of a node. -/
def toJson (n : Node) : Json := .object n.members

end Node

/-- The document of an error. -/
def Error.toJson (e : Error) : Json :=
  .object [("kind", .text e.category.label), ("message", .text e.message),
    ("line", .number e.span.line), ("col", .number e.span.col),
    ("start", .number e.span.start), ("end", .number e.span.stop)]

/-- The document of a tree. -/
def Tree.toJson (t : Tree) : Json :=
  .object (t.root.members
    ++ if t.errors.isEmpty then [] else [("errors", .list (t.errors.map Error.toJson))])

end StpLang
