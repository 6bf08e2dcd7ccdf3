import StpLang.Error
import StpLang.Node.Basic

/-!
The outcome of reading a program.

A `Tree` is the root node together with the errors that were met on the way and
the comments that the grammar passes over, those within parentheses and
brackets.
-/

namespace StpLang

/-- A program that has been read. -/
structure Tree where
  /-- The node of the whole program. -/
  root : Node
  /-- The number of levels counted when the statements had been read; a node
  added afterwards for text that could not be read does not count. -/
  height : Nat
  /-- The errors, in the order in which they were met. -/
  errors : List Error := []
  /-- The comments within parentheses, brackets and snippets. -/
  trivia : List Node := []

namespace Tree

/-- The tree of a finished node. -/
def ofNode (root : Node) (errors : List Error := []) (trivia : List Node := []) : Tree :=
  { root, height := root.height, errors, trivia }

/-- The tree below the node at a path; errors belong to the root. -/
def descend? (t : Tree) : List Int → Option Tree
  | [] => some t
  | path => (Node.descend? path t.root).map fun n => ofNode n

end Tree

end StpLang
