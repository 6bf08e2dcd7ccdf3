import StpLang.Node.Field
import StpLang.Node.Kind
import StpLang.Text.Line
import StpLang.Token.Basic

/-!
Nodes of the syntax tree.

A node has a kind, its children in the order of the source, a table that labels
some of them, and for leaves and a few others a text. It records the place of
its first character and its range.

* `Node.field?` and `Node.labelled` find children by their label.
* `Node.levels` lists a node and everything below it with its depth, a parent
  before its children.
* `Node.height` counts the levels.
* `Node.agrees` compares two nodes, with or without their places.
-/

namespace StpLang

/-- A node of the syntax tree. -/
structure Node where
  kind : Kind
  /-- The text of a leaf, or the semicolon that ends a statement. -/
  value : Option String := none
  line : Nat := 0
  col : Nat := 0
  start : Nat := 0
  stop : Nat := 0
  children : List Node := []
  fields : FieldTable := []
deriving Repr, Inhabited

namespace Node

/-- The leaf that a token becomes. -/
def leaf (kind : Kind) (t : Token) : Node :=
  { kind, value := some t.value, line := t.line, col := t.col
    start := t.start, stop := t.stop }

/-! ### Labels -/

/-- The children that bear a label. -/
def labelled (n : Node) (f : Field) : List Node :=
  ((n.fields.lookup f).getD []).filterMap (n.children[·]?)

/-- The first child that bears a label. -/
def field? (n : Node) (f : Field) : Option Node := (n.labelled f).head?

/-- The labels in use. -/
def fieldNames (n : Node) : List String := n.fields.map (·.1.name)

/-! ### The whole subtree -/

mutual

/-- The number of levels of the subtree. -/
def height : Node → Nat
  | ⟨_, _, _, _, _, _, children, _⟩ => 1 + maxHeight children

/-- The greatest number of levels below the given nodes, zero for none. -/
def maxHeight : List Node → Nat
  | [] => 0
  | n :: ns => max n.height (maxHeight ns)

end

mutual

/-- The nodes of the subtree with their depths, where the root has depth `d`;
a parent comes before its children. -/
def levels (d : Nat) : Node → List (Nat × Node)
  | ⟨kind, value, line, col, start, stop, children, fields⟩ =>
    (d, ⟨kind, value, line, col, start, stop, children, fields⟩)
      :: levelsBelow (d + 1) children

/-- The nodes of several subtrees with their depths. -/
def levelsBelow (d : Nat) : List Node → List (Nat × Node)
  | [] => []
  | n :: ns => levels d n ++ levelsBelow d ns

end

/-- The nodes of the subtree, a parent before its children. -/
def walk (n : Node) : List Node := (n.levels 0).map (·.2)

/-- The subtree holds a node that stands for an error. -/
def hasError (n : Node) : Bool := n.walk.any (·.kind == .error)

/-- The child at a position; a negative position counts from the end. -/
def child? (n : Node) (i : Int) : Option Node :=
  let index := if i < 0 then i + n.children.length else i
  if index < 0 then none else n.children[index.toNat]?

/-- The node reached by taking children at the given positions. -/
def descend? : List Int → Node → Option Node
  | [], n => some n
  | i :: path, n => n.child? i >>= descend? path

/-- The range of the node in a source text. -/
def text (n : Node) (source : String) : String :=
  String.ofList (Text.slice source.toList n.start n.stop)

/-! ### Comparison -/

mutual

/-- Two nodes agree on kind, text, children and labels, and with `places` also
on line and column. The ends of ranges do not count. -/
def agrees (places : Bool) : Node → Node → Bool
  | ⟨k, v, l, c, _, _, cs, fs⟩, ⟨k', v', l', c', _, _, cs', fs'⟩ =>
    k == k' && v == v' && (!places || (l == l' && c == c')) && fs.same fs'
      && allAgree places cs cs'

/-- The nodes of two lists agree pairwise. -/
def allAgree (places : Bool) : List Node → List Node → Bool
  | [], [] => true
  | n :: ns, m :: ms => agrees places n m && allAgree places ns ms
  | [], _ :: _ => false
  | _ :: _, [] => false

end

/-- Two nodes agree on everything but the ends of ranges. -/
def same (a b : Node) : Bool := agrees true a b

/-- Two nodes agree on everything but places. -/
def sameStructure (a b : Node) : Bool := agrees false a b

/-! ### Printed form -/

/-- A list of quoted words in brackets. -/
def bracketedWords (ws : List String) : String :=
  "[" ++ Text.join ", " (ws.map Text.quoted) ++ "]"

mutual

/-- The printed form of a node shows its kind, its text, its labels and its
first three children. -/
def describe : Node → String
  | ⟨kind, value, _, _, _, _, children, fields⟩ =>
    let text := (value.map fun v => ", value=" ++ Text.quoted v).getD ""
    let labels :=
      if fields.isEmpty then ""
      else ", fields=" ++ bracketedWords (fields.map (·.1.name))
    let shown := Text.join ", " (describeFirst 3 children)
    let more := if children.length > 3 then ", ..." else ""
    let below := if children.isEmpty then "" else ", children=[" ++ shown ++ more ++ "]"
    "ASTNode(" ++ kind.name ++ text ++ labels ++ below ++ ")"

/-- The printed forms of the first `k` nodes. -/
def describeFirst : Nat → List Node → List String
  | 0, _ => []
  | _, [] => []
  | k + 1, n :: ns => describe n :: describeFirst k ns

end

/-! ### Laws -/

/-- A node stands one level above the highest of its children. -/
theorem height_eq (n : Node) : n.height = 1 + maxHeight n.children := by
  cases n; rw [height]

end Node

end StpLang
