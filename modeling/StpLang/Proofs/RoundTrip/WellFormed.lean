import StpLang.Grammar.Expression
import StpLang.Proofs.Schema.Basic
import StpLang.Token.Scan
import StpLang.Tree

/-!
Well-formed programs as trees.

A tree is well-formed when it obeys the schema, shows words that the lexer reads
as they are, and has the shape in which operators group. Nothing here refers to a
text from which the tree might come.

* `isName`, `isNumeral` and `isRemark` are the spellings of words.
* `Node.level` and `Node.reach` tell how tightly an expression binds.
* `segmented` says that the pieces of a string are those into which their text is
  cut.
* `Node.spelt` collects what a node has to show, and `Node.controlled` looks for
  the loop around a `break` or a `cont`.
* `Tree.WellFormed` puts the conditions together.
-/

namespace StpLang

open Grammar (rightLevel)

/-! ### Spellings -/

/-- A word that is not reserved. -/
def isName (s : String) : Bool :=
  match s.toList with
  | [] => false
  | x :: w => Scan.startsWord x && w.all Scan.continuesWord && TokenKind.ofWord s == .identifier

/-- Digits, perhaps with a fraction. -/
def isNumeral (s : String) : Bool :=
  s.toList.head?.any Char.isDigit && Scan.numberLength s.toList == s.toList.length

/-- A number and a percent sign. -/
def isPercentage (s : String) : Bool :=
  s.toList.getLast? == some '%' && isNumeral (String.ofList s.toList.dropLast)

/-- A comment on one line, without carriage returns at the end of the line. -/
def isRemark (s : String) : Bool :=
  s.toList.head? == some '#' && !s.toList.contains '\n' && s.toList.getLast? != some '\r'

/-- The kind of a mark or a word that can be an operator. -/
def TokenKind.ofSpelling? (s : String) : Option TokenKind :=
  (("mod", TokenKind.mod) :: (operators ++ keywords)).lookup s

/-! ### Operators -/

/-- The least level of the left operand: an operator that groups to the right
leaves its own level to the right operand. -/
def leftLevel (level : Nat) : Assoc → Nat
  | .left => level
  | .right => level + 1

namespace Node

/-- The operator that the node shows. -/
def operator? (n : Node) : Option TokenKind := n.value.bind TokenKind.ofSpelling?

/-- The level and the grouping of a binary expression; all others bind tighter. -/
def binding (n : Node) : Nat × Assoc :=
  match n.kind, n.children with
  | .binary, [_, op, _] => (op.operator?.bind TokenKind.binary?).getD (5, .left)
  | _, _ => (5, .left)

/-- How tightly an expression binds. -/
def level (n : Node) : Nat := n.binding.1

/-- Operators of this level and above behind an expression would go to its last
operand. -/
def reach (n : Node) : Nat := rightLevel n.binding.1 n.binding.2

mutual

/-- The text of the expression begins with the name `mod`. -/
def beginsWithMod : Node → Bool
  | ⟨kind, value, _, _, _, _, children, _⟩ =>
    match kind with
    | .identifier => value == some "mod"
    | .memberAccess | .binary | .suffix | .call => firstBeginsWithMod children
    | _ => false

/-- The text of the first expression begins with the name `mod`. -/
def firstBeginsWithMod : List Node → Bool
  | [] => false
  | n :: _ => n.beginsWithMod

end

/-! ### Strings -/

/-- The run of characters with which the text of some pieces begins. -/
def leadingChars : List Node → List Char
  | [] => []
  | n :: _ => if n.kind = .chars then (n.value.getD "").toList else []

/-- A piece of a string before others that begin with the characters `k`: a run
of characters ends where it must, and an escape takes as many digits as it
can. -/
def isPiece (n : Node) (k : List Char) : Bool :=
  match n.kind, (n.value.getD "").toList, n.children with
  | .chars, w, _ => !w.isEmpty && w.all Scan.isPlain && k.isEmpty
  | .escape, ['\\', x], _ => Scan.isSimpleEscape x
  | .unicodeEscape, '\\' :: 'x' :: w, [digits] =>
    Scan.escapeDigits? (Scan.hexLength (w ++ k)) == some w.length
      && digits.value == some (String.ofList w)
  | .octalEscape, '\\' :: w, _ => w.length == 3 && w.all Scan.isOctalDigit
  | .snippet, _, _ => true
  | _, _, _ => false

/-- The pieces are those into which their text is cut. -/
def segmented : List Node → Bool
  | [] => true
  | n :: ns => n.isPiece (leadingChars ns) && segmented ns

/-! ### Nodes -/

/-- The node shows words that are read as they are, and its operators group as
its children do. A percent sign behind a number makes a percentage, and only the
first element of a matrix row may begin with `mod`. -/
def spelt (n : Node) : Bool :=
  match n.kind, n.children with
  | .identifier, _ => n.value.any isName
  | .number, _ => n.value.any isNumeral
  | .percentage, _ => n.value.any isPercentage
  | .comment, _ => n.value.any isRemark
  | .binary, [lhs, op, rhs] =>
    (op.operator?.bind TokenKind.binary?).any fun (level, assoc) =>
      leftLevel level assoc ≤ lhs.level && rightLevel level assoc ≤ rhs.level
  | .unary, [op, _] => op.operator?.any (·.isUnary)
  | .suffix, [operand, op] =>
    op.operator?.any (·.isSuffix)
      && !(operand.kind == .number && op.operator? == some .percent)
  | .matrixRow, elements | .lastRow, elements => elements.tail.all (!·.beginsWithMod)
  | .string, pieces => segmented pieces
  | .error, _ => false
  | _, _ => true

mutual

/-- Every `break` and every `cont` of the subtree stands in the body of a loop of
the same function, where `inLoop` says that the subtree itself does. -/
def controlled (inLoop : Bool) : Node → Bool
  | ⟨kind, _, _, _, _, _, children, _⟩ =>
    match kind with
    | .breakStatement | .contStatement => inLoop
    | .whileLoop | .forLoop => allControlled true children
    | .functionDefinition => allControlled false children
    | _ => allControlled inLoop children

/-- Every `break` and every `cont` of the subtrees stands in a loop. -/
def allControlled (inLoop : Bool) : List Node → Bool
  | [] => true
  | n :: ns => n.controlled inLoop && allControlled inLoop ns

end

end Node

/-! ### Loops around a statement -/

/-- The children of a node of this kind stand in a loop, where `inLoop` says that
the node itself does. -/
def Kind.inLoop (kind : Kind) (inLoop : Bool) : Bool :=
  match kind with
  | .whileLoop | .forLoop => true
  | .functionDefinition => false
  | _ => inLoop

namespace Node

variable {n : Node} {ns : List Node} {kind : Kind} {value : Option String} {inLoop : Bool}

lemma allControlled_iff :
    allControlled inLoop ns = true ↔ ∀ c ∈ ns, c.controlled inLoop = true := by
  induction ns with
  | nil => simp [allControlled]
  | cons n ns ih => rw [allControlled, Bool.and_eq_true, ih, List.forall_mem_cons]

lemma Has.controlled (h : n.Has kind ns value) (hc : n.controlled inLoop = true)
    (hb : kind ≠ .breakStatement) (hd : kind ≠ .contStatement) :
    ∀ c ∈ ns, c.controlled (kind.inLoop inLoop) = true := by
  rw [← allControlled_iff]
  rw [h.eq] at hc
  unfold Node.controlled at hc
  cases kind <;> first | exact hc | exact absurd rfl hb | exact absurd rfl hd

/-- A loop stands around a loop control. -/
lemma Has.loop_around (h : n.Has kind ns value) (hc : n.controlled inLoop = true)
    (hk : kind = .breakStatement ∨ kind = .contStatement) : inLoop = true := by
  rw [h.eq] at hc
  unfold Node.controlled at hc
  rcases hk with rfl | rfl <;> exact hc

end Node

/-! ### Trees -/

/-- The tree of a well-formed program. -/
structure Tree.WellFormed (t : Tree) : Prop where
  root : t.root.kind = .sourceFile
  formed : t.root.Formed
  spelt : ∀ n ∈ t.root.walk, n.spelt = true
  controlled : t.root.controlled false = true

lemma Tree.wellFormed_iff (t : Tree) : t.WellFormed ↔ t.root.kind = .sourceFile ∧ t.root.Formed
    ∧ (∀ n ∈ t.root.walk, n.spelt = true) ∧ t.root.controlled false = true :=
  ⟨fun h => ⟨h.root, h.formed, h.spelt, h.controlled⟩, fun h => ⟨h.1, h.2.1, h.2.2.1, h.2.2.2⟩⟩

instance (t : Tree) : Decidable t.WellFormed := decidable_of_iff' _ t.wellFormed_iff

end StpLang
