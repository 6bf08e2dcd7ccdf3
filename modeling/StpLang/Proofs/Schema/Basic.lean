import StpLang.Grammar.Parser
import StpLang.Proofs.Node

/-!
The schema of the syntax tree.

The kind of a node prescribes which children it has, in which order and how many,
which labels they bear, and what text the node shows.

* `Slot` describes one place in a row of children and `fill` tells whether nodes
  fill a row of slots.
* `Kind.parts`, `Kind.labels` and `Node.worded` are the three tables of the schema.
* `Node.Obeys` says that a node has what its kind prescribes, `Node.Has` what this
  is, and `Node.Formed` that every node of a subtree obeys.
* `Node.Obeys.parent_of_entry`: statements stand in programs and blocks only.
* `Kind.isInert` names the kinds of nodes of which no statement is a part, and
  `Node.Formed.isInert_of_mem_walk` looks at what lies below them.
* `Slot.fill_one_inv`, `Slot.fill_optional_inv` and `Slot.fill_many_inv` take the
  children of a node apart, `Node.Obeys.has` and its variants the node.
-/

namespace StpLang

/-! ### Classes of kinds -/

namespace Kind

/-- Operands with their suffix operators. -/
def isOperand : Kind → Bool
  | .memberAccess | .number | .percentage | .suffix | .bracketed | .range | .matrix | .call
  | .string => true
  | _ => false

/-- Operands with their prefix and suffix operators. -/
def isTerm (k : Kind) : Bool := k == .unary || k.isOperand

/-- Expressions. -/
def isExpression (k : Kind) : Bool := k == .binary || k.isTerm

/-- Pieces of strings. -/
def isSegment : Kind → Bool
  | .chars | .escape | .unicodeEscape | .octalEscape | .snippet => true
  | _ => false

/-- Statements. -/
def isStatement : Kind → Bool
  | .comment | .assignment | .expressionStatement | .symbolDeclaration | .ifStatement
  | .whileLoop | .forLoop | .functionDefinition | .importStatement | .returnStatement
  | .breakStatement | .contStatement | .exitStatement => true
  | _ => false

/-- What stands in programs and blocks: statements, and errors in their place. -/
def isEntry (k : Kind) : Bool := k.isStatement || k == .error

lemma isTerm_of_isOperand {k : Kind} (h : k.isOperand = true) : k.isTerm = true := by
  rw [isTerm, h, Bool.or_true]

lemma isExpression_of_isTerm {k : Kind} (h : k.isTerm = true) : k.isExpression = true := by
  rw [isExpression, h, Bool.or_true]

lemma isEntry_of_isStatement {k : Kind} (h : k.isStatement = true) : k.isEntry = true := by
  rw [isEntry, h, Bool.true_or]

end Kind

/-! ### Slots -/

/-- A place in a row of children, for nodes that pass a test. -/
inductive Slot where
  /-- Exactly one node. -/
  | one (test : Node → Bool)
  /-- One node or none. -/
  | optional (test : Node → Bool)
  /-- As many nodes as pass the test. -/
  | many (test : Node → Bool)

namespace Slot

/-- The nodes that the slot takes. -/
def test : Slot → Node → Bool
  | .one p | .optional p | .many p => p

/-- The nodes fill the slots one after another. -/
def fill : List Slot → List Node → Bool
  | [], ns => ns.isEmpty
  | .one _ :: _, [] => false
  | .one p :: slots, n :: ns => p n && fill slots ns
  | .optional _ :: slots, [] => fill slots []
  | .optional p :: slots, n :: ns => fill slots (n :: ns) || (p n && fill slots ns)
  | .many p :: slots, ns => fill slots (ns.dropWhile p)

variable {p q : Node → Bool} {slots : List Slot} {n : Node} {ns : List Node}

@[simp] lemma fill_nil : fill [] ns = ns.isEmpty := by rw [fill]

@[simp] lemma fill_one_nil : fill (.one p :: slots) [] = false := by rw [fill]

@[simp] lemma fill_one_cons : fill (.one p :: slots) (n :: ns) = (p n && fill slots ns) := by
  rw [fill]

@[simp] lemma fill_optional_nil : fill (.optional p :: slots) [] = fill slots [] := by rw [fill]

@[simp] lemma fill_optional_cons :
    fill (.optional p :: slots) (n :: ns) = (fill slots (n :: ns) || (p n && fill slots ns)) := by
  rw [fill]

lemma fill_many : fill (.many p :: slots) ns = fill slots (ns.dropWhile p) := by rw [fill]

@[simp] lemma fill_many_nil : fill (.many p :: slots) [] = fill slots [] := by
  rw [fill_many, List.dropWhile_nil]

/-- A slot for many nodes takes one more. -/
lemma fill_many_cons (h : p n = true) :
    fill (.many p :: slots) (n :: ns) = fill (.many p :: slots) ns := by
  rw [fill_many, fill_many, List.dropWhile_cons_of_pos h]

/-- A slot for many nodes is left empty. -/
lemma fill_many_of_neg (h : p n = false) :
    fill (.many p :: slots) (n :: ns) = fill slots (n :: ns) := by
  rw [fill_many, List.dropWhile_cons_of_neg (by rw [h]; decide)]

/-- All nodes fill a last slot for many when they pass its test. -/
@[simp] lemma fill_many_iff : fill [.many p] ns = true ↔ ∀ n ∈ ns, p n = true := by
  induction ns with
  | nil => simp
  | cons n ns ih =>
    rw [List.forall_mem_cons]
    by_cases h : p n = true
    · rw [fill_many_cons h, ih, and_iff_right h]
    · rw [fill_many_of_neg (by simpa using h), fill_nil]
      simp [h]

/-- Every node stands in a slot that takes it. -/
lemma exists_of_fill (h : fill slots ns = true) (hn : n ∈ ns) :
    ∃ slot ∈ slots, slot.test n = true := by
  induction slots generalizing ns with
  | nil =>
    rw [fill_nil, List.isEmpty_iff] at h
    rw [h] at hn
    cases hn
  | cons slot slots ih =>
    have later {ms : List Node} (hf : fill slots ms = true) (hm : n ∈ ms) :
        ∃ s ∈ slot :: slots, s.test n = true := by
      obtain ⟨s, hs, ht⟩ := ih hf hm
      exact ⟨s, List.mem_cons_of_mem _ hs, ht⟩
    have here (ht : slot.test n = true) : ∃ s ∈ slot :: slots, s.test n = true :=
      ⟨slot, List.mem_cons_self, ht⟩
    cases slot with
    | many p =>
      rw [fill_many] at h
      rw [← List.takeWhile_append_dropWhile (p := p) (l := ns), List.mem_append] at hn
      rcases hn with hn | hn
      · exact here (List.all_eq_true.mp List.all_takeWhile n hn)
      · exact later h hn
    | one p =>
      cases ns with
      | nil => cases hn
      | cons m ms =>
        rw [fill_one_cons, Bool.and_eq_true] at h
        rcases List.mem_cons.mp hn with rfl | hn
        · exact here h.1
        · exact later h.2 hn
    | optional p =>
      cases ns with
      | nil => cases hn
      | cons m ms =>
        rw [fill_optional_cons, Bool.or_eq_true, Bool.and_eq_true] at h
        rcases h with h | ⟨hp, h⟩
        · exact later h hn
        · rcases List.mem_cons.mp hn with rfl | hn
          · exact here hp
          · exact later h hn

end Slot

/-! ### The tables -/

namespace Node

/-- The node is of a kind. -/
def is (k : Kind) (n : Node) : Bool := n.kind == k

/-- The node is of a class of kinds. -/
def of (p : Kind → Bool) (n : Node) : Bool := p n.kind

/-- The node is of a kind and its children are of a class of kinds. -/
def holding (k : Kind) (p : Kind → Bool) (n : Node) : Bool :=
  n.kind == k && n.children.all fun c => p c.kind

end Node

open Node Slot

/-- The children of the nodes of each kind. -/
def Kind.parts : Kind → List Slot
  | .sourceFile | .block => [.many (of isEntry)]
  | .assignment | .keywordArg => [.one (is .identifier), .one (of isExpression)]
  | .expressionStatement | .returnStatement | .bracketed | .snippet => [.one (of isExpression)]
  | .symbolDeclaration => [.one (is .identifier)]
  | .importStatement => [.one (is .memberAccess)]
  | .ifStatement =>
    [.one (of isExpression), .one (is .block), .many (is .elseifClause),
      .optional (is .elseClause)]
  | .elseifClause | .whileLoop => [.one (of isExpression), .one (is .block)]
  | .elseClause => [.one (is .block)]
  | .forLoop => [.one (is .identifier), .one (of isExpression), .one (is .block)]
  | .functionDefinition =>
    [.one (is .identifier), .one (holding .positionalArgs (· == .identifier)),
      .one (is .keywordArgs), .one (is .block)]
  | .positionalArgs => [.many (of fun k => k == .identifier || k.isExpression)]
  | .keywordArgs => [.many (is .keywordArg)]
  | .memberAccess => [.one (is .identifier), .many (is .identifier)]
  | .binary => [.one (of isExpression), .one (is .operator), .one (of isExpression)]
  | .unary => [.one (is .operator), .one (of isTerm)]
  | .suffix => [.one (of isOperand), .one (is .operator)]
  | .range => [.one (is .number), .optional (is .number), .one (is .number)]
  | .matrix => [.many (is .matrixRow), .one (is .lastRow)]
  | .matrixRow | .lastRow => [.one (of isExpression), .many (of isExpression)]
  | .call =>
    [.one (is .memberAccess), .one (holding .positionalArgs isExpression), .one (is .keywordArgs)]
  | .string => [.many (of isSegment)]
  | .unicodeEscape => [.one (is .hexDigits)]
  | .comment | .error | .breakStatement | .contStatement | .exitStatement | .identifier | .number
  | .percentage | .operator | .chars | .escape | .octalEscape | .hexDigits => []
  | .other _ => [.one fun _ => false]

/-- The labels of a node of each kind with a number of children. -/
def Kind.labels : Kind → Nat → FieldTable
  | .assignment, _ => [(.assignName, [0]), (.assignExpr, [1])]
  | .symbolDeclaration, _ => [(.symName, [0])]
  | .importStatement, _ => [(.moduleName, [0])]
  | .returnStatement, _ => [(.retExpr, [0])]
  | .ifStatement, _ | .elseifClause, _ => [(.condition, [0]), (.body, [1])]
  | .elseClause, _ => [(.body, [0])]
  | .whileLoop, _ => [(.loopExpr, [0]), (.loopBody, [1])]
  | .forLoop, _ => [(.loopVar, [0]), (.loopExpr, [1]), (.loopBody, [2])]
  | .functionDefinition, _ =>
    [(.fnName, [0]), (.posArgs, [1]), (.keywordArgs, [2]), (.fnBody, [3])]
  | .keywordArg, _ => [(.argumentName, [0]), (.argumentValue, [1])]
  | .binary, _ => [(.lhs, [0]), (.operator, [1]), (.rhs, [2])]
  | .unary, _ => [(.unaryOp, [0]), (.operand, [1])]
  | .suffix, _ => [(.operand, [0]), (.operator, [1])]
  | .range, 3 => [(.start, [0]), (.step, [1]), (.stop, [2])]
  | .range, _ => [(.start, [0]), (.stop, [1])]
  | .call, _ => [(.fnName, [0]), (.posArgs, [1]), (.keywordArgs, [2])]
  | .string, n => [(.stringChars, List.range n)]
  | .unicodeEscape, _ => [(.hexDigits, [0])]
  | .snippet, _ => [(.formattingExpr, [0])]
  | _, _ => []

/-- The node shows the text that its kind prescribes: several names are joined by
dots, a statement may show the semicolon that ends it, and a word its spelling. -/
def Node.worded (n : Node) : Bool :=
  match n.kind with
  | .memberAccess => n.value == some (Text.join "." (n.children.map (·.value.getD "")))
  | .assignment | .expressionStatement => n.value == none || n.value == some ";"
  | .breakStatement => n.value == some "break"
  | .contStatement => n.value == some "cont"
  | .exitStatement => n.value == some "exit"
  | .comment | .error | .identifier | .number | .percentage | .operator | .chars | .escape
  | .unicodeEscape | .octalEscape | .hexDigits => n.value.isSome
  | _ => n.value.isNone

/-- The labels of a node agree with themselves. -/
lemma Kind.same_labels (kind : Kind) (i : Nat) : (kind.labels i).same (kind.labels i) = true := by
  cases kind with
  | range =>
    unfold labels
    split <;> first | decide | simp_all
  | string => simp [labels, FieldTable.same]
  | _ => rfl

/-! ### Nodes that obey the schema -/

namespace Node

/-- The node has the children, the labels and the text that its kind prescribes. -/
structure Obeys (n : Node) : Prop where
  parts : fill n.kind.parts n.children = true
  labels : n.fields = n.kind.labels n.children.length
  text : n.worded = true

lemma obeys_iff (n : Node) : n.Obeys ↔ fill n.kind.parts n.children = true
    ∧ n.fields = n.kind.labels n.children.length ∧ n.worded = true :=
  ⟨fun h => ⟨h.parts, h.labels, h.text⟩, fun h => ⟨h.1, h.2.1, h.2.2⟩⟩

instance (n : Node) : Decidable n.Obeys := decidable_of_iff' _ n.obeys_iff

/-- The node is of a kind and has the given children, with the labels that the
schema prescribes, and the given text. -/
structure Has (n : Node) (k : Kind) (ns : List Node) (v : Option String) : Prop where
  kind : n.kind = k
  children : n.children = ns
  fields : n.fields = k.labels ns.length
  value : n.value = v

/-- A node up to its place. -/
lemma Has.eq {n : Node} {kind : Kind} {ns : List Node} {value : Option String}
    (h : n.Has kind ns value) :
    n = ⟨kind, value, n.line, n.col, n.start, n.stop, ns, kind.labels ns.length⟩ := by
  obtain ⟨hkind, hns, hfields, hvalue⟩ := h
  cases n
  dsimp only at hkind hns hfields hvalue
  rw [hkind, hns, hfields, hvalue]

/-- Every node of the subtree obeys the schema. -/
def Formed (n : Node) : Prop := ∀ m ∈ n.walk, m.Obeys

instance (n : Node) : Decidable n.Formed := inferInstanceAs (Decidable (∀ m ∈ n.walk, m.Obeys))

variable {n : Node}

lemma formed_iff : n.Formed ↔ n.Obeys ∧ ∀ c ∈ n.children, c.Formed := n.forall_mem_walk

/-- The children of a node that obeys the schema fill the slots of its kind. -/
lemma Formed.fills {kind : Kind} {p : Place} {stop : Nat} {cs : List Node} {fields : FieldTable}
    {value : Option String} (h : (spanning kind p stop cs fields value).Formed) :
    fill kind.parts cs = true ∧ ∀ c ∈ cs, c.Formed :=
  ⟨(formed_iff.mp h).1.parts, (formed_iff.mp h).2⟩

/-- A slot of a kind that is no program and no block takes no statement. -/
lemma test_eq_false {c : Node} (hc : c.kind.isEntry = true) {k : Kind} (h1 : k ≠ .sourceFile)
    (h2 : k ≠ .block) : ∀ slot ∈ k.parts, slot.test c = false := by
  have hclass : c.kind.isExpression = false ∧ c.kind.isTerm = false ∧ c.kind.isOperand = false
      ∧ c.kind.isSegment = false := by
    generalize c.kind = j at hc
    cases j with
    | comment | error | assignment | expressionStatement | symbolDeclaration | ifStatement
    | whileLoop | forLoop | functionDefinition | importStatement | returnStatement
    | breakStatement | contStatement | exitStatement => exact ⟨rfl, rfl, rfl, rfl⟩
    | _ => cases hc
  obtain ⟨hexpr, hterm, hoperand, hsegment⟩ := hclass
  have hne (j : Kind) (hj : j.isEntry = false) : (c.kind == j) = false := by
    rw [beq_eq_false_iff_ne]
    rintro rfl
    rw [hc] at hj
    cases hj
  cases k with
  | sourceFile => exact absurd rfl h1
  | block => exact absurd rfl h2
  | _ =>
    simp [Kind.parts, Slot.test, of, is, holding, hexpr, hterm, hoperand, hsegment,
      hne .identifier rfl, hne .memberAccess rfl, hne .number rfl, hne .operator rfl,
      hne .positionalArgs rfl, hne .keywordArgs rfl, hne .keywordArg rfl, hne .block rfl,
      hne .elseifClause rfl, hne .elseClause rfl, hne .matrixRow rfl, hne .lastRow rfl,
      hne .hexDigits rfl]

/-- Statements, and errors in their place, stand in programs and blocks only. -/
lemma Obeys.parent_of_entry (h : n.Obeys) {c : Node} (hc : c ∈ n.children)
    (hk : c.kind.isEntry = true) : n.kind = .sourceFile ∨ n.kind = .block := by
  obtain ⟨slot, hs, ht⟩ := exists_of_fill h.parts hc
  by_cases h1 : n.kind = .sourceFile
  · exact .inl h1
  by_cases h2 : n.kind = .block
  · exact .inr h2
  rw [test_eq_false hk h1 h2 slot hs] at ht
  cases ht

end Node

/-! ### Nodes without statements -/

/-- The kinds of nodes of which no statement is a part. -/
def Kind.isInert : Kind → Bool
  | .sourceFile | .block | .ifStatement | .elseifClause | .elseClause | .whileLoop | .forLoop
  | .functionDefinition | .breakStatement | .contStatement => false
  | _ => true

/-- Where no statement is a part, no slot takes a node that has one. -/
lemma Kind.test_eq_false_of_isInert {k : Kind} (hk : k.isInert = true) {c : Node}
    (hc : c.kind.isInert = false) : ∀ slot ∈ k.parts, slot.test c = false := by
  have hclass : c.kind.isExpression = false ∧ c.kind.isTerm = false ∧ c.kind.isOperand = false
      ∧ c.kind.isSegment = false := by
    generalize c.kind = j at hc
    cases j <;> first | exact ⟨rfl, rfl, rfl, rfl⟩ | cases hc
  obtain ⟨hexpr, hterm, hoperand, hsegment⟩ := hclass
  have hne (j : Kind) (hj : j.isInert = true) : (c.kind == j) = false := by
    rw [beq_eq_false_iff_ne]
    rintro rfl
    rw [hc] at hj
    cases hj
  cases k <;> first
    | (cases hk; done)
    | simp [Kind.parts, Slot.test, of, is, holding, hexpr, hterm, hoperand, hsegment,
        hne .identifier rfl, hne .memberAccess rfl, hne .number rfl, hne .operator rfl,
        hne .positionalArgs rfl, hne .keywordArgs rfl, hne .keywordArg rfl, hne .matrixRow rfl,
        hne .lastRow rfl, hne .hexDigits rfl]

namespace Node

variable {n m : Node}

lemma Obeys.isInert_child {c : Node} (h : n.Obeys) (hk : n.kind.isInert = true)
    (hc : c ∈ n.children) : c.kind.isInert = true := by
  obtain ⟨slot, hs, ht⟩ := exists_of_fill h.parts hc
  cases hinert : c.kind.isInert with
  | true => rfl
  | false =>
    rw [Kind.test_eq_false_of_isInert hk hinert slot hs] at ht
    cases ht

/-- Below a node without statements there are none. -/
lemma Formed.isInert_of_mem_walk (h : n.Formed) (hk : n.kind.isInert = true) (hm : m ∈ n.walk) :
    m.kind.isInert = true := by
  induction n using induction_children with
  | h n ih =>
    rw [walk_eq, List.mem_cons, List.mem_flatMap] at hm
    rcases hm with rfl | ⟨c, hc, hm⟩
    · exact hk
    · obtain ⟨hobeys, hchildren⟩ := formed_iff.mp h
      exact ih c hc (hchildren c hc) (hobeys.isInert_child hk hc) hm

end Node

/-! ### Parts of a node -/

namespace Slot

variable {p : Node → Bool} {slots : List Slot} {ns : List Node}

lemma fill_one_inv (h : fill (.one p :: slots) ns = true) :
    ∃ x xs, ns = x :: xs ∧ p x = true ∧ fill slots xs = true := by
  cases ns with
  | nil =>
    rw [fill_one_nil] at h
    cases h
  | cons x xs =>
    rw [fill_one_cons, Bool.and_eq_true] at h
    exact ⟨x, xs, rfl, h⟩

lemma fill_optional_inv (h : fill (.optional p :: slots) ns = true) :
    fill slots ns = true ∨ ∃ x xs, ns = x :: xs ∧ p x = true ∧ fill slots xs = true := by
  cases ns with
  | nil => exact .inl (by rwa [fill_optional_nil] at h)
  | cons x xs =>
    rw [fill_optional_cons, Bool.or_eq_true, Bool.and_eq_true] at h
    exact h.imp_right fun h => ⟨x, xs, rfl, h⟩

lemma fill_many_inv (h : fill (.many p :: slots) ns = true) :
    ∃ xs ys, ns = xs ++ ys ∧ (∀ x ∈ xs, p x = true) ∧ fill slots ys = true := by
  rw [fill_many] at h
  exact ⟨_, _, List.takeWhile_append_dropWhile.symm, List.all_eq_true.mp List.all_takeWhile, h⟩

lemma fill_nil_inv (h : fill [] ns = true) : ns = [] := by
  rwa [fill_nil, List.isEmpty_iff] at h

end Slot

namespace Node

variable {n : Node} {kind : Kind}

lemma is_iff : Node.is kind n = true ↔ n.kind = kind := beq_iff_eq

/-- A node has what its kind prescribes. -/
lemma Obeys.has (h : n.Obeys) (hk : n.kind = kind) : n.Has kind n.children n.value :=
  ⟨hk, rfl, hk ▸ h.labels, rfl⟩

/-- The kinds of nodes that show no text of their own. -/
def isBare : Kind → Bool
  | .memberAccess | .assignment | .expressionStatement | .breakStatement | .contStatement
  | .exitStatement | .comment | .error | .identifier | .number | .percentage | .operator | .chars
  | .escape | .unicodeEscape | .octalEscape | .hexDigits => false
  | _ => true

/-- A node without a text of its own. -/
lemma Obeys.has_none (h : n.Obeys) (hk : n.kind = kind) (hb : isBare kind = true) :
    n.Has kind n.children none := by
  refine ⟨hk, rfl, hk ▸ h.labels, ?_⟩
  have htext := h.text
  unfold worded at htext
  rw [hk] at htext
  cases kind <;> first | (exact Option.isNone_iff_eq_none.mp htext) | cases hb

/-- The kinds of nodes that show words. -/
def isWord : Kind → Bool
  | .identifier | .number | .percentage | .operator | .comment | .error | .chars | .escape
  | .octalEscape | .hexDigits => true
  | _ => false

/-- A node that shows a word and has no children. -/
lemma Obeys.has_word (h : n.Obeys) (hk : n.kind = kind) (hw : isWord kind = true) :
    ∃ w, n.Has kind [] (some w) := by
  have hfill : fill [] n.children = true := by
    have hparts := hk ▸ h.parts
    cases kind <;> first | exact hparts | cases hw
  have htext : n.value.isSome = true := by
    have hworded := h.text
    unfold worded at hworded
    rw [hk] at hworded
    cases kind <;> first | exact hworded | cases hw
  obtain ⟨w, hw⟩ := Option.isSome_iff_exists.mp htext
  have hhas := h.has hk
  rw [fill_nil_inv hfill, hw] at hhas
  exact ⟨w, hhas⟩

end Node

end StpLang
