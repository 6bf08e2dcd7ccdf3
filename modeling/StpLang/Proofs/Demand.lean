import StpLang.Proofs.Height
import StpLang.Proofs.Schema.Grammar

/-!
The levels that a program demands.

Which limit a program needs can be read off its tree. Expressions, the operands of
prefix operators, calls, matrices and blocks enter a level, and chains of binary and
of suffix operators must be no higher than the levels that are left.

* `Node.demand` is the number of levels that have to be left where a node is read.
* `Node.demand_le_height`: a node demands at most as many levels as it has itself.
* `Derives.toll_le`: where a phrase has been read, enough levels were left for its
  nodes.
-/

namespace StpLang

open Grammar

/-! ### Demands of nodes -/

/-- The least number above all of the given ones. -/
def above : List Nat → Nat
  | [] => 0
  | d :: ds => max (d + 1) (above ds)

/-- The demand of a node, by its height and the demands of its children. A child
that is read as an expression enters a level of its own. -/
def Kind.demand (kind : Kind) (height : Nat) (below : List Nat) : Nat :=
  match kind, below with
  | .binary, _ | .suffix, _ => height
  | .unary, _ | .bracketed, _ | .matrixRow, _ | .lastRow, _ | .positionalArgs, _
  | .keywordArg, _ | .snippet, _ | .assignment, _ | .expressionStatement, _
  | .returnStatement, _ => above below
  | .matrix, _ | .call, _ | .block, _ => max 1 (above below)
  | .ifStatement, d :: ds | .elseifClause, d :: ds | .whileLoop, d :: ds =>
    max (d + 1) (above ds - 1)
  | .forLoop, i :: d :: ds => max i (max (d + 1) (above ds - 1))
  | _, _ => above below - 1

/-- No kind demands less than the children of a node do. -/
lemma Kind.le_demand {kind : Kind} {height : Nat} {below : List Nat} (h : above below ≤ height) :
    above below ≤ kind.demand height below + 1 := by
  unfold Kind.demand
  split <;> grind [above]

/-- No kind demands more levels than a node of the kind has. -/
lemma Kind.demand_le {kind : Kind} {height : Nat} {below : List Nat} (h : above below ≤ height)
    (hpos : 0 < height) : kind.demand height below ≤ height := by
  unfold Kind.demand
  split <;> grind [above]

namespace Node

mutual

/-- How many levels must be left where the node is read, without the one that an
expression enters by itself. -/
def demand : Node → Nat
  | ⟨kind, _, _, _, _, _, children, _⟩ => kind.demand (1 + maxHeight children) (demands children)

/-- The demands of nodes. -/
def demands : List Node → List Nat
  | [] => []
  | n :: ns => n.demand :: demands ns

end

/-- How many levels must be left where the nodes are read as expressions. -/
def toll (ns : List Node) : Nat := above (demands ns)

variable {n : Node} {ns : List Node} {kind : Kind} {value : Option String}

lemma demand_eq (n : Node) :
    n.demand = n.kind.demand (1 + maxHeight n.children) (demands n.children) := by
  cases n
  rw [demand]

@[simp] lemma demands_nil : demands [] = [] := by rw [demands]

@[simp] lemma demands_cons (n : Node) (ns : List Node) :
    demands (n :: ns) = n.demand :: demands ns := by rw [demands]

@[simp] lemma toll_nil : toll [] = 0 := by rw [toll, demands_nil, above]

@[simp] lemma toll_cons (n : Node) (ns : List Node) :
    toll (n :: ns) = max (n.demand + 1) (toll ns) := by rw [toll, demands_cons, above, toll]

lemma Has.demand_eq (h : n.Has kind ns value) :
    n.demand = kind.demand (1 + maxHeight ns) (demands ns) := by
  rw [Node.demand_eq, h.kind, h.children]

@[simp] lemma demand_spanning (kind : Kind) (p : Place) (stop : Nat) (ns : List Node)
    (fields : FieldTable) (value : Option String) :
    (spanning kind p stop ns fields value).demand
      = kind.demand (1 + maxHeight ns) (demands ns) := Node.demand_eq _

@[simp] lemma demand_leaf (kind : Kind) (t : Token) :
    (leaf kind t).demand = kind.demand 1 [] := by
  rw [Node.demand_eq]
  show kind.demand (1 + maxHeight []) (demands []) = _
  rw [maxHeight_nil, demands_nil]

mutual

/-- A node demands at most as many levels as it has itself. -/
lemma demand_le_height : (n : Node) → n.demand ≤ n.height
  | ⟨kind, _, _, _, _, _, children, _⟩ => by
    rw [demand, height]
    have := toll_le_maxHeight children
    exact Kind.demand_le (by rw [toll] at this; omega) (by omega)

lemma toll_le_maxHeight : (ns : List Node) → toll ns ≤ 1 + maxHeight ns
  | [] => by simp
  | n :: ns => by
    have := demand_le_height n
    have := toll_le_maxHeight ns
    rw [toll_cons, maxHeight_cons]
    omega

end

lemma lt_toll_of_mem {c : Node} (h : c ∈ ns) : c.demand < toll ns := by
  induction ns with
  | nil => cases h
  | cons n ns ih =>
    rw [toll_cons]
    rcases List.mem_cons.mp h with rfl | h
    · omega
    · have := ih h
      omega

/-- A node demands no less than its children. -/
lemma demand_le_of_mem {c : Node} (h : c ∈ n.children) : c.demand ≤ n.demand := by
  have hlt := lt_toll_of_mem h
  have hle : toll n.children ≤ n.demand + 1 := by
    rw [demand_eq]
    exact Kind.le_demand (toll_le_maxHeight _)
  omega

/-- A chain of operators demands as many levels as it has. -/
lemma Has.demand_eq_height (h : n.Has kind ns value) (hk : kind = .binary ∨ kind = .suffix) :
    n.demand = n.height := by
  rw [h.demand_eq, height_eq, h.children]
  rcases hk with rfl | rfl <;> rfl

end Node

open Node

/-! ### Demands of phrases -/

/-- The greatest toll of the nodes of a phrase where `a` levels are left. -/
def Phrase.room (a : Nat) : Phrase → Nat
  | .expression .. | .argument .value | .arguments .value | .elements => a
  | .operators _ _ lhs => max (lhs.demand + 1) a
  | .suffixes operand => max (operand.demand + 1) (a + 1)
  | .name _ | .members _ | .argument .parameter | .arguments .parameter => 1
  | _ => a + 1

/-- The pieces of a phrase are those of a text. -/
def Phrase.Cut : Phrase → Prop
  | .segments segs => ∃ n w, Parts (SnippetSpelled n) segs w
  | _ => True

section

variable {a : Nat} {p : Phrase} {ts k : List Token} {ns : List Node}

/-- A piece of a string that holds no expression demands no level. -/
lemma demand_plainSegment {P : List Token → Prop} {seg : Segment Token}
    {segs : List (Segment Token)} {w : List Char} (hf : ∀ tokens, seg.form ≠ .snippet tokens)
    (h : Parts P (seg :: segs) w) : (plainSegment seg).demand = 0 := by
  cases h with
  | chars form | escape form | octal form =>
    rw [plainSegment, form, demand_spanning]
    rfl
  | unicode form =>
    rw [plainSegment, form, demand_spanning, demands_cons, Node.demand_eq]
    rfl
  | snippet form => exact absurd form (hf _)

/-- A `break` or a `cont` demands no level. -/
lemma demand_loopControl {t : Token} (h : t.Regular) (hk : t.kind = .kwBreak ∨ t.kind = .kwCont) :
    (leaf (.ofName t.value) t).demand = 0 := by
  obtain ⟨m, hm⟩ := h (by rcases hk with hk | hk <;> rw [hk] <;> decide)
  rw [demand_leaf]
  rcases hk with hk | hk
  · rw [show t.value = "break" from hm.spelling (by rw [hk]; rfl),
      show Kind.ofName "break" = .breakStatement by decide]
    rfl
  · rw [show t.value = "cont" from hm.spelling (by rw [hk]; rfl),
      show Kind.ofName "cont" = .contStatement by decide]
    rfl

/-- A block enters a level. -/
lemma Derives.block_pos {loops : Nat} (h : Derives a (.block loops) ts k ns) : 0 < a := by
  cases h
  exact Nat.succ_pos _

/-- Where a phrase has been read, enough levels were left for its nodes. -/
theorem Derives.toll_le (h : Derives a p ts k ns) (hts : ∀ t ∈ ts, t.Regular) (hp : p.Cut) :
    toll ns ≤ p.room a := by
  induction h with
  | argumentsEnd | statementsEnd | segmentsNil | membersEnd | elementsEnd | clausesEnd =>
    rw [toll_nil]
    exact Nat.zero_le _
  | @argumentsLast _ form _ _ _ _ _ ih => cases form <;> exact ih hts trivial
  | @argumentsMore _ form _ _ _ _ _ _ _ _ _ _ ih ihs =>
    rw [List.forall_mem_append, List.forall_mem_cons] at hts
    have hfirst := ih hts.1 trivial
    have hmore := ihs hts.2.2 trivial
    rw [toll_cons, toll_nil] at hfirst
    rw [toll_cons]
    cases form <;> simp only [Phrase.room] at hfirst hmore ⊢ <;> omega
  | segmentsPlain hf _ ih =>
    obtain ⟨m, w, hparts⟩ := hp
    obtain ⟨v, hv⟩ := hparts.tail
    have hmore := ih hts ⟨m, v, hv⟩
    rw [toll_cons, demand_plainSegment hf hparts]
    simp only [Phrase.room] at hmore ⊢
    omega
  | segmentsSnippet hf hs _ _ _ ihe ih =>
    obtain ⟨m, w, hparts⟩ := hp
    obtain ⟨v, hv⟩ := hparts.tail
    have hinner := regular_of_snippet (hparts.tokens List.mem_cons_self hf)
    rw [hs, List.forall_mem_append] at hinner
    have hexpression := ihe hinner.1 trivial
    have hmore := ih hts ⟨m, v, hv⟩
    rw [toll_cons, snippetNode, demand_spanning]
    exact Nat.max_le.mpr ⟨Nat.succ_le_succ hexpression, hmore⟩
  | string ht _ ih =>
    obtain ⟨m, hm⟩ := hts _ (List.mem_singleton_self _) (by rw [ht]; decide)
    obtain ⟨w, -, hparts⟩ := Spells.parts (by rw [← ht]; exact hm)
    have hpieces := ih (by simp) ⟨m, w, hparts⟩
    rw [toll_cons, toll_nil, stringNode, demand_spanning]
    simp only [Phrase.room, toll, Kind.demand] at hpieces ⊢
    omega
  | loopControl ht =>
    rw [toll_cons, demand_loopControl (hts _ (List.mem_singleton_self _)) ht, toll_nil]
    exact Nat.le_add_left 1 _
  | rowsLast _ _ _ ih =>
    have hrow := ih hts trivial
    rw [toll_cons, toll_nil, demand_spanning]
    exact Nat.max_le.mpr ⟨Nat.succ_le_succ hrow, Nat.zero_le _⟩
  | rowsMore _ _ _ _ ih ihs =>
    simp only [List.forall_mem_append, List.forall_mem_cons] at hts
    obtain ⟨h1, h2, -, h3⟩ := hts
    have hrow := ih (List.forall_mem_cons.mpr ⟨h1, h2⟩) trivial
    rw [toll_cons, demand_spanning]
    exact Nat.max_le.mpr ⟨Nat.succ_le_succ hrow, ihs h3 trivial⟩
  | functionDefinition _ _ _ _ _ _ _ hb _ _ _ =>
    -- the body enters a level, which is more than the parameters demand
    have hpos := hb.block_pos
    simp_all only [List.forall_mem_append, List.forall_mem_cons, Phrase.Cut, forall_const,
      Phrase.room, toll, demands_cons, demands_nil, demand_spanning, demand_leaf, argumentsNode,
      Kind.demand, above]
    omega
  | _ =>
    simp_all only [List.forall_mem_append, List.forall_mem_cons, Phrase.Cut, forall_const,
      Phrase.room, toll, demands_cons, demands_nil, demand_spanning, demand_leaf, height_spanning,
      prefixNode, memberNode, argumentsNode, callNode, keywordNode, binaryNode, suffixNode,
      Kind.demand, above] <;> omega

end

end StpLang
