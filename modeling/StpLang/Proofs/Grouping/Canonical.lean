import StpLang.Proofs.RoundTrip.Phrase

/-!
Groupings of operators and operands.

A grouping is an expression down to its operands; what stands within brackets, in
calls, matrices and strings is part of an operand. Read from the left to the right
it is a sequence of operands and operators, in which a sign may be a prefix or an
infix operator.

* `Grouping.Canonical` says that the operators group by level and side.
* `Grouping.marked_sequence` recovers from the sequence which operators are infix.
* `Grouping.Canonical.unique` is the main result: a sequence has at most one
  canonical grouping.
-/

namespace StpLang

open Grammar (binaryNode rightLevel)

/-- A member of an expression written out in a row. -/
inductive Element where
  /-- An operand. -/
  | operand (n : Node)
  /-- A prefix, suffix or infix operator. -/
  | operator (t : Token)

/-- An expression down to its operands. -/
inductive Grouping where
  /-- An operand. -/
  | primary (n : Node)
  /-- An operator behind its operand. -/
  | suffix (operand : Grouping) (op : Token)
  /-- An operator before its operand. -/
  | unary (op : Token) (operand : Grouping)
  /-- An operator between two operands. -/
  | binary (lhs : Grouping) (op : Token) (rhs : Grouping)

/-- The kinds of the nodes that operators make. -/
def Kind.isOperation : Kind → Bool
  | .unary | .binary | .suffix => true
  | _ => false

namespace Grouping

/-- The node of a grouping. -/
def node : Grouping → Node
  | .primary n => n
  | .suffix x op => suffixNode x.node op
  | .unary op x => prefixNode op x.node
  | .binary l op r => binaryNode l.node op r.node

/-- The operands and operators from the left to the right. -/
def sequence : Grouping → List Element
  | .primary n => [.operand n]
  | .suffix x op => x.sequence ++ [.operator op]
  | .unary op x => .operator op :: x.sequence
  | .binary l op r => l.sequence ++ .operator op :: r.sequence

/-- The level of a grouping and the side to which its operator groups. Prefix
operators bind tighter than all infix ones, and suffix operators tighter than
those. -/
def binding : Grouping → Nat × Assoc
  | .primary _ | .suffix .. => (6, .left)
  | .unary .. => (5, .left)
  | .binary _ op _ => op.kind.binary?.getD (0, .left)

/-- How tightly a grouping binds. -/
def level (g : Grouping) : Nat := g.binding.1

/-- Infix operators of this level and above behind a grouping would go to its last
operand. -/
def reach (g : Grouping) : Nat := rightLevel g.binding.1 g.binding.2

/-- The operators group as their levels demand. -/
inductive Canonical : Grouping → Prop
  | primary {n : Node} (hn : n.kind.isOperation = false) : Canonical (.primary n)
  | suffix {x : Grouping} {op : Token} (hop : op.kind.isSuffix = true) (hx : Canonical x)
      (hl : 6 ≤ x.level) : Canonical (.suffix x op)
  | unary {x : Grouping} {op : Token} (hop : op.kind.isUnary = true) (hx : Canonical x)
      (hl : 5 ≤ x.level) : Canonical (.unary op x)
  | binary {l r : Grouping} {op : Token} {level : Nat} {assoc : Assoc}
      (hop : op.kind.binary? = some (level, assoc)) (hl : Canonical l) (hr : Canonical r)
      (hll : leftLevel level assoc ≤ l.level) (hrl : rightLevel level assoc ≤ r.level) :
      Canonical (.binary l op r)

variable {g g' l r x : Grouping} {op t : Token} {level : Nat} {assoc : Assoc}

@[simp] lemma level_primary (n : Node) : (primary n).level = 6 := rfl

@[simp] lemma level_suffix (x : Grouping) (op : Token) : (suffix x op).level = 6 := rfl

@[simp] lemma level_unary (op : Token) (x : Grouping) : (unary op x).level = 5 := rfl

lemma binding_binary (hop : op.kind.binary? = some (level, assoc)) :
    (binary l op r).binding = (level, assoc) := by
  rw [binding, hop]
  rfl

lemma level_binary (hop : op.kind.binary? = some (level, assoc)) :
    (binary l op r).level = level := by
  rw [Grouping.level, binding_binary hop]

lemma reach_binary (hop : op.kind.binary? = some (level, assoc)) :
    (binary l op r).reach = rightLevel level assoc := by
  rw [reach, binding_binary hop]

/-! ### Which operators are infix -/

/-- The operands and operators from the left to the right, each with a mark that
says whether it is an infix operator. -/
def marked : Grouping → List (Bool × Element)
  | .primary n => [(false, .operand n)]
  | .suffix x op => x.marked ++ [(false, .operator op)]
  | .unary op x => (false, .operator op) :: x.marked
  | .binary l op r => l.marked ++ (true, .operator op) :: r.marked

/-- Marks the infix operators of a sequence, where `complete` says that an operand
has just come to its end. -/
def markedFrom (complete : Bool) : List Element → List (Bool × Element)
  | [] => []
  | .operand n :: es => (false, .operand n) :: markedFrom true es
  | .operator t :: es =>
    if complete && t.kind.isSuffix then (false, .operator t) :: markedFrom true es
    else (complete, .operator t) :: markedFrom false es

lemma isSuffix_of_binary (hop : op.kind.binary? = some (level, assoc)) :
    op.kind.isSuffix = false := by
  revert hop
  cases op.kind <;> simp [TokenKind.binary?, TokenKind.isSuffix]

lemma Canonical.marked_append (h : Canonical g) (es : List Element) :
    markedFrom false (g.sequence ++ es) = g.marked ++ markedFrom true es := by
  induction h generalizing es with
  | primary => rfl
  | suffix hop _ _ ih =>
    rw [sequence, marked, List.append_assoc, ih, List.append_assoc]
    simp [markedFrom, hop]
  | unary hop _ _ ih => simp [sequence, marked, markedFrom, ih]
  | binary hop _ _ _ _ ihl ihr =>
    rw [sequence, marked, List.append_assoc, ihl, List.append_assoc]
    simp [markedFrom, isSuffix_of_binary hop, ihr]

/-- The marks of a canonical grouping can be read off its sequence. -/
lemma Canonical.marked_sequence (h : Canonical g) : markedFrom false g.sequence = g.marked := by
  simpa [markedFrom] using h.marked_append []

/-! ### Levels within a grouping -/

lemma level_le_leftLevel (level : Nat) (assoc : Assoc) : level ≤ leftLevel level assoc := by
  cases assoc
  · exact Nat.le_refl level
  · exact Nat.le_succ level

lemma level_le_rightLevel (level : Nat) (assoc : Assoc) : level ≤ rightLevel level assoc := by
  cases assoc
  · exact Nat.le_succ level
  · exact Nat.le_refl level

/-- No infix operator binds looser than the whole. -/
lemma Canonical.level_le_of_mem (h : Canonical g) (hm : (true, .operator t) ∈ g.marked)
    (ht : t.kind.binary? = some (level, assoc)) : g.level ≤ level := by
  induction h with
  | primary => simp [marked] at hm
  | suffix _ _ hl ih =>
    have := ih (by simpa [marked] using hm)
    rw [level_suffix]
    omega
  | unary _ _ hl ih =>
    have := ih (by simpa [marked] using hm)
    rw [level_unary]
    omega
  | @binary l r op p a hop _ _ hll hrl ihl ihr =>
    rw [level_binary hop]
    have hleft := level_le_leftLevel p a
    have hright := level_le_rightLevel p a
    rcases List.mem_append.mp hm with hm | hm
    · have := ihl hm
      omega
    · rcases List.mem_cons.mp hm with hm | hm
      · cases hm
        cases hop.symm.trans ht
        exact Nat.le_refl _
      · have := ihr hm
        omega

/-- What is marked as infix is a binary operator. -/
lemma Canonical.binary_of_mem (h : Canonical g) {e : Element} (hm : (true, e) ∈ g.marked) :
    ∃ t level assoc, e = .operator t ∧ t.kind.binary? = some (level, assoc)
      ∧ g.level ≤ level := by
  suffices hs : ∃ t level assoc, e = .operator t ∧ t.kind.binary? = some (level, assoc) by
    obtain ⟨t, level, assoc, rfl, ht⟩ := hs
    exact ⟨t, level, assoc, rfl, ht, h.level_le_of_mem hm ht⟩
  induction h with
  | primary => simp [marked] at hm
  | suffix _ _ _ ih | unary _ _ _ ih => exact ih (by simpa [marked] using hm)
  | binary hop _ _ _ _ ihl ihr =>
    rcases List.mem_append.mp hm with hm | hm
    · exact ihl hm
    · rcases List.mem_cons.mp hm with hm | hm
      · cases hm
        exact ⟨_, _, _, rfl, hop⟩
      · exact ihr hm

/-! ### One grouping for a sequence -/

/-- An operand with its suffix operators begins with the operand. -/
lemma Canonical.head_of_level (h : Canonical g) (hl : 6 ≤ g.level) :
    ∃ n es, g.marked = (false, .operand n) :: es := by
  induction h with
  | primary => exact ⟨_, [], rfl⟩
  | suffix _ _ hx ih =>
    obtain ⟨n, es, he⟩ := ih hx
    exact ⟨n, _, by rw [marked, he]; rfl⟩
  | unary => simp at hl
  | binary hop =>
    rw [level_binary hop] at hl
    exact absurd (TokenKind.level_le hop).2 (by omega)

/-- Two infix operators cannot both stand at the root, one to the right of the
other. -/
lemma levels_disagree {op' : Token} {level' : Nat} {assoc' : Assoc}
    (hop : op.kind.binary? = some (level, assoc))
    (hop' : op'.kind.binary? = some (level', assoc'))
    (hr : rightLevel level assoc ≤ level') (hl : leftLevel level' assoc' ≤ level) : False := by
  have h := TokenKind.level_of_assoc hop
  have h' := TokenKind.level_of_assoc hop'
  cases assoc <;> cases assoc' <;>
    simp only [rightLevel, leftLevel, reduceCtorEq, if_true, if_false] at hr hl h h' <;> omega

/-- Of two canonical groupings with one sequence the root of the second is not to
the right of that of the first. -/
lemma Canonical.root_not_right {l' r' : Grouping} {op' : Token} {es : List (Bool × Element)}
    (h : Canonical (.binary l op r)) (h' : Canonical (.binary l' op' r'))
    (hr : r.marked = es ++ (true, .operator op') :: r'.marked)
    (hl : l'.marked = l.marked ++ (true, .operator op) :: es) : False := by
  obtain - | - | - | ⟨hop, -, hcr, -, hrl⟩ := h
  obtain - | - | - | ⟨hop', hcl, -, hll, -⟩ := h'
  have hright := hcr.level_le_of_mem (by rw [hr]; simp) hop'
  have hleft := hcl.level_le_of_mem (by rw [hl]; simp) hop
  exact levels_disagree hop hop' (by omega) (by omega)

/-- A grouping that is not of an infix operator shows none. -/
lemma Canonical.marked_ne_binary (h : Canonical g) (hl : 5 ≤ g.level) :
    g.marked ≠ l.marked ++ (true, .operator op) :: r.marked := by
  intro he
  obtain ⟨t, level, assoc, -, ht, hle⟩ :=
    h.binary_of_mem (e := .operator op) (by rw [he]; simp)
  have := (TokenKind.level_le ht).2
  omega

/-- The marked sequence determines a canonical grouping. -/
lemma Canonical.eq_of_marked (h : Canonical g) (h' : Canonical g')
    (he : g.marked = g'.marked) : g = g' := by
  induction h generalizing g' with
  | primary hn =>
    cases h' with
    | primary => simpa [marked] using he
    | suffix => simp [marked, List.singleton_eq_append_iff] at he
    | unary => simp [marked] at he
    | binary => exact absurd he ((Canonical.primary hn).marked_ne_binary (by simp))
  | suffix hop hx hl ih =>
    have hs := Canonical.suffix hop hx hl
    cases h' with
    | primary => simp [marked, List.append_eq_singleton_iff] at he
    | suffix _ hx' =>
      obtain ⟨hm, ho⟩ := List.append_inj' he rfl
      cases ho
      rw [ih hx' hm]
    | unary =>
      obtain ⟨n, es, hm⟩ := hs.head_of_level (Nat.le_refl 6)
      rw [hm] at he
      simp [marked] at he
    | binary => exact absurd he (hs.marked_ne_binary (by simp))
  | unary hop hx hl ih =>
    cases h' with
    | primary => simp [marked] at he
    | suffix hop' hx' hl' =>
      obtain ⟨n, es, hm⟩ := (Canonical.suffix hop' hx' hl').head_of_level (Nat.le_refl 6)
      rw [hm] at he
      simp [marked] at he
    | unary _ hx' =>
      obtain ⟨ho, hm⟩ := List.cons.inj he
      cases ho
      rw [ih hx' hm]
    | binary => exact absurd he ((Canonical.unary hop hx hl).marked_ne_binary (by simp))
  | binary hop hcl hcr hll hrl ihl ihr =>
    have hb := Canonical.binary hop hcl hcr hll hrl
    cases h' with
    | primary hn => exact absurd he.symm ((Canonical.primary hn).marked_ne_binary (by simp))
    | suffix hop' hx' hl' =>
      exact absurd he.symm ((Canonical.suffix hop' hx' hl').marked_ne_binary (by simp))
    | unary hop' hx' hl' =>
      exact absurd he.symm ((Canonical.unary hop' hx' hl').marked_ne_binary (by simp))
    | binary hop' hcl' hcr' hll' hrl' =>
      have hb' := Canonical.binary hop' hcl' hcr' hll' hrl'
      -- the two roots stand at one place of the sequence
      rcases List.append_eq_append_iff.mp he with ⟨es, hm, hr⟩ | ⟨es, hm, hr⟩
      · cases es with
        | nil =>
          obtain ⟨ho, hr'⟩ := List.cons.inj hr
          cases ho
          rw [ihl hcl' (by simpa using hm.symm), ihr hcr' hr']
        | cons e es =>
          obtain ⟨rfl, hr'⟩ := List.cons.inj hr
          exact (hb.root_not_right hb' hr' hm).elim
      · cases es with
        | nil =>
          obtain ⟨ho, hr'⟩ := List.cons.inj hr
          cases ho
          rw [ihl hcl' (by simpa using hm), ihr hcr' hr'.symm]
        | cons e es =>
          obtain ⟨rfl, hr'⟩ := List.cons.inj hr
          exact (hb'.root_not_right hb hr' hm).elim

/-- Two canonical groupings of one sequence are the same. -/
theorem Canonical.unique (h : Canonical g) (h' : Canonical g')
    (he : g.sequence = g'.sequence) : g = g' :=
  h.eq_of_marked h' (by rw [← h.marked_sequence, he, h'.marked_sequence])

end Grouping

end StpLang
