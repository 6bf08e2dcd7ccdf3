import Mathlib.Tactic.Lemma
import StpLang.Node.Basic

/-!
Nodes and what lies below them.

* `Node.forall_mem_walk` takes a statement about a subtree apart at its root.
* `Node.hasError_iff` looks for an error in a node and in its children.
* `Node.height_lt_of_mem`: children have fewer levels than their parent.
-/

namespace StpLang.Node

mutual

lemma map_levels (d e : Nat) : (n : Node) →
    (n.levels d).map (·.2) = (n.levels e).map (·.2)
  | ⟨_, _, _, _, _, _, children, _⟩ => by
    simp only [levels, List.map_cons, map_levelsBelow (d + 1) (e + 1) children]

lemma map_levelsBelow (d e : Nat) : (ns : List Node) →
    (levelsBelow d ns).map (·.2) = (levelsBelow e ns).map (·.2)
  | [] => rfl
  | n :: ns => by
    simp only [levelsBelow, List.map_append, map_levels d e n, map_levelsBelow d e ns]

end

/-- The nodes below a list of nodes are those below each of them. -/
lemma levelsBelow_eq_flatMap (d : Nat) (ns : List Node) :
    (levelsBelow d ns).map (·.2) = ns.flatMap walk := by
  induction ns with
  | nil => rfl
  | cons n ns ih =>
    rw [levelsBelow, List.map_append, ih, List.flatMap_cons, walk, map_levels d 0]

/-- A node comes first, then what lies below its children. -/
lemma walk_eq (n : Node) : n.walk = n :: n.children.flatMap walk := by
  obtain ⟨kind, value, line, col, start, stop, children, fields⟩ := n
  rw [walk, levels, List.map_cons, levelsBelow_eq_flatMap]

/-- What holds of a whole subtree holds of its root and of the subtrees below. -/
lemma forall_mem_walk {P : Node → Prop} (n : Node) :
    (∀ m ∈ n.walk, P m) ↔ P n ∧ ∀ c ∈ n.children, ∀ m ∈ c.walk, P m := by
  rw [walk_eq, List.forall_mem_cons]
  simp only [List.mem_flatMap]
  refine and_congr_right fun _ => ⟨fun h c hc m hm => h m ⟨c, hc, hm⟩, ?_⟩
  rintro h m ⟨c, hc, hm⟩
  exact h c hc m hm

/-- A node holds an error when it stands for one or one of its children holds
one. -/
lemma hasError_iff (n : Node) :
    n.hasError = true ↔ n.kind = .error ∨ ∃ c ∈ n.children, c.hasError = true := by
  unfold hasError
  rw [walk_eq, List.any_cons, Bool.or_eq_true, beq_iff_eq, List.any_flatMap, List.any_eq_true]

/-- An error below a child is an error below the node. -/
lemma hasError_of_mem {n c : Node} (hc : c ∈ n.children) (h : c.hasError = true) :
    n.hasError = true := n.hasError_iff.mpr (.inr ⟨c, hc, h⟩)

lemma hasError_eq (n : Node) :
    n.hasError = (n.kind == .error || n.children.any (·.hasError)) := by
  rw [Bool.eq_iff_iff, hasError_iff, Bool.or_eq_true, beq_iff_eq, List.any_eq_true]

/-! ### Levels -/

@[simp] lemma maxHeight_nil : maxHeight [] = 0 := by rw [maxHeight]

@[simp] lemma maxHeight_cons (n : Node) (ns : List Node) :
    maxHeight (n :: ns) = max n.height (maxHeight ns) := by rw [maxHeight]

lemma maxHeight_append (ns ms : List Node) :
    maxHeight (ns ++ ms) = max (maxHeight ns) (maxHeight ms) := by
  induction ns with
  | nil => rw [List.nil_append, maxHeight_nil, Nat.zero_max]
  | cons n ns ih => rw [List.cons_append, maxHeight_cons, maxHeight_cons, ih, Nat.max_assoc]

lemma height_pos (n : Node) : 0 < n.height := by
  rw [height_eq]
  omega

lemma height_le_of_mem {n : Node} {ns : List Node} (h : n ∈ ns) : n.height ≤ maxHeight ns := by
  induction ns with
  | nil => cases h
  | cons m ms ih =>
    rw [maxHeight_cons]
    rcases List.mem_cons.mp h with rfl | h
    · exact Nat.le_max_left _ _
    · exact Nat.le_trans (ih h) (Nat.le_max_right _ _)

lemma height_lt_of_mem {n m : Node} (h : n ∈ m.children) : n.height < m.height := by
  rw [height_eq m]
  have := height_le_of_mem h
  omega

/-! ### Subtrees -/

/-- What passes from the children of a node to the node holds of every node. -/
lemma induction_children {P : Node → Prop} (h : ∀ n, (∀ c ∈ n.children, P c) → P n) (n : Node) :
    P n := by
  generalize hm : n.height = m
  induction m using Nat.strongRecOn generalizing n with
  | ind m ih =>
    subst hm
    exact h n fun c hc => ih c.height (height_lt_of_mem hc) c rfl

/-- What lies below a node of a subtree lies in the subtree. -/
lemma mem_walk_trans {l m n : Node} (hl : l ∈ m.walk) (hm : m ∈ n.walk) : l ∈ n.walk := by
  induction n using induction_children with
  | h n ih =>
    rw [walk_eq, List.mem_cons, List.mem_flatMap] at hm
    rcases hm with rfl | ⟨c, hc, hm⟩
    · exact hl
    · rw [walk_eq, List.mem_cons, List.mem_flatMap]
      exact .inr ⟨c, hc, ih c hc hm⟩

end StpLang.Node
