import StpLang.Proofs.Grammar.Mends
import StpLang.Proofs.RoundTrip.WellFormed

/-!
`break` and `cont` within trees.

Statements are no parts of expressions, so that on the way from a loop down to a
`break` or a `cont` the first step leads into the body of the loop.

* `Node.LoopOver` says that a path leads through the body of a loop and from there to
  a place of the same function.
* `Mends.controlled` follows the counter of loops through the grammar.
* `Node.Formed.loopOver` finds the loop on a path to a `break` or a `cont`.
-/

namespace StpLang

open Slot Node Grammar

/-- `break` and `cont`. -/
def Kind.isControl : Kind → Bool
  | .breakStatement | .contStatement => true
  | _ => false

/-- The loops. -/
def Kind.isLoop : Kind → Bool
  | .whileLoop | .forLoop => true
  | _ => false

lemma Kind.isInert_of_isControl {k : Kind} (h : k.isControl = true) : k.isInert = false := by
  cases k <;> first | rfl | cases h

namespace Node

/-- The path leads through the body of a loop, and from there to a node of the same
function. -/
def LoopOver (root : Node) (path : List Int) : Prop :=
  ∃ outer i inner loop body, path = outer ++ i :: inner
    ∧ root.descend? outer = some loop ∧ loop.kind.isLoop = true
    ∧ loop.child? i = some body ∧ loop.field? .loopBody = some body ∧ body.kind = .block
    ∧ ∀ way, way <+: inner → ∀ n, body.descend? way = some n → n.kind ≠ .functionDefinition

variable {n m c : Node} {i : Int} {path : List Int} {inLoop : Bool}

/-! ### Paths -/

lemma descend?_cons (hc : n.child? i = some c) (path : List Int) :
    n.descend? (i :: path) = c.descend? path := by
  rw [descend?, hc]
  rfl

lemma descend?_cons_inv (h : n.descend? (i :: path) = some m) :
    ∃ c, n.child? i = some c ∧ c.descend? path = some m :=
  Option.bind_eq_some_iff.mp h

lemma mem_of_child? (h : n.child? i = some c) : c ∈ n.children := by
  unfold child? at h
  dsimp only at h
  generalize (if i < 0 then i + n.children.length else i) = j at h
  split at h
  · cases h
  · exact List.mem_of_getElem? h

lemma mem_walk_of_descend? (h : n.descend? path = some m) : m ∈ n.walk := by
  induction path generalizing n with
  | nil =>
    cases h
    rw [walk_eq]
    exact List.mem_cons_self
  | cons i path ih =>
    obtain ⟨c, hc, h⟩ := descend?_cons_inv h
    rw [walk_eq]
    exact List.mem_cons_of_mem _ (List.mem_flatMap.mpr ⟨c, mem_of_child? hc, ih h⟩)

lemma LoopOver.cons (hc : n.child? i = some c) (h : c.LoopOver path) :
    n.LoopOver (i :: path) := by
  obtain ⟨outer, j, inner, loop, body, rfl, hloop, h⟩ := h
  exact ⟨i :: outer, j, inner, loop, body, rfl, by rw [descend?_cons hc, hloop], h⟩

/-! ### Counting loops -/

lemma controlled_iff (hk : n.kind.isControl = false) : n.controlled inLoop = true
    ↔ ∀ c ∈ n.children, c.controlled (n.kind.inLoop inLoop) = true := by
  rw [← allControlled_iff]
  obtain ⟨kind, _, _, _, _, _, children, _⟩ := n
  unfold controlled
  cases kind <;> first | exact Iff.rfl | cases hk

lemma controlled_of_isControl (hk : n.kind.isControl = true) : n.controlled inLoop = inLoop := by
  obtain ⟨kind, _, _, _, _, _, children, _⟩ := n
  unfold controlled
  cases kind <;> first | rfl | cases hk

/-- Where there are no statements, no loop is missing. -/
lemma Formed.controlled_of_isInert (h : n.Formed) (hk : n.kind.isInert = true) :
    n.controlled inLoop = true := by
  induction n using induction_children generalizing inLoop with
  | h n ih =>
    obtain ⟨hobeys, hchildren⟩ := formed_iff.mp h
    have hcontrol : n.kind.isControl = false := by
      generalize n.kind = k at hk
      cases k <;> first | rfl | cases hk
    exact (controlled_iff hcontrol).mpr fun c hc =>
      ih c hc (hchildren c hc) (hobeys.isInert_child hk hc)

/-! ### The loop on a path -/

/-- The block below a loop is its body. -/
lemma Obeys.loop_body (h : n.Obeys) (hk : n.kind.isLoop = true) (hc : c ∈ n.children)
    (hb : c.kind = .block) : n.field? .loopBody = some c := by
  have hexpression {e : Node} (he : Node.of Kind.isExpression e = true) : c ≠ e := by
    rintro rfl
    rw [Node.of, hb] at he
    cases he
  have hparts := h.parts
  have hlabels := h.labels
  generalize n.kind = kind at hk hlabels hparts
  unfold field? labelled
  cases kind with
  | whileLoop =>
    obtain ⟨e, _, hcs, he, hparts⟩ := fill_one_inv hparts
    obtain ⟨b, _, rfl, -, hparts⟩ := fill_one_inv hparts
    obtain rfl := fill_nil_inv hparts
    rw [hcs, List.mem_cons, or_iff_right (hexpression he), List.mem_singleton] at hc
    rw [hlabels, hcs, hc]
    rfl
  | forLoop =>
    obtain ⟨x, _, hcs, hx, hparts⟩ := fill_one_inv hparts
    obtain ⟨e, _, rfl, he, hparts⟩ := fill_one_inv hparts
    obtain ⟨b, _, rfl, -, hparts⟩ := fill_one_inv hparts
    obtain rfl := fill_nil_inv hparts
    have hname : c ≠ x := by
      rintro rfl
      rw [is_iff, hb] at hx
      cases hx
    rw [hcs, List.mem_cons, or_iff_right hname, List.mem_cons, or_iff_right (hexpression he),
      List.mem_singleton] at hc
    rw [hlabels, hcs, hc]
    rfl
  | _ => cases hk

/-- A child of a loop below which there are statements is a block. -/
lemma Obeys.block_of_loop (h : n.Obeys) (hk : n.kind.isLoop = true) (hc : c ∈ n.children)
    (hs : c.kind.isInert = false) : c.kind = .block := by
  obtain ⟨slot, hslot, ht⟩ := exists_of_fill h.parts hc
  have hexpression : c.kind.isExpression = false := by
    generalize c.kind = j at hs
    cases j <;> first | rfl | cases hs
  have hname : (c.kind == .identifier) = false := by
    generalize c.kind = j at hs
    cases j <;> first | rfl | cases hs
  generalize n.kind = kind at hk hslot
  cases kind with
  | whileLoop | forLoop =>
    simp only [Kind.parts, List.mem_cons, List.not_mem_nil, or_false] at hslot
    rcases hslot with rfl | rfl | rfl <;>
      simp_all [Slot.test, Node.of, Node.is]
  | _ => cases hk

/-- On the way to a `break` or a `cont` there is a loop of the same function, unless the
whole subtree stands in one. -/
lemma Formed.loopOver (h : n.Formed) (hc : n.controlled inLoop = true)
    (hm : n.descend? path = some m) (hk : m.kind.isControl = true) :
    n.LoopOver path ∨ (inLoop = true ∧ ∀ way, way <+: path → ∀ x, n.descend? way = some x →
      x.kind ≠ .functionDefinition) := by
  induction path generalizing n inLoop with
  | nil =>
    cases hm
    rw [controlled_of_isControl hk] at hc
    refine .inr ⟨hc, fun way hway x hx => ?_⟩
    rw [List.prefix_nil.mp hway] at hx
    cases hx
    intro hf
    rw [hf] at hk
    cases hk
  | cons i path ih =>
    obtain ⟨c, hchild, hm⟩ := descend?_cons_inv hm
    have hmem := mem_of_child? hchild
    obtain ⟨hobeys, hchildren⟩ := formed_iff.mp h
    have hcontrol : n.kind.isControl = false := by
      have hparts := hobeys.parts
      generalize n.kind = k at hparts
      cases k <;> first
        | rfl
        | (rw [fill_nil_inv hparts] at hmem; cases hmem)
    have hcc := (controlled_iff hcontrol).mp hc c hmem
    rcases ih (hchildren c hmem) hcc hm with hloop | ⟨hin, hway⟩
    · exact .inl (hloop.cons hchild)
    by_cases hl : n.kind.isLoop = true
    · -- the way into the loop leads through its body
      have hinert : c.kind.isInert = false := by
        cases hc : c.kind.isInert with
        | false => rfl
        | true =>
          have := (hchildren c hmem).isInert_of_mem_walk hc (mem_walk_of_descend? hm)
          rw [Kind.isInert_of_isControl hk] at this
          cases this
      have hb := hobeys.block_of_loop hl hmem hinert
      exact .inl ⟨[], i, path, n, c, rfl, rfl, hl, hchild, hobeys.loop_body hl hmem hb, hb, hway⟩
    · have hfn : n.kind ≠ .functionDefinition := by
        intro hf
        rw [hf] at hin
        cases hin
      refine .inr ⟨?_, fun way hpre x hx => ?_⟩
      · generalize n.kind = k at hin hl
        cases k <;> first | exact hin | exact absurd rfl hl | cases hin
      · cases way with
        | nil =>
          cases hx
          exact hfn
        | cons j way =>
          obtain ⟨rfl, hpre'⟩ := List.cons_prefix_cons.mp hpre
          rw [descend?_cons hchild] at hx
          exact hway way hpre' x hx

end Node

/-! ### Statements that are read -/

/-- The loops counted around a phrase stand around its `break`s and `cont`s. -/
def Phrase.inLoop : Phrase → Bool
  | .statement loops | .statements loops _ | .block loops | .clauses loops _ => loops != 0
  | _ => false

/-- A statement without a block stands in a loop, if it has to. -/
lemma Derives.controlled {a loops : Nat} {ts k : List Token} {n : Node}
    (h : Derives a (.statement loops) ts k [n]) (hn : (headKind ts).opensBlock = false)
    (hf : n.Formed) : n.controlled (loops != 0) = true := by
  cases h with
  | loopControl ht hl =>
    cases hc : (Kind.ofName _).isControl with
    | true =>
      rw [Node.controlled_of_isControl hc]
      exact bne_iff_ne.mpr hl
    | false => exact (Node.controlled_iff hc).mpr fun c hc => absurd hc List.not_mem_nil
  | comment | exit | symbolDeclaration | importStatement | returnStatement | assignment
  | expressionStatement => exact hf.controlled_of_isInert rfl
  | ifStatement ht | whileLoop ht | forLoop ht | functionDefinition ht =>
    rw [headKind_cons, ht] at hn
    cases hn

lemma Node.Formed.controlled_expression {c : Node} {inLoop : Bool} (h : c.Formed)
    (hk : Node.of Kind.isExpression c = true) : c.controlled inLoop = true := by
  refine h.controlled_of_isInert ?_
  rw [Node.of] at hk
  generalize c.kind = k at hk
  cases k <;> first | rfl | cases hk

/-- In a tree that obeys the schema, what is read within a number of loops needs no
further ones. -/
lemma Mends.controlled {a : Nat} {p : Phrase} {ts k : List Token} {ns : List Node}
    (h : Mends a p ts k ns) (hf : ∀ n ∈ ns, n.Formed) :
    ∀ n ∈ ns, n.controlled p.inLoop = true := by
  induction h with
  | simple h hn =>
    rw [List.forall_mem_singleton] at hf ⊢
    exact h.controlled hn hf
  | ifStatement _ _ _ _ ihb ihc =>
    rw [List.forall_mem_singleton] at hf ⊢
    obtain ⟨hparts, hcs⟩ := hf.fills
    simp only [Kind.parts, fill_one_cons, Bool.and_eq_true] at hparts
    simp only [List.forall_mem_cons] at hcs
    refine (controlled_iff rfl).mpr (List.forall_mem_cons.mpr ⟨?_,
      List.forall_mem_cons.mpr ⟨?_, ?_⟩⟩)
    · exact hcs.1.controlled_expression hparts.1
    · exact ihb (List.forall_mem_singleton.mpr hcs.2.1) _ List.mem_cons_self
    · exact ihc hcs.2.2
  | whileLoop _ _ _ ihb =>
    rw [List.forall_mem_singleton] at hf ⊢
    obtain ⟨hparts, hcs⟩ := hf.fills
    simp only [Kind.parts, fill_one_cons, Bool.and_eq_true] at hparts
    simp only [List.forall_mem_cons] at hcs
    refine (controlled_iff rfl).mpr (List.forall_mem_cons.mpr ⟨?_, ?_⟩)
    · exact hcs.1.controlled_expression hparts.1
    · exact ihb (List.forall_mem_singleton.mpr hcs.2.1)
  | forLoop _ _ _ _ _ ihb =>
    rw [List.forall_mem_singleton] at hf ⊢
    obtain ⟨hparts, hcs⟩ := hf.fills
    simp only [Kind.parts, fill_one_cons, Bool.and_eq_true] at hparts
    simp only [List.forall_mem_cons] at hcs
    refine (controlled_iff rfl).mpr (List.forall_mem_cons.mpr ⟨?_,
      List.forall_mem_cons.mpr ⟨?_, ?_⟩⟩)
    · exact hcs.1.controlled_of_isInert rfl
    · exact hcs.2.1.controlled_expression hparts.2.1
    · exact ihb (List.forall_mem_singleton.mpr hcs.2.2.1)
  | functionDefinition _ _ _ _ _ _ _ _ ihb =>
    rw [List.forall_mem_singleton] at hf ⊢
    obtain ⟨-, hcs⟩ := hf.fills
    simp only [List.forall_mem_cons] at hcs
    refine (controlled_iff rfl).mpr (List.forall_mem_cons.mpr ⟨?_, List.forall_mem_cons.mpr
      ⟨?_, List.forall_mem_cons.mpr ⟨?_, ?_⟩⟩⟩)
    · exact hcs.1.controlled_of_isInert rfl
    · exact hcs.2.1.controlled_of_isInert rfl
    · exact hcs.2.2.1.controlled_of_isInert rfl
    · exact ihb (List.forall_mem_singleton.mpr hcs.2.2.2.1)
  | block _ _ _ ih =>
    rw [List.forall_mem_singleton] at hf ⊢
    exact (controlled_iff rfl).mpr (ih hf.fills.2)
  | clausesElseif _ _ _ _ _ ihb ihc =>
    rw [List.forall_mem_cons] at hf ⊢
    obtain ⟨hparts, hcs⟩ := hf.1.fills
    simp only [Kind.parts, fill_one_cons, Bool.and_eq_true] at hparts
    simp only [List.forall_mem_cons] at hcs
    refine ⟨(controlled_iff rfl).mpr (List.forall_mem_cons.mpr ⟨?_, ?_⟩), ihc hf.2⟩
    · exact hcs.1.controlled_expression hparts.1
    · exact ihb (List.forall_mem_singleton.mpr hcs.2.1)
  | clausesElse _ _ _ _ ihb ihc =>
    rw [List.forall_mem_cons] at hf ⊢
    exact ⟨(controlled_iff rfl).mpr (ihb hf.1.fills.2), ihc hf.2⟩
  | clausesEnd | statementsEnd => exact fun n hn => absurd hn List.not_mem_nil
  | statementsSeparator _ _ ih => exact ih hf
  | statementsMore _ _ ih ihs =>
    rw [List.forall_mem_cons] at hf ⊢
    exact ⟨ih (List.forall_mem_singleton.mpr hf.1) _ List.mem_cons_self, ihs hf.2⟩
  | statementsBroken _ ihs =>
    rw [List.forall_mem_cons] at hf ⊢
    exact ⟨hf.1.controlled_of_isInert rfl, ihs hf.2⟩

end StpLang
