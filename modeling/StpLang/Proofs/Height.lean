import StpLang.Proofs.Spans

/-!
The number of levels of a tree.

A phrase that may enter `a` more levels becomes nodes of a height that grows
linearly in `a`. Parentheses, calls, matrices, prefix operators, the operands of
binary operators and blocks enter a level, and between two of them only a few
nodes stand one above the other. The heights of chains of binary and of suffix
operators, which enter no level, are checked as the chains grow.

* `Phrase.levels` is the bound of each phrase.
* `Derives.levels` follows the rules of the grammar, `Mends.levels` those of a
  recovering reader.
* `parse_height_le` is the result for trees.
-/

namespace StpLang

open Grammar StpLang.Parser

/-! ### Heights of nodes -/

namespace Node

@[simp] lemma height_leaf (kind : Kind) (t : Token) : (leaf kind t).height = 1 := by
  rw [height_eq]
  exact congrArg (1 + ·) maxHeight_nil

@[simp] lemma height_spanning (kind : Kind) (p : Place) (stop : Nat) (ns : List Node)
    (fields : FieldTable) (value : Option String) :
    (spanning kind p stop ns fields value).height = 1 + maxHeight ns := height_eq _

mutual

/-- A node below another one stands at most as deep as the height allows. -/
lemma depth_of_levels (d : Nat) : (n : Node) → ∀ x ∈ n.levels d, x.1 < d + n.height
  | ⟨_, _, _, _, _, _, children, _⟩ => by
    rw [levels, height]
    intro x hx
    rcases List.mem_cons.mp hx with rfl | hx
    · dsimp only
      omega
    · have := depth_of_levelsBelow (d + 1) children x hx
      omega

lemma depth_of_levelsBelow (d : Nat) : (ns : List Node) →
    ∀ x ∈ levelsBelow d ns, x.1 < d + maxHeight ns
  | [] => by rw [levelsBelow]; exact fun x hx => (List.not_mem_nil hx).elim
  | n :: ns => by
    rw [levelsBelow, maxHeight]
    intro x hx
    rcases List.mem_append.mp hx with hx | hx
    · have := depth_of_levels d n x hx
      omega
    · have := depth_of_levelsBelow d ns x hx
      omega

end

end Node

open Node

/-! ### Heights of phrases -/

/-- The greatest height of the nodes of a phrase that may enter `a` levels. No
expression is read where no level is left, hence the minima. -/
def Phrase.levels (a : Nat) : Phrase → Nat
  | .expression .. | .elements => min (2 * a + 1) (3 * a)
  | .operators _ _ lhs => max lhs.height (a - 1)
  | .unary _ | .primary _ => 2 * a + 3
  | .suffixes operand => max operand.height a
  | .name _ => 2
  | .members _ => 1
  | .argument _ | .arguments _ => min (2 * a + 2) (3 * a + 1)
  | .rows | .segments _ => 2 * a + 2
  | .statement _ | .statements .. => 3 * a + 3
  | .block _ => 3 * a + 1
  | .clauses .. => 3 * a + 2

section

variable {a : Nat} {p : Phrase} {ts k : List Token} {ns : List Node}

lemma height_plainSegment (seg : Segment Token) : (plainSegment seg).height ≤ 2 := by
  unfold plainSegment
  split <;> simp [height_eq, Node.spanning]

/-- The nodes of a phrase are at most as high as the levels that it may enter
allow. -/
lemma Derives.levels (h : Derives a p ts k ns) : maxHeight ns ≤ p.levels a := by
  induction h with
  | operatorsMore _ _ _ hh _ _ ih =>
    simp only [Phrase.levels] at ih ⊢
    omega
  | suffixesMore _ hh _ ih =>
    simp only [Phrase.levels] at ih ⊢
    omega
  | @segmentsPlain _ seg _ _ _ _ ih =>
    have := height_plainSegment seg
    simp only [Phrase.levels, maxHeight_cons] at ih ⊢
    omega
  | @argumentKeyword _ _ _ _ _ n _ _ _ ih =>
    -- the value is an expression, so a level is left
    have := n.height_pos
    simp only [Phrase.levels, maxHeight_cons, maxHeight_nil, height_spanning, height_leaf,
      keywordNode] at ih ⊢
    omega
  | _ =>
    simp only [Phrase.levels, maxHeight_cons, maxHeight_nil, height_spanning, height_leaf,
      prefixNode, memberNode, argumentsNode, callNode, stringNode, snippetNode] at *
    omega

/-- A recovering reader makes no higher nodes than a strict one. -/
lemma Mends.levels (h : Mends a p ts k ns) : maxHeight ns ≤ p.levels a := by
  induction h with
  | simple h => exact h.levels
  | ifStatement _ h _ _ ihb ihc =>
    have := h.levels
    simp only [Phrase.levels, maxHeight_cons, maxHeight_nil, height_spanning] at *
    omega
  | whileLoop _ h _ ihb | clausesElseif _ _ h _ _ ihb =>
    have := h.levels
    simp only [Phrase.levels, maxHeight_cons, maxHeight_nil, height_spanning] at *
    omega
  | forLoop _ _ _ h _ ihb =>
    have := h.levels
    simp only [Phrase.levels, maxHeight_cons, maxHeight_nil, height_spanning, height_leaf] at *
    omega
  | functionDefinition _ _ _ _ hp hy _ _ ihb =>
    have := hp.levels
    have := hy.levels
    simp only [Phrase.levels, maxHeight_cons, maxHeight_nil, height_spanning, height_leaf,
      argumentsNode] at *
    omega
  | _ =>
    simp only [Phrase.levels, maxHeight_cons, maxHeight_nil, height_spanning, brokenNode] at *
    omega

end

/-! ### Heights of trees -/

section

variable {limit : Int} {tokens : List Token} {trace : List Event} {t : Tree}

/-- The root stands above statements that may enter as many levels as the limit
tells. -/
lemma height_of_readTokens (h : (readTokens limit false tokens trace).result = .ok t) :
    maxHeight t.root.children ≤ 3 * limit.toNat + 3 := by
  rw [readTokens_result] at h
  cases hs : program (level limit false limit.toNat) 0 (startAt tokens trace) with
  | error e s => rw [hs] at h; cases h
  | ok root s =>
    rw [hs] at h
    cases h
    obtain ⟨⟨ts, -, hmends⟩, -, -⟩ := mends_of_program hs
    exact hmends.levels

end

/-- **The limit bounds the tree.** Under a limit of `D` levels the tree of any
text, read strictly or with recovery, has at most `3 * D + 4` levels, and no node
stands deeper than that. -/
theorem parse_height_le {source : String} {strict : Bool} {limit : Int} {t : Tree}
    (hlimit : 0 ≤ limit) (h : parse source strict limit = .ok t) :
    (t.root.height : Int) ≤ 3 * limit + 4
      ∧ ∀ x ∈ t.root.levels 1, (x.1 : Int) ≤ 3 * limit + 4 := by
  have hchildren : maxHeight t.root.children ≤ 3 * limit.toNat + 3 := by
    obtain ⟨us, v, -, ⟨e, w, trace, -, -, ht⟩ | ⟨-, error, trace, t', ht, rfl⟩⟩ := parse_cases h
    · exact height_of_readTokens ht
    · -- the node for unreadable text is a leaf behind the statements
      have hbelow := height_of_readTokens ht
      show maxHeight (t'.root.children ++ [unreadable _ _]) ≤ _
      rw [maxHeight_append, unreadable, maxHeight_cons, height_spanning, maxHeight_nil]
      omega
  have hroot : t.root.height ≤ 3 * limit.toNat + 4 := by
    rw [height_eq]
    omega
  refine ⟨by omega, fun x hx => ?_⟩
  have := depth_of_levels 1 t.root x hx
  omega

/-- A definition with a named parameter reaches the bound of its limit, and so
does a block within a block. -/
theorem parse_height_le_reached :
    (∃ t, parse "fn f(x = \"\\x41\") \x7b\x7d" true 1 = .ok t ∧ t.root.height = 7
      ∧ ∀ x ∈ t.root.levels 1, (x.1 : Int) ≤ 7)
    ∧ ∃ t, parse "if a \x7b\x7d elseif b \x7b fn f(x = \"\\x41\") \x7b ) \x7d \x7d \"" false 2 = .ok t
      ∧ t.root.height = 10 ∧ ∀ x ∈ t.root.levels 1, (x.1 : Int) ≤ 10 := by
  obtain ⟨t, h, ht⟩ := exists_of_map_toOption (show (parse "fn f(x = \"\\x41\") \x7b\x7d"
    true 1).toOption.map (·.root.height) = some 7 by decide +kernel)
  obtain ⟨u, hu, huh⟩ := exists_of_map_toOption (show (parse
    "if a \x7b\x7d elseif b \x7b fn f(x = \"\\x41\") \x7b ) \x7d \x7d \"" false 2).toOption.map
      (·.root.height) = some 10 by decide +kernel)
  exact ⟨⟨t, h, ht, (parse_height_le (by decide) h).2⟩,
    ⟨u, hu, huh, (parse_height_le (by decide) hu).2⟩⟩

end StpLang
