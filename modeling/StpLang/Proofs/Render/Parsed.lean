import StpLang.Proofs.Recovery
import StpLang.Proofs.Render
import StpLang.Proofs.Schema

/-!
Whatever has been read can be shown.

Showing a tree fails on kinds without a text and on missing children. The schema rules
out both, in every place where a text is looked for, and every tree that a reader makes
obeys the schema.

* `Node.Formed.legible_of_isExpression` covers all kinds that have a text, also those
  which stand in fixed places only.
* `parse_shown` states the main result.
-/

namespace StpLang

open Source

/-- An operator has a text, whatever it shows. -/
lemma Node.legible_operator (n : Node) (hk : n.kind = .operator) : n.Legible := by
  obtain ⟨kind, value, l, c, start, stop, children, fields⟩ := n
  cases hk
  exact ⟨valueText value, by rw [expression, expressionAs]; rfl⟩

namespace Node.Formed

variable {n m : Node}

/-- The nodes of a subtree that obeys the schema are roots of such subtrees. -/
lemma of_mem_walk (h : n.Formed) (hm : m ∈ n.walk) : m.Formed :=
  fun _ hl => h _ (mem_walk_trans hl hm)

/-- Every kind that has a text as an expression has one in a tree that obeys the
schema. -/
lemma legible_of_isExpression (h : n.Formed) (hk : Source.isExpression n.kind = true) :
    n.Legible := by
  generalize hkind : n.kind = kind at hk
  cases kind with
  | identifier => exact h.legible_word hkind (.inl rfl)
  | operator => exact n.legible_operator hkind
  | keywordArg => exact h.legible_keyword hkind (legibleBelow _) (Nat.le_refl _)
  | _ => first | exact h.legible (by rw [hkind]; rfl) | cases hk

end Node.Formed

/-- A recovering reader gives a tree for every text. -/
lemma parse_ok_or (source : String) (strict : Bool) (limit : Int) :
    (strict = true ∧ ∃ e, parse source strict limit = .error e)
      ∨ ∃ t, parse source strict limit = .ok t := by
  cases strict with
  | false => exact .inr (readFrom_ok limit (.ofText source))
  | true =>
    cases h : parse source true limit with
    | error e => exact .inl ⟨rfl, e, rfl⟩
    | ok t => exact .inr ⟨t, rfl⟩

/-- **Showing never fails on what has been read.** Unless a strict reader refuses the
text, there is a tree, and the tree has a text in every form. Each of its statements and
errors can be written on any sheet, and each node of a kind that has a text as an
expression has that text. -/
theorem parse_shown (source : String) (strict : Bool) (limit : Int) :
    (strict = true ∧ ∃ e, parse source strict limit = .error e)
      ∨ ∃ t, parse source strict limit = .ok t
        ∧ (∀ form : Target, ∃ text, form.render t = .ok text)
        ∧ (∀ n ∈ t.root.walk, n.kind.isEntry = true → Writable (statement n))
        ∧ ∀ n ∈ t.root.walk, Source.isExpression n.kind = true → n.Legible := by
  refine (parse_ok_or source strict limit).imp_right ?_
  rintro ⟨t, h⟩
  obtain ⟨hk, hformed⟩ := formed_of_readFrom h
  have hwalk {n : Node} (hn : n ∈ t.root.walk) : n.Formed := Node.Formed.of_mem_walk hformed hn
  exact ⟨t, h, Target.render_ok hk hformed, fun n hn => (hwalk hn).writable,
    fun n hn => (hwalk hn).legible_of_isExpression⟩

end StpLang
