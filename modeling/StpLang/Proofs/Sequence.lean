import Mathlib.Data.List.Forall2
import Mathlib.Tactic.Lemma

/-!
Steps in sequence.

Reading characters and reading tokens are both done in steps that keep their
state when they fail. The equations below run the first of two steps.

* `bind_ok` and `bind_error` run the first of two steps.
* `bind_eq_ok` splits a successful run at its first action.
* `exists_of_map_toOption` and `exists_of_map_thrown?` take results apart that have
  been computed.
* `exists_forall₂` collects the results for the elements of a list.
-/

namespace StpLang

variable {ε σ α β : Type} {s t : σ}

/-- The second step goes on where the first one stopped. -/
lemma bind_ok {p : EStateM ε σ α} {f : α → EStateM ε σ β} {a : α} (h : p s = .ok a t) :
    (p >>= f) s = f a t := by
  simp only [bind, EStateM.bind, h]

/-- A failure ends the whole sequence. -/
lemma bind_error {p : EStateM ε σ α} {f : α → EStateM ε σ β} {e : ε} (h : p s = .error e t) :
    (p >>= f) s = .error e t := by
  simp only [bind, EStateM.bind, h]

/-- A sequence succeeds when both of its steps do. -/
lemma bind_eq_ok {p : EStateM ε σ α} {f : α → EStateM ε σ β} {b : β} {u : σ} :
    (p >>= f) s = .ok b u ↔ ∃ a t, p s = .ok a t ∧ f a t = .ok b u := by
  constructor
  · intro h
    cases hp : p s with
    | ok a t => exact ⟨a, t, rfl, by rwa [bind_ok hp] at h⟩
    | error e t => rw [bind_error hp] at h; cases h
  · rintro ⟨a, t, hp, hf⟩
    rw [bind_ok hp, hf]

/-- A result of which something is known is no failure. -/
lemma exists_of_map_toOption {x : Except ε α} {f : α → β} {b : β}
    (h : x.toOption.map f = some b) : ∃ a, x = .ok a ∧ f a = b := by
  cases x with
  | error e => cases h
  | ok a => exact ⟨a, rfl, Option.some.inj h⟩

/-- The error that ends a computation, if one does. -/
def thrown? : Except ε α → Option ε
  | .error e => some e
  | .ok _ => none

/-- A failure of which something is known is no result. -/
lemma exists_of_map_thrown? {x : Except ε α} {f : ε → β} {b : β}
    (h : (thrown? x).map f = some b) : ∃ e, x = .error e ∧ f e = b := by
  cases x with
  | error e => exact ⟨e, rfl, Option.some.inj h⟩
  | ok a => cases h

/-- Elements that each have a partner have a list of partners. -/
lemma exists_forall₂ {R : α → β → Prop} {xs : List α} (h : ∀ x ∈ xs, ∃ y, R x y) :
    ∃ ys, List.Forall₂ R xs ys := by
  induction xs with
  | nil => exact ⟨[], .nil⟩
  | cons x xs ih =>
    rw [List.forall_mem_cons] at h
    obtain ⟨y, hy⟩ := h.1
    obtain ⟨ys, hys⟩ := ih h.2
    exact ⟨y :: ys, .cons hy hys⟩

end StpLang
