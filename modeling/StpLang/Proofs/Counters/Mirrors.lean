import StpLang.Grammar.Counted
import StpLang.Proofs.Node
import StpLang.Proofs.Parse.Run

/-!
A reader with counters follows the grammar.

A step of a reader that counts follows a step of the grammar when it does the same to the
tokens and leaves the counters as they were, also when it fails.

* `Mirrors` says so of the counters `k`; `Mirrors.bind` and its kin put steps in sequence.
* `Mirrors.ensuring` is the rule for counters that are changed and changed back.
* `mirrors_nested` descends one level: the reader counts what the grammar is told.
-/

namespace StpLang

open Parse Grammar

/-- The outcome of a step of the grammar, seen by a reader with some counters. -/
def Counters.put {α : Type} (k : Counters) :
    EStateM.Result Error Parser α → EStateM.Result Error Counted α
  | .ok a p => .ok a ⟨k, p⟩
  | .error e p => .error e ⟨k, p⟩

/-- With the counters `k`, the step of the reader does what the step of the grammar does,
and leaves the counters as they were. -/
structure Mirrors {α : Type} (k : Counters) (x : Count α) (y : Parse α) : Prop where
  run : ∀ p, x ⟨k, p⟩ = k.put (y p)

namespace Mirrors

variable {α β : Type} {k l : Counters} {x x' : Count α} {y y' : Parse α} {f : α → Count β}
  {g : α → Parse β}

lemma lift (y : Parse α) : Mirrors k (Count.lift y) y := by
  refine ⟨fun p => ?_⟩
  unfold Count.lift
  cases y p <;> rfl

lemma pure (a : α) : Mirrors k (pure a) (pure a) := ⟨fun _ => rfl⟩

lemma bind (hx : Mirrors k x y) (hf : ∀ a, Mirrors k (f a) (g a)) :
    Mirrors k (x >>= f) (y >>= g) := by
  refine ⟨fun p => ?_⟩
  have hp := hx.run p
  cases hy : y p with
  | ok a q =>
    rw [hy] at hp
    rw [bind_ok hp, bind_ok hy]
    exact (hf a).run q
  | error e q =>
    rw [hy] at hp
    rw [bind_error hp, bind_error hy]
    rfl

lemma lift_bind (y : Parse α) (hf : ∀ a, Mirrors k (f a) (g a)) :
    Mirrors k (Count.lift y >>= f) (y >>= g) := (lift y).bind hf

lemma ite {c : Prop} [Decidable c] (hx : Mirrors k x y) (hx' : Mirrors k x' y') :
    Mirrors k (if c then x else x') (if c then y else y') := by
  split
  · exact hx
  · exact hx'

/-- A step that is taken only under a condition, before others. -/
lemma when_bind {c : Prop} [Decidable c] (q : Parse PUnit) {f : PUnit → Count β}
    {g : PUnit → Parse β} (hf : ∀ u, Mirrors k (f u) (g u)) :
    Mirrors k (if c then Count.lift q >>= f else f ⟨⟩) (if c then q >>= g else g ⟨⟩) :=
  .ite (.lift_bind q hf) (hf ⟨⟩)

/-- What the reader finds in its counters. -/
lemma counters_bind {f : Counters → Count β} {y : Parse β} (h : Mirrors k (f k) y) :
    Mirrors k (Count.counters >>= f) y := ⟨h.run⟩

/-- Counters that are changed before a step and changed back behind it. -/
lemma ensuring (before after : Counters → Counters) (hx : Mirrors (before k) x y)
    (hback : after (before k) = k) :
    Mirrors k (Count.recount before >>= fun _ => Count.ensuring x after) y := by
  refine ⟨fun p => ?_⟩
  show Count.ensuring x after ⟨before k, p⟩ = _
  unfold Count.ensuring
  rw [hx.run p]
  cases y p with
  | ok a q | error e q =>
    simp only [Counters.put, hback]

/-- Other tokens are read apart, whatever their reader counts. -/
lemma apart (tokens : Parser) (hx : Mirrors l x y) :
    Mirrors k (Count.apart l tokens x) (onTokens tokens y) := by
  refine ⟨fun p => ?_⟩
  unfold Count.apart onTokens
  rw [hx.run]
  cases y { tokens with trace := p.trace } <;> rfl

end Mirrors

/-! ### Levels -/

/-- The counters one level further in. -/
def Counters.deeper (k : Counters) : Counters := { k with depth := k.depth + 1 }

/-- One level further in, where one may descend, what is read follows the grammar there.
Expressions mind neither errors nor loops. -/
structure Fits (R : Count.Inner) (k : Counters) : Prop where
  expression : k.depth < k.limit → ∀ strict strict' loops least inMatrix,
    Mirrors { k.deeper with strict, loops } (R.expression least inMatrix)
      (Grammar.expression (levelAt k.limit strict' (k.depth + 1)) least inMatrix)
  unary : k.depth < k.limit → ∀ strict strict' loops inMatrix,
    Mirrors { k.deeper with strict, loops } (R.unary inMatrix)
      (Grammar.unary (levelAt k.limit strict' (k.depth + 1)) inMatrix)
  statement : k.depth < k.limit → ∀ strict loops,
    Mirrors { k.deeper with strict, loops } R.statement
      (Grammar.statement (levelAt k.limit strict (k.depth + 1)) loops)

section

variable {α : Type} {k : Counters} {x : Count α} {t : Token}

lemma levelAt_limit (limit : Int) (strict : Bool) (depth : Int) :
    (levelAt limit strict depth).limit = limit
      ∧ (levelAt limit strict depth).strict = strict
      ∧ (levelAt limit strict depth).allowance = (limit - depth).toNat := by
  unfold levelAt
  cases (limit - depth).toNat <;> exact ⟨rfl, rfl, rfl⟩

/-- Descending is refused at the limit, and elsewhere one level further in is read. -/
lemma levelAt_inner (limit : Int) (strict : Bool) (depth : Int) :
    (levelAt limit strict depth).inner
      = if depth < limit then some (produce (levelAt limit strict (depth + 1))) else none := by
  unfold levelAt
  split
  · rename_i hlt
    obtain ⟨n, hn⟩ : ∃ n, (limit - depth).toNat = n + 1 := ⟨(limit - depth).toNat - 1, by omega⟩
    have hn' : (limit - (depth + 1)).toNat = n := by omega
    rw [hn, hn', level]
    exact congrArg some (funext fun x => derive_eq limit strict n x)
  · rename_i hle
    have hn : (limit - depth).toNat = 0 := by omega
    rw [hn]
    rfl

/-- The reader descends where the grammar does, and comes back to its level. -/
lemma mirrors_nested {strict : Bool} {body : (Nonterminal → Parse Node) → Parse α}
    (h : k.depth < k.limit →
      Mirrors k.deeper x (body (produce (levelAt k.limit strict (k.depth + 1))))) :
    Mirrors k (Count.nested t x) (Grammar.nested (levelAt k.limit strict k.depth) t body) := by
  have hback : ({ k.deeper with depth := k.deeper.depth - 1 } : Counters) = k := by
    unfold Counters.deeper
    cases k
    simp
  refine .ensuring Counters.deeper _ (.counters_bind ?_) hback
  unfold Grammar.nested
  rw [levelAt_inner, (levelAt_limit ..).1]
  by_cases hlt : k.depth < k.limit
  · have hin : ¬k.deeper.depth > k.deeper.limit := by
      show ¬k.depth + 1 > k.limit
      omega
    rw [if_pos hlt, if_neg hin]
    exact h hlt
  · have hout : k.deeper.depth > k.deeper.limit := by
      show k.depth + 1 > k.limit
      omega
    rw [if_neg hlt, if_pos hout]
    exact ⟨fun _ => rfl⟩

/-- The reader refuses the expressions that the grammar refuses. -/
lemma mirrors_bounded (limit : Int) (allowance : Nat) (n : Node) (t : Token)
    (hlimit : limit = k.limit)
    (h : k.depth + n.height > k.limit ↔ n.height > allowance) :
    Mirrors k (Count.bounded n t) (bounded limit allowance n t) := by
  refine .counters_bind ?_
  subst hlimit
  unfold bounded
  simp only [h]
  exact .ite (.lift _) (.pure _)

end

end StpLang
