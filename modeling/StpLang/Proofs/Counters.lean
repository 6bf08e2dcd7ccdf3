import StpLang.Proofs.Counters.Grammar
import StpLang.Proofs.LoopControl.Bodies
import StpLang.Proofs.Parse.PairStatement

/-!
What a call leaves behind.

A call of a reader with counters does what the grammar does at the level that the counters
tell, so that it moves through the tokens as the grammar does. Whoever has called it, also in
vain, finds the counters as they were and may call again.

* `Call.mirrors` says what a call reads.
* `Counted.Keeps` says what a reader may change, and what it must not.
* `calls_keep` is about a call and about any sequence of calls.
-/

namespace StpLang

open Parse Grammar

/-! ### Calls and the grammar -/

namespace Call

/-- What the grammar reads for a call, at a level and within some loops. -/
def grammar (L : Level) (loops : Nat) : Call → Parse Node
  | program => Grammar.program L loops
  | statement => Grammar.statement L loops
  | block => Grammar.block L loops
  | expression least inMatrix => Grammar.expression L least.toNat inMatrix
  | unary inMatrix => Grammar.unary L inMatrix
  | suffix inMatrix => Grammar.suffix L inMatrix
  | primary inMatrix => Grammar.primary L inMatrix
  | memberAccess inMatrix => Grammar.memberAccess inMatrix

/-- A call reads what the grammar reads at the level that the counters tell. -/
lemma mirrors (c : Call) (k : Counters) :
    Mirrors k c.run (c.grammar (levelAt k.limit k.strict k.depth) k.loops) := by
  have hR := fits_readers k
  refine .counters_bind ?_
  cases c with
  | program => exact mirrors_program hR
  | statement => exact mirrors_statement hR
  | block => exact mirrors_block hR
  | expression least inMatrix => exact mirrors_expression hR least.toNat inMatrix
  | unary inMatrix => exact mirrors_unary hR inMatrix
  | suffix inMatrix => exact mirrors_suffix hR inMatrix
  | primary inMatrix => exact mirrors_primary hR inMatrix
  | memberAccess inMatrix => exact .lift _

/-- What the grammar reads for a call is read in pairs. -/
lemma goes (c : Call) (m : Mode) (limit : Int) (n loops : Nat) :
    Goes m (c.grammar (level limit m.first n) loops)
      (c.grammar (level limit m.second n) loops) := by
  have hL := levelPair m limit n
  cases c with
  | program => exact ⟨fun s s' h => paired_program m limit n loops h.near⟩
  | statement => exact (starts_statement hL loops).goes
  | block => exact goes_block hL loops
  | expression least inMatrix => exact (starts_expression hL least.toNat inMatrix).goes.of_quiet
  | unary inMatrix => exact (starts_unary hL inMatrix).goes.of_quiet
  | suffix inMatrix => exact (starts_suffix hL inMatrix).goes.of_quiet
  | primary inMatrix => exact (starts_primary hL inMatrix).goes.of_quiet
  | memberAccess inMatrix => exact (starts_memberAccess inMatrix).goes.of_quiet

/-- What the grammar reads for a call passes over tokens and adds errors and comments. A
strict reader adds no errors. -/
lemma moves (c : Call) (limit : Int) (strict : Bool) (n loops : Nat) (s : Parser) :
    ∃ ts es cs, Moves s (Parse.after (c.grammar (level limit strict n) loops s)) ts es cs
      ∧ (strict = true → es = []) := by
  cases strict with
  | true =>
    obtain ⟨ts, es, cs, h, he⟩ := (c.goes .quiet limit n loops).moves (by decide) s
    exact ⟨ts, es, cs, h, fun _ => he.resolve_left (by decide)⟩
  | false =>
    obtain ⟨ts, es, cs, h, -⟩ := (c.goes .recovering limit n loops).moves (by decide) s
    exact ⟨ts, es, cs, h, fun h => by cases h⟩

/-- The state behind a call, whether it returns or fails. -/
def after (c : Call) (s : Counted) : Counted :=
  match c.run s with
  | .ok _ t => t
  | .error _ t => t

/-- The state behind some calls on one reader, where those that fail are followed by the next
as well. -/
def afterAll (cs : List Call) (s : Counted) : Counted := cs.foldl (fun t c => c.after t) s

lemma after_eq (c : Call) (k : Counters) (p : Parser) :
    c.after ⟨k, p⟩
      = ⟨k, Parse.after (c.grammar (levelAt k.limit k.strict k.depth) k.loops p)⟩ := by
  unfold after
  rw [(c.mirrors k).run p]
  cases c.grammar (levelAt k.limit k.strict k.depth) k.loops p <;> rfl

end Call

/-! ### What stays -/

/-- A reader goes from one state to another by reading on: the counters, the limits and the
tokens are the same, the place moves ahead among them, and errors and comments are added. A
strict reader records no errors. -/
structure Counted.Keeps (s t : Counted) : Prop where
  counters : t.counters = s.counters
  tokens : t.parser.tokens = s.parser.tokens
  ahead : s.parser.position ≤ t.parser.position
  within : t.parser.position ≤ t.parser.tokens.length
  errors : s.parser.errors <+: t.parser.errors
  trivia : s.parser.trivia <+: t.parser.trivia
  strict : s.counters.strict = true → t.parser.errors = s.parser.errors

lemma Parser.position_le (s : Parser) : s.position ≤ s.tokens.length := by
  simp only [position, tokens, List.length_append, List.length_reverse]
  omega

lemma Moves.tokens {s t : Parser} {ts : List Token} {es : List Error} {cs : List Node}
    (h : Moves s t ts es cs) : t.tokens = s.tokens := by
  simp [Parser.tokens, h.rest, h.before]

namespace Counted.Keeps

variable {s t u : Counted}

lemma refl (s : Counted) : s.Keeps s :=
  ⟨rfl, rfl, Nat.le_refl _, s.parser.position_le, List.prefix_rfl, List.prefix_rfl, fun _ => rfl⟩

lemma trans (h : s.Keeps t) (h' : t.Keeps u) : s.Keeps u where
  counters := h'.counters.trans h.counters
  tokens := h'.tokens.trans h.tokens
  ahead := Nat.le_trans h.ahead h'.ahead
  within := h'.within
  errors := h.errors.trans h'.errors
  trivia := h.trivia.trans h'.trivia
  strict hs := (h'.strict (h.counters ▸ hs)).trans (h.strict hs)

/-- A reader that moves and leaves its counters alone. -/
lemma of_moves {k : Counters} {p q : Parser} {ts : List Token} {es : List Error}
    {cs : List Node} (h : Moves p q ts es cs) (hs : k.strict = true → es = []) :
    Keeps ⟨k, p⟩ ⟨k, q⟩ where
  counters := rfl
  tokens := h.tokens
  ahead := by
    rw [h.position]
    exact Nat.le_add_right ..
  within := q.position_le
  errors := h.errors ▸ List.prefix_append ..
  trivia := h.trivia ▸ List.prefix_append ..
  strict hk := by rw [h.errors, hs hk, List.append_nil]

end Counted.Keeps

/-- One call, from any state and with any outcome. -/
lemma Call.keeps_after (c : Call) (s : Counted) : s.Keeps (c.after s) := by
  obtain ⟨k, p⟩ := s
  obtain ⟨ts, es, cs, h, hs⟩ := c.moves k.limit k.strict (k.limit - k.depth).toNat k.loops p
  rw [c.after_eq]
  exact .of_moves h hs

/-- **Calls keep the counters**. Whatever the state of a reader and whatever it is asked to
read, whether the call returns or fails, the depth, the open loops, the limits and the tokens
are afterwards as they were, the place has moved ahead within the tokens, and errors and
comments have only been added, errors by a recovering reader only. So it is behind any
sequence of calls, those that fail included. -/
theorem calls_keep (s : Counted) :
    (∀ (c : Call) (n : Node) (t : Counted), c.run s = .ok n t → s.Keeps t)
      ∧ (∀ (c : Call) (e : Error) (t : Counted), c.run s = .error e t → s.Keeps t)
      ∧ ∀ cs : List Call, s.Keeps (Call.afterAll cs s) := by
  refine ⟨fun c n t h => ?_, fun c e t h => ?_, fun cs => ?_⟩
  · have hk := c.keeps_after s
    rwa [Call.after, h] at hk
  · have hk := c.keeps_after s
    rwa [Call.after, h] at hk
  · induction cs generalizing s with
    | nil => exact .refl s
    | cons c cs ih => exact (c.keeps_after s).trans (ih (c.after s))

end StpLang
