import StpLang.Grammar.Statement
import StpLang.Proofs.Sequence

/-!
Running a step of reading.

The steps of `Parse` are functions of the state. The equations below carry out
the first action of a step, so that a proof can follow a reader token by token.

* `discard_bind` and `map_eq_bind` bring steps into sequence.
* `run_current`, `run_advance` and their kin run the single actions.
-/

namespace StpLang

namespace Parse

variable {α β : Type} {s t : Parser}

/-! ### Sequences -/

/-- Discarding a result keeps the run. -/
lemma discard_bind (p : Parse α) (f : PUnit → Parse β) :
    (discard p >>= f) = p >>= fun _ => f ⟨⟩ := by
  funext s
  cases hp : p s <;>
    simp only [discard, Functor.mapConst, EStateM.map, Function.comp, Function.const,
      bind, EStateM.bind, hp]

/-- Mapping a result is a sequence. -/
lemma map_eq_bind (g : α → β) (p : Parse α) : (g <$> p) = p >>= fun a => pure (g a) := by
  funext s
  cases hp : p s <;>
    simp only [Functor.map, EStateM.map, bind, EStateM.bind, pure, EStateM.pure, hp]

/-! ### Single actions -/

@[simp] lemma run_pure (a : α) (s : Parser) : (pure a : Parse α) s = .ok a s := rfl

@[simp] lemma run_get (f : Parser → Parse β) (s : Parser) : (get >>= f) s = f s s := rfl

@[simp] lemma run_set (u : Parser) (f : PUnit → Parse β) (s : Parser) :
    ((set u : Parse PUnit) >>= f) s = f ⟨⟩ u := rfl

@[simp] lemma run_modify (g : Parser → Parser) (f : PUnit → Parse β) (s : Parser) :
    ((modify g : Parse PUnit) >>= f) s = f ⟨⟩ (g s) := rfl

@[simp] lemma run_note (e : Event) (f : Unit → Parse β) (s : Parser) :
    (note e >>= f) s = f () { s with trace := e :: s.trace } := rfl

@[simp] lemma run_current (f : Token → Parse β) (s : Parser) :
    (current >>= f) s = f s.current s := rfl

@[simp] lemma run_tokensLeft (f : Nat → Parse β) (s : Parser) :
    (tokensLeft >>= f) s = f s.rest.length s := rfl

@[simp] lemma run_advance (f : Token → Parse β) (s : Parser) :
    (advance >>= f) s = f s.current s.step := rfl

lemma run_expect {kinds : List TokenKind} (h : kinds.contains s.current.kind = true) :
    expect kinds s = .ok s.current s.step := by
  simp only [expect, run_current, h, if_true]
  rfl

lemma run_expect_other {kinds : List TokenKind} (h : ¬kinds.contains s.current.kind = true) :
    expect kinds s = .error ⟨.expected kinds (.of s.current), s.current.span⟩ s := by
  simp only [expect, run_current, h]
  rfl

lemma run_close {opener : Token} (h : opener.kind.closer? = some s.current.kind) :
    close opener s = .ok s.current s.step := by
  simp only [close, run_current, h, beq_self_eq_true, if_true]
  rfl

@[simp] lemma run_fail (c : Cause) (r : Span) (s : Parser) :
    (fail c r : Parse α) s = .error ⟨c, r⟩ s := rfl

@[simp] lemma run_fail_bind (c : Cause) (r : Span) (f : α → Parse β) (s : Parser) :
    (fail c r >>= f) s = .error ⟨c, r⟩ s := rfl

@[simp] lemma run_node (kind : Kind) (p : Place) (children : List Node) (fields : FieldTable)
    (value : Option String) (s : Parser) :
    node kind p children fields value s
      = .ok (.spanning kind p s.previous.stop children fields value) s := rfl

@[simp] lemma run_node_bind (kind : Kind) (p : Place) (children : List Node)
    (fields : FieldTable) (value : Option String) (f : Node → Parse β) (s : Parser) :
    (node kind p children fields value >>= f) s
      = f (.spanning kind p s.previous.stop children fields value) s := rfl

end Parse

/-! ### Levels -/

open Grammar in
/-- One level further in, a nonterminal is read as at the level inside. -/
lemma derive_eq (limit : Int) (strict : Bool) (n : Nat) (x : Nonterminal) :
    derive limit strict n x = produce (level limit strict n) x := by
  cases n <;> rfl

end StpLang
