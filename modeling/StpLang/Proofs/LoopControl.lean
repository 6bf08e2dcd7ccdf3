import StpLang.Proofs.Lex.Causes
import StpLang.Proofs.LoopControl.Grammar
import StpLang.Proofs.LoopControl.Tree
import StpLang.Proofs.Schema

/-!
`break` and `cont` stand in loops.

In every tree there is a loop around each `break` and each `cont`, within the same
function. And where a strict reader complains that there is none, there is none: the
tokens before the place open no body of a loop within the innermost function that they
do not close.

* `controlled_of_readFrom` is the result for trees.
* `openBodies_settle`: the comments that are set aside open and close no body.
* `strays_of_parse` is the result for the complaints of a strict reader.
* `loopControl_in_loop` puts the two together.
-/

namespace StpLang

open Parse Grammar StpLang.Parser Node

/-! ### Trees -/

section

variable {source : String} {limit : Int} {strict : Bool} {tokens : List Token} {c : Cursor}
  {t : Tree} {e : Error}

/-- The statements of a program stand in the loops that they need. -/
lemma controlled_of_readTokens {trace : List Event}
    (h : (readTokens limit false tokens trace).result = .ok t)
    (hf : ∀ n ∈ t.root.children, n.Formed) :
    ∀ n ∈ t.root.children, n.controlled false = true := by
  rw [readTokens_result] at h
  cases hs : program (level limit false limit.toNat) 0 (startAt tokens trace) with
  | error e s => rw [hs] at h; cases h
  | ok root s =>
    rw [hs] at h
    cases h
    obtain ⟨⟨ts, -, hmends⟩, -, -⟩ := mends_of_program hs
    exact hmends.controlled hf

lemma controlled_of_readFrom (h : (readFrom limit strict c).result = .ok t) :
    t.root.controlled false = true := by
  obtain ⟨hk, hformed⟩ := formed_of_readFrom h
  have hchildren := (formed_iff.mp hformed).2
  have hcontrol : t.root.kind.isControl = false := by rw [hk]; rfl
  have hin : t.root.kind.inLoop false = false := by rw [hk]; rfl
  rw [controlled_iff hcontrol, hin]
  obtain ⟨us, v, -, ⟨e, w, trace, -, -, ht⟩ | ⟨-, error, trace, t', ht, rfl⟩⟩ := readFrom_cases h
  · exact controlled_of_readTokens ht hchildren
  · rw [Tree.withUnreadable] at hchildren ⊢
    dsimp only at hchildren ⊢
    rw [List.forall_mem_append] at hchildren ⊢
    exact ⟨controlled_of_readTokens ht hchildren.1, List.forall_mem_singleton.mpr rfl⟩

/-! ### Complaints -/

/-- What is set aside, and a `mod` that becomes a name, opens and closes no body. -/
lemma openBodies_settle (depth : Nat) (last : Option TokenKind) (ts : List Token) (b : Bodies) :
    (settle depth last ts).1.foldl Bodies.after b = ts.foldl Bodies.after b := by
  induction ts generalizing depth last b with
  | nil => rfl
  | cons t ts ih =>
    rw [settle_cons, List.foldl_cons]
    cases h : keptToken? depth last t with
    | none =>
      rw [Bodies.after_of_isStill (by rw [keptToken?_none h]; rfl)]
      exact ih ..
    | some u =>
      have hafter : b.after u = b.after t := by
        rcases keptToken?_some h with rfl | ⟨hk, rfl⟩
        · rfl
        · rw [Bodies.after_of_isStill rfl, Bodies.after_of_isStill (by rw [hk]; rfl)]
      rw [List.foldl_cons, hafter]
      exact ih ..

/-- Among the tokens that the grammar is given stand the `break`s and `cont`s of the
text, with the same bodies open before them. -/
lemma Strays.of_settle (h : Strays (settle 0 none tokens).1 e) : Strays tokens e := by
  intro hs
  obtain ⟨us, x, vs, hsplit, hx, he, hloops⟩ := h hs
  obtain ⟨as, y, bs, hts, has, hy⟩ := settle_split hsplit
  rcases keptToken?_some hy with rfl | ⟨-, rfl⟩
  · refine ⟨as, x, bs, hts, hx, he, ?_⟩
    rwa [openBodies, ← openBodies_settle 0 none as, has]
  · rcases hx with hx | hx <;> cases hx

lemma strays_of_readTokens {trace : List Event}
    (h : (readTokens limit true tokens trace).result = .error e) : Strays tokens e := by
  rw [readTokens_result] at h
  have hminds := (mindsAt_program limit limit.toNat (startAt tokens trace)).run
  rw [show (startAt tokens trace).bodies.loops = 0 from rfl] at hminds
  cases hs : program (level limit true limit.toNat) 0 (startAt tokens trace) with
  | ok root s => rw [hs] at h; cases h
  | error e s =>
    rw [hs] at h hminds
    cases h
    cases hminds with
    | error hstrays => exact hstrays.of_settle

/-- When a strict reader complains about a `break` or a `cont`, the text has been cut
into tokens and there is no loop around the one of which it complains. -/
lemma strays_of_parse (h : parse source true limit = .error e) (hs : e.cause.isStray = true) :
    ∃ ts, tokenize source limit = .ok ts ∧ Strays ts e := by
  unfold tokenize tokenizeFrom Lexed.toExcept
  cases hf : (Lexed.run limit (.ofText source)).fault with
  | some fault =>
    rw [parse_strict_of_fault hf] at h
    cases h
    have hlexical := isLexical_of_fault hf
    generalize fault.error.cause = cause at hs hlexical
    cases cause <;> first | (cases hs; done) | cases hlexical
  | none =>
    rw [parse_of_cut true hf] at h
    exact ⟨_, rfl, strays_of_readTokens h⟩

end

/-- **`break` and `cont` stand in loops.** In the tree of any text, under any limit and
in either mode, the path to a `break` or a `cont` leads through the body of a loop and
from there on through no further function. And when a strict reader complains that one
stands outside of loops, it is the token of which it complains, and the tokens before it
leave no body of a loop open within the innermost function. -/
theorem loopControl_in_loop (source : String) (limit : Int) :
    (∀ strict t, parse source strict limit = .ok t →
      ∀ path n, t.root.descend? path = some n → n.kind.isControl = true → t.root.LoopOver path)
    ∧ ∀ e, parse source true limit = .error e → e.cause.isStray = true →
      ∃ ts us x vs, tokenize source limit = .ok ts ∧ ts = us ++ x :: vs
        ∧ (x.kind = .kwBreak ∨ x.kind = .kwCont) ∧ e = ⟨.outsideLoop x.value, x.span⟩
        ∧ (openBodies us).loops = 0 := by
  refine ⟨fun strict t h path n hn hk => ?_, fun e h hs => ?_⟩
  · have hformed := (formed_of_readFrom h).2
    exact (Formed.loopOver hformed (controlled_of_readFrom h) hn hk).resolve_right
      fun hin => Bool.false_ne_true hin.1
  · obtain ⟨ts, hts, hstrays⟩ := strays_of_parse h hs
    obtain ⟨us, x, vs, hsplit, hx⟩ := hstrays hs
    exact ⟨ts, us, x, vs, hts, hsplit, hx⟩

/-- A loop around a function in which a `break` stands behind another loop, and around a
`cont`. -/
def strayBreak : String :=
  "while 1 \x7b if a \x7b fn f() \x7b for i in b \x7b\x7d break \x7d\n cont \x7d \x7d"

/-- The `cont` stands in the loop, across a broken function; of the `break` a strict reader
complains. -/
theorem loopControl_in_loop_strayBreak :
    (∃ t, parse strayBreak false 9 = .ok t
      ∧ (t.root.descend? [0, 1, 0, 1, 1]).map (·.kind) = some .contStatement
      ∧ t.root.LoopOver [0, 1, 0, 1, 1])
    ∧ ∃ e, parse strayBreak true 9 = .error e ∧ e.cause = .outsideLoop "break"
      ∧ ∃ ts us x vs, tokenize strayBreak 9 = .ok ts ∧ ts = us ++ x :: vs ∧ e.span = x.span
        ∧ (openBodies us).loops = 0 := by
  obtain ⟨htree, hcomplaint⟩ := loopControl_in_loop strayBreak 9
  constructor
  · obtain ⟨t, ht, hkind⟩ := exists_of_map_toOption (show (parse strayBreak false 9).toOption.map
      (fun t => (t.root.descend? [0, 1, 0, 1, 1]).map (·.kind)) = some (some .contStatement) by
        decide +kernel)
    obtain ⟨n, hn, hk⟩ := Option.map_eq_some_iff.mp hkind
    exact ⟨t, ht, hkind, htree false t ht _ n hn (by rw [hk]; rfl)⟩
  · obtain ⟨e, he, hcause⟩ := exists_of_map_thrown? (show
      (thrown? (parse strayBreak true 9)).map (·.cause) = some (.outsideLoop "break") by
        decide +kernel)
    obtain ⟨ts, us, x, vs, hts, hsplit, -, heq, hloops⟩ :=
      hcomplaint e he (by rw [hcause]; rfl)
    exact ⟨e, he, hcause, ts, us, x, vs, hts, hsplit, by rw [heq], hloops⟩

end StpLang
