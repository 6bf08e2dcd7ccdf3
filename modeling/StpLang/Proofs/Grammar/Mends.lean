import StpLang.Proofs.Grammar.SoundStatement
import StpLang.Proofs.Parse.Rounds

/-!
What a recovering reader reads.

A reader that recovers from errors reads expressions as a strict one does. A
statement that it cannot read becomes a node for the error, over the tokens that
are passed on its account. `Mends` is the grammar of statements with a rule for
broken ones.

* `Reads.of_starts` carries what a strict reader reads to one that stays with it.
* `mended_attempt` is the step: a statement is read or passed over.
* `mended_level` follows this through the levels of the grammar.
* `mends_of_program`: a program that is read with recovery is mended.
-/

namespace StpLang

open Parse Grammar

/-! ### Rules -/

/-- The words that open a statement with a block. -/
def TokenKind.opensBlock : TokenKind → Bool
  | .kwIf | .kwWhile | .kwFor | .kwFn => true
  | _ => false

/-- The node that stands for the tokens of a broken statement. -/
def brokenNode (first : Token) (more : List Token) (message : String) : Node :=
  .spanning .error first.place (max (lastStop (first :: more)) first.stop) [] [] (some message)

/-- Where `allowance` levels may still be entered, the tokens `ts` before the
tokens `k` form statements, some of them broken, that become the nodes `ns`. -/
inductive Mends : (allowance : Nat) → Phrase → (ts k : List Token) → (ns : List Node) → Prop
  | simple {a loops : Nat} {ts k : List Token} {n : Node}
      (h : Derives a (.statement loops) ts k [n]) (hn : (headKind ts).opensBlock = false) :
      Mends a (.statement loops) ts k [n]
  | ifStatement {a loops : Nat} {t : Token} {ts us vs k : List Token} {n body : Node}
      {ns : List Node} (ht : t.kind = .kwIf)
      (h : Derives a (.expression 1 false) ts (us ++ (vs ++ k)) [n])
      (hb : Mends a (.block loops) us (vs ++ k) [body])
      (hc : Mends a (.clauses loops false) vs k ns) :
      Mends a (.statement loops) (t :: (ts ++ (us ++ vs))) k
        [.spanning .ifStatement t.place (lastStop (us ++ vs)) (n :: body :: ns)
          [(.condition, [0]), (.body, [1])]]
  | whileLoop {a loops : Nat} {t : Token} {ts us k : List Token} {n body : Node}
      (ht : t.kind = .kwWhile) (h : Derives a (.expression 1 false) ts (us ++ k) [n])
      (hb : Mends a (.block (loops + 1)) us k [body]) :
      Mends a (.statement loops) (t :: (ts ++ us)) k
        [.spanning .whileLoop t.place (lastStop us) [n, body]
          [(.loopExpr, [0]), (.loopBody, [1])]]
  | forLoop {a loops : Nat} {t x i : Token} {ts us k : List Token} {n body : Node}
      (ht : t.kind = .kwFor) (hx : x.kind = .identifier) (hi : i.kind = .kwIn)
      (h : Derives a (.expression 1 false) ts (us ++ k) [n])
      (hb : Mends a (.block (loops + 1)) us k [body]) :
      Mends a (.statement loops) (t :: x :: i :: (ts ++ us)) k
        [.spanning .forLoop t.place (lastStop us) [.leaf .identifier x, n, body]
          [(.loopVar, [0]), (.loopExpr, [1]), (.loopBody, [2])]]
  | functionDefinition {a loops : Nat} {t x opener closer : Token} {ls us vs ws k : List Token}
      {xs ys : List Node} {body : Node} (ht : t.kind = .kwFn) (hx : x.kind = .identifier)
      (ho : opener.kind = .leftParen) (hl : LeadingComma ls (us ++ (vs ++ closer :: (ws ++ k))))
      (hp : Derives a (.arguments .parameter) us (vs ++ closer :: (ws ++ k)) xs)
      (hy : Derives a (.arguments .keyword) vs (closer :: (ws ++ k)) ys)
      (hc : closer.kind = .rightParen) (hb : Mends a (.block 0) ws k [body]) :
      Mends a (.statement loops)
        (t :: x :: opener :: (ls ++ (us ++ (vs ++ closer :: ws)))) k
        [.spanning .functionDefinition t.place (lastStop ws)
          [.leaf .identifier x, argumentsNode .positionalArgs opener closer xs,
            argumentsNode .keywordArgs opener closer ys, body]
          [(.fnName, [0]), (.posArgs, [1]), (.keywordArgs, [2]), (.fnBody, [3])]]
  -- blocks and sequences
  | block {b loops : Nat} {opener closer : Token} {ts k : List Token} {ns : List Node}
      (ho : opener.kind = .leftBrace) (h : Mends b (.statements loops true) ts (closer :: k) ns)
      (hc : closer.kind = .rightBrace) :
      Mends (b + 1) (.block loops) (opener :: (ts ++ [closer])) k
        [.spanning .block opener.place closer.stop ns]
  | clausesEnd {a loops : Nat} {seenElse : Bool} {k : List Token} (h : clauseAhead k = false) :
      Mends a (.clauses loops seenElse) [] k []
  | clausesElseif {a loops : Nat} {t : Token} {ls ts us vs k : List Token} {n body : Node}
      {ns : List Node} (hl : ∀ l ∈ ls, l.kind = .newline) (ht : t.kind = .kwElseif)
      (h : Derives a (.expression 1 false) ts (us ++ (vs ++ k)) [n])
      (hb : Mends a (.block loops) us (vs ++ k) [body])
      (hc : Mends a (.clauses loops false) vs k ns) :
      Mends a (.clauses loops false) (ls ++ t :: (ts ++ (us ++ vs))) k
        (.spanning .elseifClause t.place (lastStop us) [n, body]
          [(.condition, [0]), (.body, [1])] :: ns)
  | clausesElse {a loops : Nat} {t : Token} {ls us vs k : List Token} {body : Node}
      {ns : List Node} (hl : ∀ l ∈ ls, l.kind = .newline) (ht : t.kind = .kwElse)
      (hb : Mends a (.block loops) us (vs ++ k) [body])
      (hc : Mends a (.clauses loops true) vs k ns) :
      Mends a (.clauses loops false) (ls ++ t :: (us ++ vs)) k
        (.spanning .elseClause t.place (lastStop us) [body] [(.body, [0])] :: ns)
  | statementsEnd {a loops : Nat} {inBlock : Bool} {k : List Token}
      (h : headKind k = .eof ∨ (inBlock = true ∧ headKind k = .rightBrace)) :
      Mends a (.statements loops inBlock) [] k []
  | statementsSeparator {a loops : Nat} {inBlock : Bool} {t : Token} {ts k : List Token}
      {ns : List Node} (ht : t.kind.isSeparator = true)
      (h : Mends a (.statements loops inBlock) ts k ns) :
      Mends a (.statements loops inBlock) (t :: ts) k ns
  | statementsMore {a loops : Nat} {inBlock : Bool} {ts us k : List Token} {n : Node}
      {ns : List Node} (h : Mends a (.statement loops) ts (us ++ k) [n])
      (hs : Mends a (.statements loops inBlock) us k ns) :
      Mends a (.statements loops inBlock) (ts ++ us) k (n :: ns)
  | statementsBroken {a loops : Nat} {inBlock : Bool} {first : Token} {more us k : List Token}
      {message : String} {ns : List Node} (hs : Mends a (.statements loops inBlock) us k ns) :
      Mends a (.statements loops inBlock) (first :: more ++ us) k
        (brokenNode first more message :: ns)

/-- A block begins with a brace. -/
lemma Mends.block_ne_nil {a loops : Nat} {ts k : List Token} {ns : List Node}
    (h : Mends a (.block loops) ts k ns) : ts ≠ [] := by
  cases h with
  | block => exact List.cons_ne_nil _ _

/-! ### Readers that stay together -/

section

variable {p p' : Parse Node} {s t : Parser} {ts us : List Token} {es : List Error}
  {cs : List Node} {n : Node} {a b loops : Nat} {L : Level} {readOne : Parse Node}

/-- What a reader that stays with another one has read, the other one reads. -/
lemma Starts.run_first (h : Starts .quiet p p') (hr : p' s = .ok n t) :
    ∃ u, p s = .ok n u ∧ u.rest = t.rest ∧ ∀ ts, Passes s u ts → Passes s t ts := by
  have hp := h.run s s (.refl s)
  rw [hr] at hp
  generalize p s = r at hp
  cases hp with
  | @ok _ u _ ht =>
    obtain ⟨ts, ts', es, cs, hm, hm', hlen, -, -⟩ := ht
    obtain ⟨rfl, hrest⟩ := List.append_inj (hm'.rest.symm.trans hm.rest) hlen
    refine ⟨u, rfl, hrest.symm, fun us hus => ?_⟩
    obtain ⟨rfl, rfl, rfl⟩ := Moves.unique hus hm
    exact hm'
  | parted hm => cases hm

/-- A reader that stays with a reader of a phrase reads that phrase. -/
lemma Reads.of_starts {x : Phrase} (h : Starts .quiet p p') (hr : Reads a x p) : Reads a x p' := by
  refine ⟨fun {s n t} hs => ?_⟩
  obtain ⟨u, hu, hrest, hpass⟩ := h.run_first hs
  obtain ⟨ts, hts, hd⟩ := hr.run hu
  exact ⟨ts, hpass ts hts, hrest ▸ hd⟩

/-- The token read last is the last one passed. -/
lemma Moves.previous_stop (h : Moves s t ts es cs) (hne : ts ≠ []) :
    t.previous.stop = lastStop ts := by
  obtain ⟨init, last, rfl⟩ := List.eq_nil_or_concat ts |>.resolve_left hne
  simp [Parser.previous, h.before, lastStop]

/-! ### Statements and their repair -/

/-- The run from `s` to `t` passes over the tokens `ts`. -/
def Runs (s t : Parser) (ts : List Token) : Prop := ∃ es cs, Moves s t ts es cs

lemma Runs.trans {u : Parser} (h : Runs s t ts) (h' : Runs t u us) : Runs s u (ts ++ us) := by
  obtain ⟨es, cs, h⟩ := h
  obtain ⟨fs, ds, h'⟩ := h'
  exact ⟨_, _, h.trans h'⟩

lemma Runs.rest (h : Runs s t ts) : s.rest = ts ++ t.rest := by
  obtain ⟨es, cs, h⟩ := h
  exact h.rest

lemma Runs.length (h : Runs s t ts) : s.rest.length = ts.length + t.rest.length := by
  rw [h.rest, List.length_append]

lemma Runs.previous_stop (h : Runs s t ts) (hne : ts ≠ []) : t.previous.stop = lastStop ts := by
  obtain ⟨es, cs, h⟩ := h
  exact h.previous_stop hne

lemma Passes.runs (h : Passes s t ts) : Runs s t ts := ⟨_, _, h⟩

/-- The function reads mended statements, and a run that fails passes over
tokens all the same. -/
structure Mended (a loops : Nat) (readOne : Parse Node) : Prop where
  run : ∀ {s n t}, readOne s = .ok n t → ∃ ts, Runs s t ts ∧ ts ≠ []
    ∧ Mends a (.statement loops) ts t.rest [n]
  stop : ∀ {s e t}, readOne s = .error e t → ∃ ts, Runs s t ts

/-- Recovery passes over a token, and its node reaches from the first token of
the statement to the last one passed. -/
lemma recover_inv {e : Error} {u : Parser} (inBlock : Bool) (hk : s.current.kind ≠ .eof)
    (hu : Runs s u us) (hr : recover inBlock s.current s.position e u = (n, t)) :
    ∃ more, Runs s t (s.current :: more) ∧ n = brokenNode s.current more e.message := by
  have hpassed : Runs s (passed inBlock e u) _ := hu.trans ⟨_, _, moves_passed inBlock e u⟩
  obtain ⟨ts, hts, hne⟩ : ∃ ts, Runs s t ts ∧ ts ≠ [] := by
    have hstate := recover_state inBlock hk s.position e u
    rw [hr] at hstate
    split at hstate
    · -- nothing has been passed, so the first token is
      rename_i hpos
      obtain ⟨es, cs, hm⟩ := hpassed
      rw [hm.position, Nat.add_eq_left, List.length_eq_zero_iff] at hpos
      rw [hpos] at hm
      have hne : (passed inBlock e u).rest ≠ [] := by
        have := hm.rest
        rw [List.nil_append] at this
        rw [← this]
        exact Parser.rest_ne_nil hk
      obtain ⟨x, xs, hx⟩ := List.exists_cons_of_ne_nil hne
      have hstep : Runs s (passed inBlock e u).step [x] := ⟨_, _, hm.trans (.step hx)⟩
      rw [← show t = _ from hstate] at hstep
      exact ⟨_, hstep, List.cons_ne_nil _ _⟩
    · rename_i hpos
      obtain ⟨es, cs, hm⟩ := hpassed
      have hne : us ++ u.rest.take (brokenLength inBlock 0 u.rest) ≠ [] := fun hnil =>
        hpos (by rw [hm.position, hnil, List.length_nil, Nat.add_zero])
      exact ⟨_, ⟨es, cs, by rwa [show t = _ from hstate]⟩, hne⟩
  obtain ⟨x, more, rfl⟩ := List.exists_cons_of_ne_nil hne
  obtain rfl : s.current = x := by
    rw [Parser.current, hts.rest]
    rfl
  refine ⟨more, hts, ?_⟩
  have hnode := recover_node inBlock s.current s.position e u
  rw [hr] at hnode
  rw [show n = _ from hnode, hts.previous_stop hne]
  rfl

/-- A statement is read, or passed over as a broken one. -/
lemma mended_attempt (hr : Mended a loops readOne) (inBlock : Bool) (hk : s.current.kind ≠ .eof)
    (h : attempt false inBlock readOne s = .ok n t) :
    ∃ ts, Runs s t ts ∧ ts ≠ [] ∧ (Mends a (.statement loops) ts t.rest [n]
      ∨ ∃ first more message, ts = first :: more ∧ n = brokenNode first more message) := by
  unfold attempt at h
  cases hs : readOne s with
  | ok x u =>
    rw [hs] at h
    cases h
    obtain ⟨ts, hts, hne, hd⟩ := hr.run hs
    exact ⟨ts, hts, hne, .inl hd⟩
  | error e u =>
    rw [hs] at h
    dsimp only at h
    rw [if_neg Bool.false_ne_true] at h
    obtain ⟨us, hus⟩ := hr.stop hs
    obtain ⟨hn, ht⟩ := EStateM.Result.ok.inj h
    obtain ⟨more, hm, hn⟩ := recover_inv inBlock hk hus (Prod.ext hn ht)
    exact ⟨_, hm, List.cons_ne_nil _ _, .inr ⟨_, _, _, rfl, hn⟩⟩

lemma mended_statements (hr : Mended a loops readOne) (inBlock : Bool) {bound : Nat}
    {ns : List Node} (h : statements false readOne (blockCloser inBlock) bound s = .ok ns t)
    (hb : s.rest.length ≤ bound) :
    ∃ ts, Runs s t ts ∧ Mends a (.statements loops inBlock) ts t.rest ns := by
  induction bound generalizing s ns with
  | zero =>
    cases h
    refine ⟨[], ⟨_, _, .refl _⟩, .statementsEnd (.inl ?_)⟩
    rw [List.length_eq_zero_iff.mp (Nat.le_zero.mp hb)]
    rfl
  | succ bound ih =>
    rw [statements, run_current, Parser.current_kind] at h
    split at h
    · rename_i hsep
      rw [discard_bind] at h
      obtain ⟨x, u, hx, h⟩ := bind_eq_ok.mp h
      have hkind : headKind s.rest ≠ .eof ∧ headKind s.rest ≠ .string := by
        generalize headKind s.rest = kind at hsep
        cases kind <;> cases hsep <;> exact ⟨by decide, by decide⟩
      obtain ⟨-, -, hxk, hp⟩ := advance_inv rfl hkind.1 hkind.2 hx
      have hlen := hp.length
      rw [List.length_singleton] at hlen
      obtain ⟨ts, hts, hd⟩ := ih h (by omega)
      exact ⟨_, hp.runs.trans hts, .statementsSeparator (hxk ▸ hsep) hd⟩
    · split at h
      · rename_i hend
        cases h
        refine ⟨[], ⟨_, _, .refl _⟩, .statementsEnd ?_⟩
        cases inBlock with
        | true =>
          simp only [blockCloser, if_true, Bool.or_eq_true, beq_iff_eq, Option.some.injEq] at hend
          exact hend.imp_right fun h => ⟨rfl, h.symm⟩
        | false => simpa [blockCloser] using hend
      · rename_i hend
        obtain ⟨x, u, hx, h⟩ := bind_eq_ok.mp h
        obtain ⟨xs, v, hxs, h⟩ := bind_eq_ok.mp h
        cases h
        have hk : s.current.kind ≠ .eof := by
          intro he
          rw [Parser.current_kind] at he
          simp [he] at hend
        obtain ⟨ts, hts, hne, hd⟩ := mended_attempt hr _ hk hx
        have hlen := hts.length
        have hpos := List.length_pos_iff.mpr hne
        obtain ⟨us, hus, hds⟩ := ih hxs (by omega)
        refine ⟨_, hts.trans hus, ?_⟩
        rcases hd with hd | ⟨first, more, message, rfl, rfl⟩
        · exact .statementsMore (hus.rest ▸ hd) hds
        · exact .statementsBroken hds

/-! ### Statements with blocks -/

/-- A recovering level that reads expressions as a strict one does. -/
structure MendedLevel (a : Nat) (L : Level) : Prop where
  strict : L.strict = false
  expression : Reads a (.expression 1 false) (anyExpression L)
  inner : ∀ read, L.inner = some read →
    ∃ b, a = b + 1 ∧ ∀ loops, Mended b loops (read (.statement loops))

lemma mended_block (hL : MendedLevel a L) (h : block L loops s = .ok n t) :
    ∃ ts, Runs s t ts ∧ Mends a (.block loops) ts t.rest [n] := by
  unfold block at h
  rw [run_current, Parser.current_kind] at h
  split at h
  · cases h
  rename_i hk
  have hk : headKind s.rest = .leftBrace := by simpa using hk
  dsimp only at h
  rw [discard_bind] at h
  obtain ⟨o, u, ho, h⟩ := bind_eq_ok.mp h
  obtain ⟨hor, -, hok, hop⟩ := advance_inv hk (by decide) (by decide) ho
  rw [Parser.current_of_rest hor] at h
  obtain ⟨children, v, hchildren, h⟩ := bind_eq_ok.mp h
  unfold nested at hchildren
  cases hi : L.inner with
  | none => rw [hi] at hchildren; cases hchildren
  | some read =>
    rw [hi] at hchildren
    obtain ⟨b, rfl, hread⟩ := hL.inner read hi
    dsimp only at hchildren
    rw [run_tokensLeft, hL.strict] at hchildren
    obtain ⟨xs, w, hxs, hclose⟩ := bind_eq_ok.mp hchildren
    rw [discard_bind] at hclose
    obtain ⟨c, w', hc, hclose⟩ := bind_eq_ok.mp hclose
    cases hclose
    obtain ⟨ts, hts, hd⟩ := mended_statements (hread loops) true hxs (Nat.le_refl _)
    obtain ⟨hcr, -, hck, hcp⟩ := close_inv (by rw [hok]; rfl) (by decide) (by decide) hc
    rw [run_node, hcp.previous_stop (by simp)] at h
    cases h
    exact ⟨_, hop.runs.trans (hts.trans hcp.runs), .block hok (hcr ▸ hd) hck⟩

lemma mended_clauses (hL : MendedLevel a L) {bound : Nat} {seenElse : Bool} {ns : List Node}
    (hb : s.rest.length ≤ bound) (h : clauses L loops bound seenElse s = .ok ns t) :
    ∃ ts, Runs s t ts ∧ Mends a (.clauses loops seenElse) ts t.rest ns := by
  induction bound generalizing s ns seenElse with
  | zero =>
    cases h
    refine ⟨[], ⟨_, _, .refl _⟩, .clausesEnd ?_⟩
    rw [List.length_eq_zero_iff.mp (Nat.le_zero.mp hb)]
    rfl
  | succ bound ih =>
    obtain ⟨ls, hls, hl, hkind⟩ := passes_atClause s
    have hlen := hls.length
    by_cases h1 : s.significant.kind = .kwElseif
    · rw [clauses_elseif h1] at h
      rw [Parser.significant_kind] at h1
      unfold elseifFrom at h
      obtain ⟨x, u, hx, h⟩ := bind_eq_ok.mp h
      obtain ⟨-, -, hxk, hxp⟩ := advance_inv (hkind.trans h1) (by decide) (by decide) hx
      cases seenElse with
      | true => simp only [if_true] at h; cases h
      | false =>
      simp only [Bool.false_eq_true, if_false] at h
      obtain ⟨e, v, he, h⟩ := bind_eq_ok.mp h
      obtain ⟨ts, hts, hd⟩ := hL.expression.run he
      obtain ⟨body, w, hbody, h⟩ := bind_eq_ok.mp h
      obtain ⟨us, hus, hbd⟩ := mended_block hL hbody
      rw [run_node_bind, hus.previous_stop hbd.block_ne_nil] at h
      obtain ⟨more, y, hmore, h⟩ := bind_eq_ok.mp h
      cases h
      have h1 := hxp.length
      have h2 := hts.length
      have h3 := hus.length
      rw [List.length_singleton] at h1
      obtain ⟨vs, hvs, hcs⟩ := ih (by omega) hmore
      rw [hus.rest, hvs.rest] at hd
      rw [hvs.rest] at hbd
      exact ⟨_, hls.runs.trans (hxp.runs.trans (hts.runs.trans (hus.trans hvs))),
        .clausesElseif hl hxk hd hbd hcs⟩
    · by_cases h2 : s.significant.kind = .kwElse
      · rw [clauses_else h2] at h
        rw [Parser.significant_kind] at h2
        unfold elseFrom at h
        obtain ⟨x, u, hx, h⟩ := bind_eq_ok.mp h
        obtain ⟨-, -, hxk, hxp⟩ := advance_inv (hkind.trans h2) (by decide) (by decide) hx
        cases seenElse with
        | true => simp only [if_true] at h; cases h
        | false =>
        simp only [Bool.false_eq_true, if_false] at h
        obtain ⟨body, w, hbody, h⟩ := bind_eq_ok.mp h
        obtain ⟨us, hus, hbd⟩ := mended_block hL hbody
        rw [run_node_bind, hus.previous_stop hbd.block_ne_nil] at h
        obtain ⟨more, y, hmore, h⟩ := bind_eq_ok.mp h
        cases h
        have h1 := hxp.length
        have h2 := hus.length
        rw [List.length_singleton] at h1
        obtain ⟨vs, hvs, hcs⟩ := ih (by omega) hmore
        rw [hvs.rest] at hbd
        exact ⟨_, hls.runs.trans (hxp.runs.trans (hus.trans hvs)), .clausesElse hl hxk hbd hcs⟩
      · rw [clauses_end h1 h2] at h
        cases h
        refine ⟨[], ⟨_, _, .refl _⟩, .clausesEnd ?_⟩
        rw [Parser.significant_kind] at h1 h2
        simp [clauseAhead, h1, h2]

lemma mended_ifStatement (hL : MendedLevel a L) (h : ifStatement L loops s = .ok n t) :
    ∃ ts, Runs s t ts ∧ ts ≠ [] ∧ Mends a (.statement loops) ts t.rest [n] := by
  unfold ifStatement at h
  obtain ⟨x, u, hx, h⟩ := bind_eq_ok.mp h
  obtain ⟨-, -, hxk, hxp⟩ := expect_one_inv (by decide) (by decide) hx
  obtain ⟨e, v, he, h⟩ := bind_eq_ok.mp h
  obtain ⟨ts, hts, hd⟩ := hL.expression.run he
  obtain ⟨body, w, hbody, h⟩ := bind_eq_ok.mp h
  obtain ⟨us, hus, hbd⟩ := mended_block hL hbody
  rw [run_tokensLeft] at h
  obtain ⟨more, y, hmore, h⟩ := bind_eq_ok.mp h
  obtain ⟨vs, hvs, hcs⟩ := mended_clauses hL (Nat.le_refl _) hmore
  have hp := hus.trans hvs
  rw [run_node, hp.previous_stop (by simp [hbd.block_ne_nil])] at h
  cases h
  rw [hus.rest, hvs.rest] at hd
  rw [hvs.rest] at hbd
  exact ⟨_, hxp.runs.trans (hts.runs.trans hp), List.cons_ne_nil _ _,
    .ifStatement hxk hd hbd hcs⟩

lemma mended_whileLoop (hL : MendedLevel a L) (h : whileLoop L loops s = .ok n t) :
    ∃ ts, Runs s t ts ∧ ts ≠ [] ∧ Mends a (.statement loops) ts t.rest [n] := by
  unfold whileLoop at h
  obtain ⟨x, u, hx, h⟩ := bind_eq_ok.mp h
  obtain ⟨-, -, hxk, hxp⟩ := expect_one_inv (by decide) (by decide) hx
  obtain ⟨e, v, he, h⟩ := bind_eq_ok.mp h
  obtain ⟨ts, hts, hd⟩ := hL.expression.run he
  obtain ⟨body, w, hbody, h⟩ := bind_eq_ok.mp h
  obtain ⟨us, hus, hbd⟩ := mended_block hL hbody
  rw [run_node, hus.previous_stop hbd.block_ne_nil] at h
  cases h
  exact ⟨_, hxp.runs.trans (hts.runs.trans hus), List.cons_ne_nil _ _,
    .whileLoop hxk (hus.rest ▸ hd) hbd⟩

lemma mended_forLoop (hL : MendedLevel a L) (h : forLoop L loops s = .ok n t) :
    ∃ ts, Runs s t ts ∧ ts ≠ [] ∧ Mends a (.statement loops) ts t.rest [n] := by
  unfold forLoop at h
  obtain ⟨x, u, hx, h⟩ := bind_eq_ok.mp h
  obtain ⟨-, -, hxk, hxp⟩ := expect_one_inv (by decide) (by decide) hx
  obtain ⟨name, u', hname, h⟩ := bind_eq_ok.mp h
  obtain ⟨y, rfl, hy, -, -, hyp⟩ := leafOf_inv (by decide) (by decide) hname
  rw [discard_bind] at h
  obtain ⟨i, u'', hi, h⟩ := bind_eq_ok.mp h
  obtain ⟨-, -, hik, hip⟩ := expect_one_inv (by decide) (by decide) hi
  obtain ⟨e, v, he, h⟩ := bind_eq_ok.mp h
  obtain ⟨ts, hts, hd⟩ := hL.expression.run he
  obtain ⟨body, w, hbody, h⟩ := bind_eq_ok.mp h
  obtain ⟨us, hus, hbd⟩ := mended_block hL hbody
  rw [run_node, hus.previous_stop hbd.block_ne_nil] at h
  cases h
  exact ⟨_, hxp.runs.trans (hyp.runs.trans (hip.runs.trans (hts.runs.trans hus))),
    List.cons_ne_nil _ _, .forLoop hxk hy hik (hus.rest ▸ hd) hbd⟩

lemma mended_functionDefinition (hL : MendedLevel a L) (h : functionDefinition L s = .ok n t) :
    ∃ ts, Runs s t ts ∧ ts ≠ [] ∧ Mends a (.statement loops) ts t.rest [n] := by
  unfold functionDefinition at h
  obtain ⟨x, u, hx, h⟩ := bind_eq_ok.mp h
  obtain ⟨-, -, hxk, hxp⟩ := expect_one_inv (by decide) (by decide) hx
  obtain ⟨name, u', hname, h⟩ := bind_eq_ok.mp h
  obtain ⟨y, rfl, hy, -, -, hyp⟩ := leafOf_inv (by decide) (by decide) hname
  obtain ⟨o, u'', ho, h⟩ := bind_eq_ok.mp h
  obtain ⟨-, -, hok, hop⟩ := expect_one_inv (by decide) (by decide) ho
  obtain ⟨⟨p, q⟩, v, hargs, h⟩ := bind_eq_ok.mp h
  obtain ⟨ls, us, vs, c, xs, ys, hp, -, hlead, hds, hks, hck, rfl, rfl⟩ :=
    arguments_inv hL.expression hok hargs
  obtain ⟨body, w, hbody, h⟩ := bind_eq_ok.mp h
  obtain ⟨ws, hws, hbd⟩ := mended_block hL hbody
  rw [run_node, hws.previous_stop hbd.block_ne_nil] at h
  cases h
  rw [hws.rest] at hlead hds hks
  have hruns := hxp.runs.trans (hyp.runs.trans (hop.runs.trans (hp.runs.trans hws)))
  refine ⟨_, ?_, List.cons_ne_nil _ _, .functionDefinition hxk hy hok hlead hds hks hck hbd⟩
  simpa using hruns

end

/-! ### The whole grammar -/

section

variable {limit : Int} {a loops : Nat} {s t : Parser} {n : Node}

/-- A statement that opens no block is read as by a strict reader. -/
lemma mended_simple {p p' : Parse Node} (h : Starts .quiet p p')
    (hr : ∀ {u}, p s = .ok n u →
      ∃ ts, Passes s u ts ∧ Derives a (.statement loops) ts u.rest [n])
    (hk : (headKind s.rest).opensBlock = false) (hs : p' s = .ok n t) :
    ∃ ts, Runs s t ts ∧ ts ≠ [] ∧ Mends a (.statement loops) ts t.rest [n] := by
  obtain ⟨u, hu, hrest, hpass⟩ := h.run_first hs
  obtain ⟨ts, hts, hd⟩ := hr hu
  obtain ⟨x, xs, rfl, -⟩ := hd.first rfl
  rw [hts.rest] at hk
  exact ⟨_, (hpass _ hts).runs, List.cons_ne_nil _ _, .simple (hrest ▸ hd) hk⟩

/-- A statement of one token. -/
lemma mended_token {x : Token} (hp : Passes s t [x])
    (hd : Derives a (.statement loops) [x] t.rest [n]) (hk : x.kind.opensBlock = false) :
    ∃ ts, Runs s t ts ∧ ts ≠ [] ∧ Mends a (.statement loops) ts t.rest [n] :=
  ⟨_, hp.runs, List.cons_ne_nil _ _, .simple hd hk⟩

lemma mended_statement (hL : MendedLevel a (level limit false a))
    (h : statement (level limit false a) loops s = .ok n t) :
    ∃ ts, Runs s t ts ∧ ts ≠ [] ∧ Mends a (.statement loops) ts t.rest [n] := by
  have hpair := levelPair .parting limit a
  have hstrict := phraseLevel limit a
  have hkind := s.current_kind
  unfold statement at h
  rw [run_get] at h
  have hexpression (hk : (headKind s.rest).opensBlock = false) (hb : bindingAhead s.rest = false)
      (h : expressionStatement (level limit false a) s = .ok n t) :
      ∃ ts, Runs s t ts ∧ ts ≠ [] ∧ Mends a (.statement loops) ts t.rest [n] :=
    mended_simple (starts_expressionStatement hpair) (expressionStatement_inv hstrict hb) hk h
  cases hk : s.current.kind with
  | comment =>
    simp only [hk] at h
    obtain ⟨x, rfl, hx, hp⟩ := tokenStatement_inv (hkind ▸ hk) (by decide) (by decide) h
    exact mended_token hp (.comment hx) (by rw [hx]; rfl)
  | kwExit =>
    simp only [hk] at h
    obtain ⟨x, rfl, hx, hp⟩ := tokenStatement_inv (hkind ▸ hk) (by decide) (by decide) h
    exact mended_token hp (.exit hx) (by rw [hx]; rfl)
  | kwBreak =>
    simp only [hk] at h
    obtain ⟨hl, x, rfl, hx, hp⟩ := loopControl_inv (hkind ▸ hk) (by decide) (by decide) h
    exact mended_token hp (.loopControl (.inl hx) hl) (by rw [hx]; rfl)
  | kwCont =>
    simp only [hk] at h
    obtain ⟨hl, x, rfl, hx, hp⟩ := loopControl_inv (hkind ▸ hk) (by decide) (by decide) h
    exact mended_token hp (.loopControl (.inr hx) hl) (by rw [hx]; rfl)
  | kwIf => simp only [hk] at h; exact mended_ifStatement hL h
  | kwWhile => simp only [hk] at h; exact mended_whileLoop hL h
  | kwFor => simp only [hk] at h; exact mended_forLoop hL h
  | kwFn => simp only [hk] at h; exact mended_functionDefinition hL h
  | kwSym =>
    simp only [hk] at h
    exact mended_simple starts_symbolDeclaration symbolDeclaration_inv (by rw [← hkind, hk]; rfl) h
  | kwImport =>
    simp only [hk] at h
    exact mended_simple starts_importStatement importStatement_inv (by rw [← hkind, hk]; rfl) h
  | kwRet =>
    simp only [hk] at h
    exact mended_simple (starts_returnStatement hpair) (returnStatement_inv hstrict)
      (by rw [← hkind, hk]; rfl) h
  | rightParen | rightBracket | rightBrace | kwElse | kwElseif => simp only [hk] at h; cases h
  | identifier =>
    simp only [hk, Parser.peek_kind, List.drop_one] at h
    have hopen : (headKind s.rest).opensBlock = false := by rw [← hkind, hk]; rfl
    split at h
    · exact mended_simple (starts_assignment hpair) (assignment_inv hstrict) hopen h
    · rename_i hc
      exact hexpression hopen (by simp [bindingAhead, hc]) h
  | _ =>
    simp only [hk] at h
    exact hexpression (by rw [← hkind, hk]; rfl) (by rw [bindingAhead, ← hkind, hk]; rfl) h

/-- A run that fails passes over tokens all the same. -/
lemma runs_of_error {e : Error} (h : statement (level limit false a) loops s = .error e t) :
    ∃ ts, Runs s t ts := by
  have hp := (starts_statement_alone limit false a loops).run s s (.refl s)
  rw [h] at hp
  cases hp with
  | error ht =>
    obtain ⟨ts, -, es, cs, hm, -⟩ := ht
    exact ⟨ts, es, cs, hm⟩
  | parted hm => cases hm

/-- Every recovering level reads mended statements. -/
lemma mendedLevel (limit : Int) (a : Nat) : MendedLevel a (level limit false a) := by
  have hexpression (a : Nat) :
      Reads a (.expression 1 false) (anyExpression (level limit false a)) :=
    .of_starts (starts_anyExpression (levelPair .parting limit a))
      (reads_expression (phraseLevel limit a) 1 false)
  induction a with
  | zero => exact ⟨rfl, hexpression 0, fun read h => by cases h⟩
  | succ a ih =>
    refine ⟨rfl, hexpression _, fun read h => ⟨a, rfl, fun loops => ?_⟩⟩
    cases h
    rw [derive_eq]
    exact ⟨mended_statement ih, runs_of_error⟩

/-- A program that is read with recovery is mended, up to the end mark. -/
lemma mends_of_program {root : Node} (h : program (level limit false a) loops s = .ok root t) :
    (∃ ts, Runs s t ts ∧ Mends a (.statements loops false) ts t.rest root.children)
      ∧ LoopEnds none t
      ∧ root = .spanning .sourceFile ⟨1, 1, 0⟩ t.current.stop root.children := by
  have hL := mendedLevel limit a
  rw [run_program, hL.strict] at h
  obtain ⟨xs, u, hxs, h⟩ := bind_eq_ok.mp h
  rw [run_current] at h
  cases h
  have hmend : Mended a loops (statement (level limit false a) loops) :=
    ⟨mended_statement hL, runs_of_error⟩
  obtain ⟨ts, hts, hd⟩ := mended_statements hmend false hxs (Nat.le_refl _)
  obtain ⟨es, cs, hm⟩ := hts
  have hends : LoopEnds none t := by
    refine ((statements_iff_rounds ?_).mp hxs).2
    exact Nat.le_refl _
  exact ⟨⟨ts, ⟨_, _, (Moves.of_trace s _).trans hm⟩, hd⟩, hends, rfl⟩

end

end StpLang
