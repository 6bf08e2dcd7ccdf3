import StpLang.Proofs.Grammar.Complete
import StpLang.Proofs.Lex.Spelled
import StpLang.Proofs.Lex.Tiled
import StpLang.Proofs.Recovery
import StpLang.Proofs.Reparse.Resume

/-!
The programs that a strict reader accepts.

A text is accepted when it can be cut into tokens and statements are derived from
them. The tree is then that of the statements.

* `Accepted` names the tokens and the statements of an accepted text.
* `parse_strict_iff`: the strict reader accepts these texts and no others.
-/

namespace StpLang

open Grammar Lexer StpLang.Parser

/-- The text is cut into the tokens `ts` and the end mark `e`, which are prepared
as `us`, and the statements `ns` are derived from these. -/
structure Accepted (source : String) (limit : Int) (ts us : List Token) (e : Token)
    (ns : List Node) : Prop where
  tokens : tokenize source limit = .ok (ts ++ [e])
  inner : ∀ u ∈ ts, u.kind ≠ .eof
  eof : e.kind = .eof
  settled : (settle 0 none ts).1 = us
  derives : Derives limit.toNat (.statements 0 false) us [e] ns

/-- The tree of the statements `ns`. -/
def programTree (ts us : List Token) (e : Token) (ns : List Node) : Tree :=
  .ofNode (.spanning .sourceFile ⟨1, 1, 0⟩ e.stop ns) []
    ((settle 0 none ts).2 ++ us.flatMap Token.snippetComments)

section

variable {source : String} {limit : Int} {t : Tree} {tokens ts us : List Token} {e : Token}
  {ns : List Node} {trace : List Event}

/-- The end mark is kept and nothing else is an end mark. -/
lemma settle_eof (he : e.kind = .eof) (hts : ∀ u ∈ ts, u.kind ≠ .eof) :
    settle 0 none (ts ++ [e]) = ((settle 0 none ts).1 ++ [e], (settle 0 none ts).2)
      ∧ ∀ u ∈ (settle 0 none ts).1, u.kind ≠ .eof := by
  have heq : settle 0 none (ts ++ [e]) = ((settle 0 none ts).1 ++ [e], (settle 0 none ts).2) := by
    rw [settle_append, settle_cons]
    simp [keptToken?, he, settle]
  obtain ⟨vs, hvs, hne⟩ := settle_last 0 none he hts
  rw [heq] at hvs
  exact ⟨heq, List.append_cancel_right hvs ▸ hne⟩

/-- What ends with the end mark is split in one way only. -/
lemma eq_of_append_eof {vs k : List Token} (h : vs ++ k = us ++ [e])
    (hvs : ∀ v ∈ vs, v.kind ≠ .eof) (hus : ∀ u ∈ us, u.kind ≠ .eof) (he : e.kind = .eof)
    (hk : headKind k = .eof) : vs = us ∧ k = [e] := by
  induction vs generalizing us with
  | nil =>
    cases us with
    | nil => exact ⟨rfl, h⟩
    | cons u us =>
      rw [List.nil_append] at h
      subst h
      exact absurd hk (hus u List.mem_cons_self)
  | cons v vs ih =>
    cases us with
    | nil =>
      obtain ⟨rfl, -⟩ := List.cons.inj h
      exact absurd he (hvs v List.mem_cons_self)
    | cons u us =>
      obtain ⟨rfl, hrest⟩ := List.cons.inj h
      rw [List.forall_mem_cons] at hvs hus
      obtain ⟨rfl, rfl⟩ := ih hrest hvs.2 hus.2
      exact ⟨rfl, rfl⟩

/-- Tokens that the grammar accepts. -/
lemma readTokens_strict_iff (hts : ∀ u ∈ ts, u.kind ≠ .eof) (he : e.kind = .eof) :
    (readTokens limit true (ts ++ [e]) trace).result = .ok t
      ↔ ∃ us ns, (settle 0 none ts).1 = us
        ∧ Derives limit.toNat (.statements 0 false) us [e] ns ∧ t = programTree ts us e ns := by
  obtain ⟨hsettle, hne⟩ := settle_eof he hts
  have hstart : (startAt (ts ++ [e]) trace).rest = (settle 0 none ts).1 ++ [e] :=
    congrArg Prod.fst hsettle
  have htrivia : (startAt (ts ++ [e]) trace).trivia = (settle 0 none ts).2 :=
    (congrArg Prod.snd hsettle :)
  have hcurrent {s : Parser} (h : s.rest = [e]) : s.current.stop = e.stop := by
    rw [Parser.current, h]
  have htree {vs : List Token} {s : Parser} {ns : List Node}
      (h : Passes (startAt (ts ++ [e]) trace) s vs) (hr : s.rest = [e]) :
      Tree.ofNode (.spanning .sourceFile ⟨1, 1, 0⟩ s.current.stop ns) s.errors s.trivia
        = programTree ts vs e ns := by
    have herrors : s.errors = [] := Moves.errors h
    rw [hcurrent hr, herrors, Moves.trivia h, htrivia]
    rfl
  rw [readTokens_result]
  constructor
  · intro h
    cases hs : program (level limit true limit.toNat) 0 (startAt (ts ++ [e]) trace) with
    | error e s => rw [hs] at h; cases h
    | ok root s =>
      rw [hs] at h
      cases h
      obtain ⟨vs, hvs, hd, hroot⟩ := derives_of_program hs
      obtain ⟨rfl, hr⟩ := eq_of_append_eof (hvs.rest.symm.trans hstart) hd.balanced.ne_eof hne he
        hd.statements_end
      rw [hr] at hd
      refine ⟨_, _, rfl, hd, ?_⟩
      rw [← htree hvs hr, ← hroot]
  · rintro ⟨us, ns, rfl, hd, rfl⟩
    have hstrict : (level limit true limit.toNat).strict = true := (phraseLevel limit _).strict
    have hyields : Yields (statements true (statement (level limit true limit.toNat) 0) none
        (startAt (ts ++ [e]) trace).rest.length) [] (settle 0 none ts).1 [e] ns := by
      rw [hstart]
      exact hd.accepts limit _ (Nat.le_refl _)
    obtain ⟨s, hs, hm⟩ := hyields
      { startAt (ts ++ [e]) trace with
        trace := .parsingStarted (startAt (ts ++ [e]) trace).count true
          :: (startAt (ts ++ [e]) trace).trace } hstart (fun hne => absurd rfl hne)
    have hpasses : Passes (startAt (ts ++ [e]) trace) s (settle 0 none ts).1 :=
      (Moves.of_trace _ _).trans hm
    have hr : s.rest = [e] := List.append_cancel_left (hpasses.rest.symm.trans hstart)
    rw [run_program, hstrict, ← htree hpasses hr]
    exact congrArg outcome (bind_ok hs)

/-- **A strict reader accepts exactly the texts from whose tokens statements are
derived**, and the tree is that of the statements. -/
theorem parse_strict_iff :
    parse source true limit = .ok t
      ↔ ∃ ts us e ns, Accepted source limit ts us e ns ∧ t = programTree ts us e ns := by
  have hread : parse source true limit
      = match tokenize source limit with
        | .ok tokens => (readTokens limit true tokens (Lexed.run limit (.ofText source)).trace).result
        | .error e => .error e := by
    unfold parse read readFrom tokenize tokenizeFrom Lexed.toExcept
    dsimp only
    cases (Lexed.run limit (.ofText source)).fault <;> rfl
  rw [hread]
  constructor
  · intro h
    cases htokens : tokenize source limit with
    | error e => rw [htokens] at h; cases h
    | ok tokens =>
      rw [htokens] at h
      obtain ⟨ts, e, _, _, rfl, hlexes, -, he⟩ := lexes_of_tokenize htokens
      obtain ⟨us, ns, hsettled, hd, ht⟩ := (readTokens_strict_iff hlexes.ne_eof he).mp h
      exact ⟨ts, us, e, ns, ⟨htokens, hlexes.ne_eof, he, hsettled, hd⟩, ht⟩
  · rintro ⟨ts, us, e, ns, h, rfl⟩
    rw [h.tokens]
    exact (readTokens_strict_iff h.inner h.eof).mpr ⟨us, ns, h.settled, h.derives, rfl⟩

/-- The tokens of an accepted text are read one after another. -/
lemma Accepted.lexes (h : Accepted source limit ts us e ns) :
    (∃ t, Lexes limit { cursor := .ofText source } ts t) ∧ e.segments = [] := by
  obtain ⟨vs, u, t, v, heq, hvs, hu, hk⟩ := lexes_of_tokenize h.tokens
  obtain ⟨rfl, hlast⟩ := List.append_inj' heq rfl
  obtain rfl : e = u := (List.cons.inj hlast).1
  obtain ⟨d, -, -, he⟩ := textToken_eof hu hk (hvs.ahead.in_ (Cursor.in_ofText source))
  exact ⟨⟨t, hvs⟩, by rw [he]; rfl⟩

/-- The prepared tokens of an accepted text are spelled right. -/
lemma Accepted.spelled (h : Accepted source limit ts us e ns) :
    ∀ u ∈ us, u.Spelled limit.toNat := by
  obtain ⟨⟨_, hlexes⟩, -⟩ := h.lexes
  rw [← h.settled]
  exact spelled_settle hlexes.spelled 0 none

end

end StpLang
