import StpLang.Proofs.Grammar.Derivation
import StpLang.Proofs.Parse.PairStatement

/-!
What a strict reader reads is derived.

Every function of the grammar that succeeds has passed over tokens that form
its phrase, before the tokens that are still ahead, and has made the nodes of
that phrase. On the way it sets aside the comments within the snippets of the
strings it passes.

* `Passes` says over which tokens a run has passed.
* `Reads` says that a function reads a phrase.
* `reads_statement` and `derives_of_program` follow this through the grammar.
-/

namespace StpLang

open Parse Grammar

/-! ### The tokens ahead -/

section

variable {s t u : Parser} {x : Token} {xs ts us : List Token}

lemma Parser.eof_kind (s : Parser) : s.eof.kind = .eof := by
  unfold Parser.eof
  split <;> rfl

lemma Parser.eof_spaced (s : Parser) : s.eof.spaced = false := by
  unfold Parser.eof
  split <;> rfl

lemma Parser.current_kind (s : Parser) : s.current.kind = headKind s.rest := by
  unfold Parser.current
  split <;> rename_i h <;> simp [h, headKind, Parser.eof_kind]

lemma Parser.current_spaced (s : Parser) : s.current.spaced = headSpaced s.rest := by
  unfold Parser.current
  split <;> rename_i h <;> simp [h, headSpaced, Parser.eof_spaced]

lemma Parser.peek_kind (s : Parser) (k : Nat) : (s.peek k).kind = headKind (s.rest.drop k) := by
  unfold Parser.peek
  cases h : s.rest.drop k with
  | nil =>
    rw [List.getElem?_eq_none (List.drop_eq_nil_iff.mp h)]
    exact s.eof_kind
  | cons x xs =>
    have : s.rest[k]? = some x := by rw [← Nat.add_zero k, ← List.getElem?_drop, h]; rfl
    rw [this]
    rfl

lemma Parser.peek_spaced (s : Parser) (k : Nat) :
    (s.peek k).spaced = headSpaced (s.rest.drop k) := by
  unfold Parser.peek
  cases h : s.rest.drop k with
  | nil =>
    rw [List.getElem?_eq_none (List.drop_eq_nil_iff.mp h)]
    exact s.eof_spaced
  | cons x xs =>
    have : s.rest[k]? = some x := by rw [← Nat.add_zero k, ← List.getElem?_drop, h]; rfl
    rw [this]
    rfl

lemma Parser.significant_kind (s : Parser) : s.significant.kind = clauseKind s.rest := by
  unfold Parser.significant clauseKind
  induction s.rest with
  | nil => exact s.eof_kind
  | cons x xs ih =>
    rw [List.find?_cons, List.dropWhile_cons]
    by_cases hx : x.kind = .newline
    · simpa only [hx, bne_self_eq_false, beq_self_eq_true, if_true] using ih
    · simp only [bne_iff_ne.mpr hx, beq_eq_false_iff_ne.mpr hx]
      rfl

/-- A token is ahead. -/
lemma Parser.current_of_rest (h : s.rest = x :: xs) : s.current = x := by
  simp only [Parser.current, h]

lemma Parser.rest_step (h : s.rest = x :: xs) : s.step.rest = xs := by
  simp only [Parser.step, h]

/-- The token ahead, if it is no end mark, is the first of the rest. -/
lemma Parser.rest_eq_current (h : headKind s.rest ≠ .eof) :
    s.rest = s.current :: s.step.rest := by
  cases hs : s.rest with
  | nil => rw [hs] at h; exact absurd rfl h
  | cons x xs => rw [Parser.current_of_rest hs, Parser.rest_step hs]

lemma startsElement_eq (s : Parser) : startsElement s.current s = signAhead s.rest := by
  unfold startsElement
  simp only []
  rw [Parser.peek_kind, Parser.peek_spaced, Parser.current_kind, Parser.current_spaced]
  cases s.rest with
  | nil => rfl
  | cons x xs => rfl

/-! ### Passing over tokens -/

/-- The comments within the snippets of a string. -/
def Token.snippetComments (t : Token) : List Node :=
  if t.kind = .string then
    t.segments.flatMap fun seg =>
      match seg.form with
      | .snippet tokens => (Parser.settle 0 none tokens).2
      | _ => []
  else []

lemma Token.snippetComments_of_kind (h : x.kind ≠ .string) : x.snippetComments = [] := by
  rw [Token.snippetComments, if_neg h]

/-- The run from `s` to `t` passes over the tokens `ts`, records no error and
sets the comments within their snippets aside. -/
def Passes (s t : Parser) (ts : List Token) : Prop :=
  Moves s t ts [] (ts.flatMap Token.snippetComments)

namespace Passes

lemma refl (s : Parser) : Passes s s [] := Moves.refl s

lemma trans (h : Passes s t ts) (h' : Passes t u us) : Passes s u (ts ++ us) := by
  have := Moves.trans h h'
  rwa [List.append_nil, ← List.flatMap_append] at this

lemma rest (h : Passes s t ts) : s.rest = ts ++ t.rest := Moves.rest h

lemma length (h : Passes s t ts) : s.rest.length = ts.length + t.rest.length := by
  rw [h.rest, List.length_append]

/-- Passing over a token other than a string. -/
lemma step (h : s.rest = x :: xs) (hx : x.kind ≠ .string) : Passes s s.step [x] := by
  have := Moves.step h
  rw [Passes, List.flatMap_cons, Token.snippetComments_of_kind hx]
  exact this

lemma cons (h : s.rest = x :: xs) (hx : x.kind ≠ .string) (h' : Passes s.step t ts) :
    Passes s t (x :: ts) := (step h hx).trans h'

/-- The token read last is the last one passed. -/
lemma previous_stop (h : Passes s t ts) (hne : ts ≠ []) : t.previous.stop = lastStop ts := by
  obtain ⟨init, last, rfl⟩ := List.eq_nil_or_concat ts |>.resolve_left hne
  have hb := Moves.before h
  simp only [Parser.previous, hb, List.concat_eq_append, List.reverse_append, List.reverse_cons,
    List.reverse_nil, List.nil_append, List.cons_append, List.head?_cons,
    Option.getD_some, lastStop, List.getLast?_append, List.getLast?_singleton, Option.some_or,
    Option.map_some]

end Passes

/-! ### Single tokens -/

variable {kinds : List TokenKind}

lemma expect_inv (hk : kinds.contains .eof = false) (hs : kinds.contains .string = false)
    (h : expect kinds s = .ok x t) :
    s.rest = x :: t.rest ∧ t = s.step ∧ kinds.contains x.kind = true ∧ Passes s t [x] := by
  unfold expect at h
  rw [run_current] at h
  split at h
  · rename_i hc
    cases h
    have hne : headKind s.rest ≠ .eof := by
      rw [← Parser.current_kind]
      intro he
      rw [he, hk] at hc
      cases hc
    have hstr : s.current.kind ≠ .string := by
      intro he
      rw [he, hs] at hc
      cases hc
    have hrest := Parser.rest_eq_current hne
    exact ⟨hrest, rfl, hc, .step hrest hstr⟩
  · cases h

/-- Reading a token of one kind. -/
lemma expect_one_inv {kind : TokenKind} (hk : kind ≠ .eof) (hs : kind ≠ .string)
    (h : expect [kind] s = .ok x t) :
    s.rest = x :: t.rest ∧ t = s.step ∧ x.kind = kind ∧ Passes s t [x] := by
  obtain ⟨hr, ht, hx, hp⟩ := expect_inv (by simpa using hk.symm) (by simpa using hs.symm) h
  exact ⟨hr, ht, by simpa using hx, hp⟩

lemma leafOf_inv {tokenKind : TokenKind} {kind : Kind} {n : Node} (hk : tokenKind ≠ .eof)
    (hs : tokenKind ≠ .string) (h : leafOf tokenKind kind s = .ok n t) :
    ∃ x, n = .leaf kind x ∧ x.kind = tokenKind ∧ s.rest = x :: t.rest ∧ t = s.step
      ∧ Passes s t [x] := by
  unfold leafOf at h
  obtain ⟨x, u, hx, hu⟩ := bind_eq_ok.mp h
  cases hu
  obtain ⟨hr, ht, hxk, hp⟩ := expect_one_inv hk hs hx
  exact ⟨x, rfl, hxk, hr, ht, hp⟩

/-- Reading the delimiter that closes a group. -/
lemma close_inv {opener : Token} {closer : TokenKind} (ho : opener.kind.closer? = some closer)
    (hk : closer ≠ .eof) (hs : closer ≠ .string) (h : close opener s = .ok x t) :
    s.rest = x :: t.rest ∧ t = s.step ∧ x.kind = closer ∧ Passes s t [x] := by
  unfold close at h
  rw [run_current, ho] at h
  split at h
  · rename_i hc
    cases h
    have hkind : s.current.kind = closer := by simpa using hc
    have hrest := Parser.rest_eq_current (s := s) (by rw [← Parser.current_kind, hkind]; exact hk)
    exact ⟨hrest, rfl, hkind, .step hrest (by rw [hkind]; exact hs)⟩
  · split at h <;> cases h

/-- An expression that is not too deep passes. -/
lemma bounded_bind_eq_ok {α : Type} {limit : Int} {a : Nat} {n : Node} {f : Unit → Parse α}
    {y : α} :
    (bounded limit a n x >>= f) s = .ok y t ↔ n.height ≤ a ∧ f () s = .ok y t := by
  unfold bounded
  by_cases h : n.height > a
  · simp only [h, if_true, run_fail_bind]
    constructor
    · intro h
      cases h
    · rintro ⟨hle, -⟩
      exact absurd hle (Nat.not_le.mpr h)
  · simp only [h, if_false, Nat.not_lt.mp h, true_and]
    exact Iff.rfl

end

/-! ### Reading phrases -/

/-- A function that succeeds has read a phrase. -/
structure Reads (a : Nat) (p : Phrase) (f : Parse Node) : Prop where
  run : ∀ {s n t}, f s = .ok n t → ∃ ts, Passes s t ts ∧ Derives a p ts t.rest [n]

/-- What is read one level further in are phrases. -/
structure PhraseReader (b : Nat) (read : Nonterminal → Parse Node) : Prop where
  expression : ∀ least m, Reads b (.expression least m) (read (.expression least m))
  unary : ∀ m, Reads b (.unary m) (read (.unary m))
  statement : ∀ loops, Reads b (.statement loops) (read (.statement loops))

/-- A strict level, and that what is read one level further in are phrases. -/
structure PhraseLevel (a : Nat) (L : Level) : Prop where
  strict : L.strict = true
  allowance : L.allowance = a
  inner : ∀ read, L.inner = some read → ∃ b, a = b + 1 ∧ PhraseReader b read

section

variable {a b : Nat} {L : Level} {read : Nonterminal → Parse Node} {s t : Parser} {n : Node}
  {m : Bool} {least : Nat}

lemma nested_inv {α : Type} {x : Token} {body : (Nonterminal → Parse Node) → Parse α} {y : α}
    (hL : PhraseLevel a L) (h : nested L x body s = .ok y t) :
    ∃ b read, a = b + 1 ∧ PhraseReader b read ∧ body read s = .ok y t := by
  unfold nested at h
  cases hi : L.inner with
  | none => rw [hi] at h; cases h
  | some read =>
    rw [hi] at h
    obtain ⟨b, hb, hr⟩ := hL.inner read hi
    exact ⟨b, read, hb, hr, h⟩

/-! ### Expressions -/

lemma climb_inv (hL : L.allowance = b + 1) (hr : PhraseReader b read) {bound : Nat} {lhs : Node}
    (hb : s.rest.length ≤ bound) (h : climb L read least m bound lhs s = .ok n t) :
    ∃ ts, Passes s t ts ∧ Derives (b + 1) (.operators least m lhs) ts t.rest [n] := by
  induction bound generalizing s lhs with
  | zero =>
    cases h
    refine ⟨[], .refl _, .operatorsEnd ?_⟩
    rw [List.length_eq_zero_iff.mp (Nat.le_zero.mp hb)]
    rfl
  | succ bound ih =>
    have hend (hk : operatorAhead least m s.rest = false)
        (he : (.ok lhs s : EStateM.Result Error Parser Node) = .ok n t) :
        ∃ ts, Passes s t ts ∧ Derives (b + 1) (.operators least m lhs) ts t.rest [n] := by
      cases he
      exact ⟨[], .refl _, .operatorsEnd hk⟩
    rw [climb, run_get, startsElement_eq] at h
    cases hop : s.current.kind.binary? with
    | none =>
      simp only [hop] at h
      refine hend ?_ h
      rw [Parser.current_kind] at hop
      simp only [operatorAhead, hop]
    | some op =>
      obtain ⟨level, assoc⟩ := op
      simp only [hop] at h
      have hop' := hop
      rw [Parser.current_kind] at hop'
      by_cases hc : (decide (level < least) || m && signAhead s.rest) = true
      · simp only [hc, if_true] at h
        refine hend ?_ h
        simp only [operatorAhead, hop', hc, Bool.not_true]
      · simp only [hc, Bool.false_eq_true, if_false, discard_bind] at h
        rw [run_advance] at h
        obtain ⟨rhs, u, hrhs, h⟩ := bind_eq_ok.mp h
        rw [bounded_bind_eq_ok, hL] at h
        obtain ⟨hh, h⟩ := h
        have hne : headKind s.rest ≠ .eof := by
          intro he
          rw [he] at hop'
          cases hop'
        have hrest := Parser.rest_eq_current hne
        have hstr : s.current.kind ≠ .string := by
          intro he
          rw [he] at hop
          cases hop
        obtain ⟨ts, hts, hd⟩ := (hr.expression _ _).run hrhs
        have hlen := (Passes.cons hrest hstr hts).length
        rw [List.length_cons] at hlen
        obtain ⟨us, hus, ho⟩ := ih (by omega) h
        refine ⟨_, .cons hrest hstr (hts.trans hus), .operatorsMore hop ?_ (hus.rest ▸ hd) hh ho⟩
        rw [List.append_assoc, ← hus.rest, ← hts.rest, ← hrest]
        simp only [operatorAhead, hop', hc, Bool.not_false]

lemma reads_expression (hL : PhraseLevel a L) (least : Nat) (m : Bool) :
    Reads a (.expression least m) (expression L least m) := by
  refine ⟨fun h => ?_⟩
  unfold expression at h
  rw [run_current] at h
  obtain ⟨b, read, rfl, hr, h⟩ := nested_inv hL h
  obtain ⟨lhs, u, hlhs, h⟩ := bind_eq_ok.mp h
  rw [run_tokensLeft] at h
  obtain ⟨ts, hts, hd⟩ := (hr.unary m).run hlhs
  obtain ⟨us, hus, ho⟩ := climb_inv hL.allowance hr (Nat.le_refl _) h
  exact ⟨ts ++ us, hts.trans hus, .expression (hus.rest ▸ hd) ho⟩

/-! ### Names and numbers -/

lemma memberParts_inv {bound : Nat} {ns : List Node} (hb : s.rest.length ≤ bound)
    (h : memberParts m bound s = .ok ns t) :
    ∃ ts, Passes s t ts ∧ Derives a (.members m) ts t.rest ns := by
  induction bound generalizing s ns with
  | zero =>
    cases h
    refine ⟨[], .refl _, .membersEnd ?_⟩
    rw [List.length_eq_zero_iff.mp (Nat.le_zero.mp hb)]
    rfl
  | succ bound ih =>
    rw [memberParts, run_current, Parser.current_kind, Parser.current_spaced] at h
    by_cases hc : dotAhead m s.rest = true
    · have hc' := hc
      unfold dotAhead at hc'
      simp only [hc', if_true, discard_bind] at h
      rw [run_advance] at h
      obtain ⟨part, u, hpart, h⟩ := bind_eq_ok.mp h
      obtain ⟨more, v, hmore, h⟩ := bind_eq_ok.mp h
      cases h
      have hkind : headKind s.rest = .dot := by
        simp only [Bool.and_eq_true, beq_iff_eq] at hc'
        exact hc'.1
      have hrest := Parser.rest_eq_current (s := s) (by rw [hkind]; decide)
      obtain ⟨x, rfl, hx, hxr, -, hxp⟩ := leafOf_inv (by decide) (by decide) hpart
      have hp := Passes.cons hrest (by rw [Parser.current_kind, hkind]; decide) hxp
      have hlen := hp.length
      rw [List.length_cons] at hlen
      obtain ⟨ts, hts, hd⟩ := ih (by omega) hmore
      refine ⟨_, hp.trans hts, .membersMore ?_ hx hd⟩
      rw [hrest] at hc
      exact hc
    · have hc' : dotAhead m s.rest = false := by simpa using hc
      unfold dotAhead at hc
      simp only [hc] at h
      cases h
      exact ⟨[], .refl _, .membersEnd hc'⟩

lemma reads_memberAccess (a : Nat) (m : Bool) : Reads a (.name m) (memberAccess m) := by
  refine ⟨fun {s n t} h => ?_⟩
  unfold memberAccess at h
  obtain ⟨first, u, hfirst, h⟩ := bind_eq_ok.mp h
  rw [run_tokensLeft] at h
  obtain ⟨more, v, hmore, h⟩ := bind_eq_ok.mp h
  obtain ⟨x, rfl, hx, hxr, -, hxp⟩ := leafOf_inv (by decide) (by decide) hfirst
  obtain ⟨ts, hts, hd⟩ := memberParts_inv (a := a) (Nat.le_refl _) hmore
  have hp := hxp.trans hts
  rw [run_node, hp.previous_stop (by simp)] at h
  cases h
  exact ⟨x :: ts, hp, .name hx hd⟩

/-- Reading a token whose kind is known. -/
lemma advance_inv {kind : TokenKind} {x : Token} (hs : headKind s.rest = kind) (hk : kind ≠ .eof)
    (hstr : kind ≠ .string) (h : advance s = .ok x t) :
    s.rest = x :: t.rest ∧ t = s.step ∧ x.kind = kind ∧ Passes s t [x] := by
  cases h
  have hkind : s.current.kind = kind := by rw [Parser.current_kind, hs]
  have hrest := Parser.rest_eq_current (s := s) (by rw [hs]; exact hk)
  exact ⟨hrest, rfl, hkind, .step hrest (by rw [hkind]; exact hstr)⟩

lemma rangeBound_inv (h : rangeBound s = .ok n t) :
    ∃ d x, n = .leaf .number x ∧ d.kind = .ellipsis ∧ x.kind = .number ∧ Passes s t [d, x] := by
  unfold rangeBound at h
  rw [discard_bind] at h
  obtain ⟨d, u, hd, h⟩ := bind_eq_ok.mp h
  obtain ⟨-, -, hdk, hdp⟩ := expect_one_inv (by decide) (by decide) hd
  rw [run_current] at h
  split at h
  · rename_i hx
    obtain ⟨x, v, hadv, h⟩ := bind_eq_ok.mp h
    cases h
    rw [Parser.current_kind, beq_iff_eq] at hx
    obtain ⟨-, -, hxk, hxp⟩ := advance_inv hx (by decide) (by decide) hadv
    exact ⟨d, x, rfl, hdk, hxk, hdp.trans hxp⟩
  · cases h

lemma range_inv (h : range s = .ok n t) :
    ∃ ts, Passes s t ts ∧ Derives a (.primary m) ts t.rest [n] := by
  unfold range at h
  obtain ⟨first, u, hfirst, h⟩ := bind_eq_ok.mp h
  obtain ⟨x, rfl, hx, -, -, hxp⟩ := leafOf_inv (by decide) (by decide) hfirst
  obtain ⟨second, v, hsecond, h⟩ := bind_eq_ok.mp h
  obtain ⟨d, y, rfl, hd, hy, hyp⟩ := rangeBound_inv hsecond
  have hp := hxp.trans hyp
  rw [run_current, Parser.current_kind] at h
  split at h
  · rename_i hk
    rw [run_node, hp.previous_stop (by simp)] at h
    cases h
    exact ⟨_, hp, .rangeOfTwo hx hd hy (by simpa using hk)⟩
  · obtain ⟨third, w, hthird, h⟩ := bind_eq_ok.mp h
    obtain ⟨e, z, rfl, he, hz, hzp⟩ := rangeBound_inv hthird
    have hp := hp.trans hzp
    rw [run_current, Parser.current_kind] at h
    split at h
    · rw [discard_bind, run_advance] at h
      cases h
    · rename_i hk
      dsimp only at h
      rw [run_node, hp.previous_stop (by simp)] at h
      cases h
      exact ⟨_, hp, .rangeOfThree hx hd hy he hz (by simpa using hk)⟩

lemma number_inv (hs : headKind s.rest = .number) (hk : headKind s.rest.tail ≠ .ellipsis)
    (h : Grammar.number s = .ok n t) :
    ∃ ts, Passes s t ts ∧ Derives a (.primary m) ts t.rest [n] := by
  unfold Grammar.number at h
  obtain ⟨x, u, hx, h⟩ := bind_eq_ok.mp h
  obtain ⟨hxr, -, hxk, hxp⟩ := advance_inv hs (by decide) (by decide) hx
  rw [run_current, Parser.current_kind, Parser.current_spaced] at h
  have htail : s.rest.tail = u.rest := by rw [hxr]; rfl
  by_cases hc : percentAhead u.rest = true
  · have hc' := hc
    unfold percentAhead at hc'
    simp only [hc', if_true, discard_bind] at h
    obtain ⟨sign, v, hsign, h⟩ := bind_eq_ok.mp h
    simp only [Bool.and_eq_true, beq_iff_eq] at hc'
    obtain ⟨hsr, -, hsk, hsp⟩ := advance_inv hc'.1 (by decide) (by decide) hsign
    have hp := hxp.trans hsp
    rw [run_node, hp.previous_stop (by simp), Parser.current_of_rest hsr] at h
    cases h
    refine ⟨_, hp, .percentage hxk ?_⟩
    rw [hsr] at hc
    exact hc
  · have hc' : percentAhead u.rest = false := by simpa using hc
    unfold percentAhead at hc
    simp only [hc] at h
    cases h
    exact ⟨[x], hxp, .number hxk (htail ▸ hk) hc'⟩

/-! ### Parentheses and calls -/

lemma bracketed_inv (hL : PhraseLevel a L) (h : bracketed L s = .ok n t) :
    ∃ ts, Passes s t ts ∧ Derives a (.primary m) ts t.rest [n] := by
  unfold bracketed at h
  obtain ⟨o, u, ho, h⟩ := bind_eq_ok.mp h
  obtain ⟨-, -, hok, hop⟩ := expect_one_inv (by decide) (by decide) ho
  rw [run_current] at h
  split at h
  · cases h
  obtain ⟨e, v, he, h⟩ := bind_eq_ok.mp h
  obtain ⟨ts, hts, hd⟩ := (reads_expression hL 1 false).run he
  rw [discard_bind] at h
  obtain ⟨c, w, hc, h⟩ := bind_eq_ok.mp h
  obtain ⟨hcr, -, hck, hcp⟩ :=
    close_inv (by rw [hok]; rfl) (by decide) (by decide) hc
  rw [run_node, hcp.previous_stop (by simp)] at h
  cases h
  exact ⟨_, hop.trans (hts.trans hcp), .bracketed hok (hcr ▸ hd) hck⟩

/-- What follows an argument: a comma and no closing parenthesis, or the closing
parenthesis. -/
lemma argumentSeparator_inv {o : Token} (ho : o.kind = .leftParen)
    (h : argumentSeparator o s = .ok () t) :
    (t = s ∧ headKind s.rest = .rightParen) ∨
      ∃ c, c.kind = .comma ∧ Passes s t [c] ∧ headKind t.rest ≠ .rightParen := by
  unfold argumentSeparator at h
  rw [run_current, Parser.current_kind] at h
  split at h
  · rename_i hc
    rw [discard_bind] at h
    obtain ⟨c, u, hadv, h⟩ := bind_eq_ok.mp h
    rw [run_current, Parser.current_kind] at h
    obtain ⟨-, -, hck, hcp⟩ := advance_inv (by simpa using hc) (by decide) (by decide) hadv
    split at h
    · cases h
    · rename_i hk
      cases h
      exact .inr ⟨c, hck, hcp, by simpa using hk⟩
  · split at h
    · -- the token is none that may stand here, so that closing fails
      rename_i hk
      rw [← bind_pure (discard (close o)), discard_bind] at h
      obtain ⟨c, u, hclose, h⟩ := bind_eq_ok.mp h
      obtain ⟨hcr, -, hck, -⟩ := close_inv (by rw [ho]; rfl) (by decide) (by decide) hclose
      rw [hcr] at hk
      simp [headKind, hck] at hk
    · rename_i hk
      cases h
      exact .inl ⟨rfl, by simpa using hk⟩

/-- The form of the positional arguments. -/
def positionalForm (definition : Bool) : ArgumentForm :=
  if definition then .parameter else .value

lemma keywordArgument_inv {readValue : Parse Node} (hr : Reads a (.expression 1 false) readValue)
    (h : keywordArgument readValue s = .ok n t) :
    ∃ ts, Passes s t ts ∧ Derives a (.argument .keyword) ts t.rest [n] := by
  unfold keywordArgument at h
  obtain ⟨name, u, hname, h⟩ := bind_eq_ok.mp h
  obtain ⟨x, rfl, hx, -, -, hxp⟩ := leafOf_inv (by decide) (by decide) hname
  rw [discard_bind] at h
  obtain ⟨e, v, he, h⟩ := bind_eq_ok.mp h
  obtain ⟨-, -, hek, hep⟩ := expect_one_inv (by decide) (by decide) he
  obtain ⟨value, w, hvalue, h⟩ := bind_eq_ok.mp h
  obtain ⟨ts, hts, hd⟩ := hr.run hvalue
  rw [run_node, hts.previous_stop hd.ne_nil] at h
  cases h
  exact ⟨_, hxp.trans (hep.trans hts), .argumentKeyword hx hek hd⟩

/-- At the closing parenthesis there are no further arguments. -/
lemma argumentList_close {readValue : Parse Node} {definition named : Bool} {o : Token}
    {bound : Nat} {r : List Node × List Node} (hs : headKind s.rest = .rightParen)
    (h : argumentList readValue definition o bound named s = .ok r t) : r = ([], []) ∧ t = s := by
  cases bound with
  | zero => cases h
  | succ bound =>
    rw [argumentList, run_get] at h
    simp only [Parser.current_kind, hs, beq_self_eq_true, if_true] at h
    cases h
    exact ⟨rfl, rfl⟩

/-- A list of arguments ends before the closing parenthesis. -/
lemma current_of_argumentList {readValue : Parse Node} {definition named : Bool} {o : Token}
    {bound : Nat} {args : List Node × List Node}
    (h : argumentList readValue definition o bound named s = .ok args t) :
    t.current.kind = .rightParen := by
  induction bound generalizing named s args with
  | zero => cases h
  | succ bound ih =>
    rw [argumentList, run_get] at h
    dsimp only at h
    split at h
    · rename_i hc
      cases h
      exact beq_iff_eq.mp hc
    split at h
    · cases h
    -- an argument, the separator behind it and the other arguments
    have hmore {x : Parse Node} {g : Node → List Node × List Node → List Node × List Node}
        {named : Bool} (h : (x >>= fun n => argumentSeparator o >>= fun _ =>
          argumentList readValue definition o bound named >>= fun r => pure (g n r)) s
            = .ok args t) : t.current.kind = .rightParen := by
      obtain ⟨n, u, -, h⟩ := bind_eq_ok.mp h
      obtain ⟨-, v, -, h⟩ := bind_eq_ok.mp h
      obtain ⟨r, w, hr, h⟩ := bind_eq_ok.mp h
      cases h
      exact ih hr
    split at h
    · exact hmore (g := fun n r => (r.1, n :: r.2)) h
    split at h
    · cases h
    · split at h <;> exact hmore (g := fun n r => (n :: r.1, r.2)) h

/-- Named arguments up to the closing parenthesis. -/
lemma argumentList_named_inv {readValue : Parse Node} {definition : Bool} {o : Token}
    {bound : Nat} {xs ys : List Node} (hr : Reads a (.expression 1 false) readValue)
    (ho : o.kind = .leftParen)
    (h : argumentList readValue definition o bound true s = .ok (xs, ys) t) :
    xs = [] ∧ headKind t.rest = .rightParen
      ∧ ∃ ts, Passes s t ts ∧ Derives a (.arguments .keyword) ts t.rest ys := by
  induction bound generalizing s xs ys with
  | zero => cases h
  | succ bound ih =>
    rw [argumentList, run_get] at h
    simp only [Parser.current_kind, Parser.peek_kind, List.drop_one] at h
    split at h
    · rename_i hk
      cases h
      have hk : headKind t.rest = .rightParen := by simpa using hk
      exact ⟨rfl, hk, [], .refl _, .argumentsEnd (.inl hk)⟩
    split at h
    · cases h
    split at h
    · obtain ⟨x, u, hx, h⟩ := bind_eq_ok.mp h
      obtain ⟨ts, hts, hd⟩ := keywordArgument_inv hr hx
      obtain ⟨⟨⟩, v, hsep, h⟩ := bind_eq_ok.mp h
      obtain ⟨⟨xs', ys'⟩, w, hmore, h⟩ := bind_eq_ok.mp h
      cases h
      rcases argumentSeparator_inv ho hsep with ⟨rfl, hlast⟩ | ⟨c, hc, hcp, hnext⟩
      · obtain ⟨hr, rfl⟩ := argumentList_close hlast hmore
        cases hr
        exact ⟨rfl, hlast, ts, hts, .argumentsLast hd hlast⟩
      · obtain ⟨rfl, hk, us, hus, hds⟩ := ih hmore
        rw [hcp.rest, hus.rest] at hd
        exact ⟨rfl, hk, _, hts.trans (hcp.trans hus),
          .argumentsMore hd hc (hus.rest ▸ hnext) hds⟩
    · simp only [if_true] at h
      cases h

/-- Positional arguments, then named ones. -/
lemma argumentList_inv {readValue : Parse Node} {definition : Bool} {o : Token} {bound : Nat}
    {xs ys : List Node} (hr : Reads a (.expression 1 false) readValue) (ho : o.kind = .leftParen)
    (h : argumentList readValue definition o bound false s = .ok (xs, ys) t) :
    headKind t.rest = .rightParen ∧ ∃ us vs, Passes s t (us ++ vs)
      ∧ Derives a (.arguments (positionalForm definition)) us (vs ++ t.rest) xs
      ∧ Derives a (.arguments .keyword) vs t.rest ys := by
  induction bound generalizing s xs ys with
  | zero => cases h
  | succ bound ih =>
    have hform : positionalForm definition ≠ .keyword := by
      unfold positionalForm
      cases definition <;> decide
    rw [argumentList, run_get] at h
    simp only [Parser.current_kind, Parser.peek_kind, List.drop_one] at h
    split at h
    · rename_i hk
      cases h
      have hk : headKind t.rest = .rightParen := by simpa using hk
      exact ⟨hk, [], [], .refl _, .argumentsEnd (.inl hk), .argumentsEnd (.inl hk)⟩
    rename_i hclose
    split at h
    · cases h
    rename_i hstray
    split at h
    · -- the first named argument ends the positional ones
      rename_i hbind
      have hnamed : argumentList readValue definition o (bound + 1) true s = .ok (xs, ys) t := by
        rw [argumentList, run_get]
        simp only [Parser.current_kind, Parser.peek_kind, List.drop_one]
        rw [if_neg hclose, if_neg hstray, if_pos hbind]
        exact h
      obtain ⟨rfl, hk, vs, hvs, hds⟩ := argumentList_named_inv hr ho hnamed
      refine ⟨hk, [], vs, hvs, .argumentsEnd (.inr ⟨hform, ?_⟩), hds⟩
      rw [← hvs.rest]
      exact hbind
    · rename_i hbind
      have hbind : bindingAhead s.rest = false := by
        unfold bindingAhead
        simpa using hbind
      simp only [Bool.false_eq_true, if_false] at h
      -- the argument, then the others
      obtain ⟨x, u, ts, hts, hd, h⟩ : ∃ x u ts, Passes s u ts
          ∧ Derives a (.argument (positionalForm definition)) ts u.rest [x]
          ∧ (argumentSeparator o >>= fun _ =>
              argumentList readValue definition o bound false >>= fun r =>
                pure (x :: r.1, r.2)) u = .ok (xs, ys) t := by
        cases definition with
        | true =>
          simp only [if_true] at h
          obtain ⟨n, u, hn, h⟩ := bind_eq_ok.mp h
          obtain ⟨x, rfl, hx, hxr, -, hxp⟩ := leafOf_inv (by decide) (by decide) hn
          exact ⟨_, u, [x], hxp, .argumentName hx (hxr ▸ hbind), h⟩
        | false =>
          simp only [Bool.false_eq_true, if_false] at h
          obtain ⟨n, u, hn, h⟩ := bind_eq_ok.mp h
          obtain ⟨ts, hts, hd⟩ := hr.run hn
          exact ⟨n, u, ts, hts, .argumentValue hd (hts.rest ▸ hbind), h⟩
      obtain ⟨⟨⟩, v, hsep, h⟩ := bind_eq_ok.mp h
      obtain ⟨⟨xs', ys'⟩, w, hmore, h⟩ := bind_eq_ok.mp h
      cases h
      rcases argumentSeparator_inv ho hsep with ⟨rfl, hlast⟩ | ⟨c, hc, hcp, hnext⟩
      · obtain ⟨hr, rfl⟩ := argumentList_close hlast hmore
        cases hr
        refine ⟨hlast, ts, [], ?_, .argumentsLast hd hlast, .argumentsEnd (.inl hlast)⟩
        rwa [List.append_nil]
      · obtain ⟨hk, us, vs, hus, hds, hks⟩ := ih hmore
        rw [hcp.rest, hus.rest, List.append_assoc] at hd
        have hnext' : headKind (us ++ (vs ++ t.rest)) ≠ .rightParen := by
          rwa [← List.append_assoc, ← hus.rest]
        refine ⟨hk, ts ++ c :: us, vs, ?_, .argumentsMore hd hc hnext' hds, hks⟩
        have := hts.trans (hcp.trans hus)
        simpa using this

/-- Arguments up to and including the closing parenthesis. -/
lemma arguments_inv {readValue : Parse Node} {definition : Bool} {o : Token} {x y : Node}
    (hr : Reads a (.expression 1 false) readValue) (ho : o.kind = .leftParen)
    (h : arguments readValue definition o s = .ok (x, y) t) :
    ∃ ls us vs c xs ys, Passes s t (ls ++ (us ++ (vs ++ [c])))
      ∧ (definition = false → ls = []) ∧ LeadingComma ls (us ++ (vs ++ c :: t.rest))
      ∧ Derives a (.arguments (positionalForm definition)) us (vs ++ c :: t.rest) xs
      ∧ Derives a (.arguments .keyword) vs (c :: t.rest) ys ∧ c.kind = .rightParen
      ∧ x = argumentsNode .positionalArgs o c xs ∧ y = argumentsNode .keywordArgs o c ys := by
  unfold arguments at h
  -- the leading comma of a definition
  obtain ⟨ls, u, hls, hdef, hlead, h⟩ : ∃ ls u, Passes s u ls ∧ (definition = false → ls = [])
      ∧ LeadingComma ls u.rest
      ∧ (argumentList readValue definition o u.rest.length false >>= fun r => advance >>= fun c =>
          pure (argumentsNode .positionalArgs o c r.1, argumentsNode .keywordArgs o c r.2)) u
        = .ok (x, y) t := by
    cases definition with
    | false => exact ⟨[], s, .refl s, fun _ => rfl, .none, h⟩
    | true =>
      simp only [if_true] at h
      obtain ⟨⟨⟩, u, hskip, h⟩ := bind_eq_ok.mp h
      unfold skipLeadingComma at hskip
      rw [run_get] at hskip
      split at hskip
      · rename_i hc
        simp only [Parser.current_kind, Parser.peek_kind, Bool.and_eq_true, beq_iff_eq] at hc
        rw [← bind_pure (discard advance), discard_bind] at hskip
        obtain ⟨c, v, hadv, hskip⟩ := bind_eq_ok.mp hskip
        cases hskip
        obtain ⟨hcr, -, hck, hcp⟩ := advance_inv hc.1.1 (by decide) (by decide) hadv
        refine ⟨[c], u, hcp, by simp, .comma hck ?_, h⟩
        simp only [hcr, List.drop_one, List.drop_succ_cons, List.drop_zero] at hc
        simp [bindingAhead, hc.1.2, hc.2]
      · cases hskip
        exact ⟨[], _, .refl _, by simp, .none, h⟩
  obtain ⟨⟨xs, ys⟩, v, hlist, h⟩ := bind_eq_ok.mp h
  obtain ⟨hk, us, vs, hus, hds, hks⟩ := argumentList_inv hr ho hlist
  obtain ⟨c, w, hc, h⟩ := bind_eq_ok.mp h
  cases h
  obtain ⟨hcr, -, hck, hcp⟩ := advance_inv hk (by decide) (by decide) hc
  rw [hcr] at hds hks
  refine ⟨ls, us, vs, c, xs, ys, ?_, hdef, ?_, hds, hks, hck, rfl, rfl⟩
  · have := hls.trans (hus.trans hcp)
    simpa using this
  · rwa [hus.rest, hcr, List.append_assoc] at hlead

lemma call_inv (hL : PhraseLevel a L) {target : Node} (h : call L target s = .ok n t) :
    ∃ b o us vs c xs ys, a = b + 1 ∧ Passes s t (o :: (us ++ (vs ++ [c]))) ∧ o.kind = .leftParen
      ∧ Derives b (.arguments .value) us (vs ++ c :: t.rest) xs
      ∧ Derives b (.arguments .keyword) vs (c :: t.rest) ys ∧ c.kind = .rightParen
      ∧ n = callNode target o c xs ys := by
  unfold call at h
  obtain ⟨o, u, ho, h⟩ := bind_eq_ok.mp h
  obtain ⟨-, -, hok, hop⟩ := expect_one_inv (by decide) (by decide) ho
  obtain ⟨⟨x, y⟩, v, hargs, h⟩ := bind_eq_ok.mp h
  obtain ⟨b, read, rfl, hr, hargs⟩ := nested_inv hL hargs
  obtain ⟨ls, us, vs, c, xs, ys, hp, hdef, -, hds, hks, hck, rfl, rfl⟩ :=
    arguments_inv (hr.expression 1 false) hok hargs
  obtain rfl := hdef rfl
  have hstop : v.previous.stop = c.stop := by
    rw [hp.previous_stop (by simp)]
    simp [lastStop]
  dsimp only at h
  rw [run_node, hstop] at h
  cases h
  exact ⟨b, o, us, vs, c, xs, ys, rfl, hop.trans hp, hok, hds, hks, hck, rfl⟩

/-! ### Matrices -/

lemma accept_inv {kind : TokenKind} {y : Option Token} (hk : kind ≠ .eof) (hs : kind ≠ .string)
    (h : accept [kind] s = .ok y t) :
    (y = none ∧ t = s ∧ headKind s.rest ≠ kind) ∨
      ∃ x, y = some x ∧ x.kind = kind ∧ Passes s t [x] ∧ s.rest = x :: t.rest := by
  unfold accept at h
  rw [run_current, Parser.current_kind] at h
  split at h
  · rename_i hc
    rw [map_eq_bind] at h
    obtain ⟨x, u, hx, h⟩ := bind_eq_ok.mp h
    cases h
    obtain ⟨hr, -, hxk, hp⟩ := advance_inv (by simpa using hc) hk hs hx
    exact .inr ⟨x, rfl, hxk, hp, hr⟩
  · rename_i hc
    cases h
    exact .inl ⟨rfl, rfl, by simpa using hc⟩

lemma rowElements_inv (hr : PhraseReader b read) {bound : Nat} {ns : List Node}
    (hb : s.rest.length ≤ bound) (h : rowElements read bound s = .ok ns t) :
    ∃ ts, Passes s t ts ∧ Derives b .elements ts t.rest ns := by
  induction bound generalizing s ns with
  | zero =>
    cases h
    refine ⟨[], .refl _, .elementsEnd ?_⟩
    rw [List.length_eq_zero_iff.mp (Nat.le_zero.mp hb)]
    rfl
  | succ bound ih =>
    rw [rowElements, run_current, Parser.current_kind] at h
    split at h
    · rename_i hk
      cases h
      exact ⟨[], .refl _, .elementsEnd hk⟩
    obtain ⟨x, u, hx, h⟩ := bind_eq_ok.mp h
    obtain ⟨ts, hts, hd⟩ := (hr.expression 1 true).run hx
    have hlen := hts.length
    have hpos := List.length_pos_iff.mpr hd.ne_nil
    rw [discard_bind] at h
    obtain ⟨c, v, hc, h⟩ := bind_eq_ok.mp h
    obtain ⟨xs, w, hxs, h⟩ := bind_eq_ok.mp h
    cases h
    rcases accept_inv (by decide) (by decide) hc with ⟨-, rfl, hk⟩ | ⟨c, -, hck, hcp, -⟩
    · obtain ⟨us, hus, hds⟩ := ih (by omega) hxs
      rw [hus.rest] at hd hk
      exact ⟨_, hts.trans hus, .elementsMore hd hk hds⟩
    · have hlen' := hcp.length
      obtain ⟨us, hus, hds⟩ := ih (by omega) hxs
      rw [hcp.rest, hus.rest] at hd
      exact ⟨_, hts.trans (hcp.trans hus), .elementsComma hd hck hds⟩

/-- The elements of a row that is not empty start with a token. -/
lemma Derives.elements_cons {ts k : List Token} {ns : List Node}
    (h : Derives b .elements ts k ns) (hn : ns ≠ []) : ∃ t us, ts = t :: us := by
  cases h with
  | elementsEnd => exact absurd rfl hn
  | elementsMore h =>
    obtain ⟨t, us, rfl, -⟩ := h.first rfl
    exact ⟨t, _, rfl⟩
  | elementsComma h =>
    obtain ⟨t, us, rfl, -⟩ := h.first rfl
    exact ⟨t, _, rfl⟩

lemma rows_inv (hr : PhraseReader b read) {o : Token} (ho : o.kind = .leftBracket) {bound : Nat}
    {ns : List Node} (h : rows read o bound s = .ok ns t) :
    ∃ ts c, Passes s t (ts ++ [c]) ∧ Derives b .rows ts (c :: t.rest) ns
      ∧ c.kind = .rightBracket := by
  induction bound generalizing s ns with
  | zero => cases h
  | succ bound ih =>
    rw [rows, run_current] at h
    rw [run_tokensLeft] at h
    obtain ⟨elements, u, helements, h⟩ := bind_eq_ok.mp h
    obtain ⟨ts, hts, hd⟩ := rowElements_inv hr (Nat.le_refl _) helements
    cases hl : elements.getLast? with
    | none => rw [hl] at h; cases h
    | some last =>
      have hne : elements ≠ [] := by
        rintro rfl
        cases hl
      obtain ⟨x, us, rfl⟩ := hd.elements_cons hne
      have hfirst : s.current = x := Parser.current_of_rest (by rw [hts.rest]; rfl)
      simp only [hl, hfirst] at h
      rw [run_current, Parser.current_kind] at h
      split at h
      · rename_i hk
        rw [discard_bind] at h
        obtain ⟨c, v, hc, h⟩ := bind_eq_ok.mp h
        obtain ⟨hcr, -, hck, hcp⟩ := advance_inv (by simpa using hk) (by decide) (by decide) hc
        rw [run_node_bind, hcp.previous_stop (by simp)] at h
        obtain ⟨more, w, hmore, h⟩ := bind_eq_ok.mp h
        cases h
        obtain ⟨vs, d, hvs, hrows, hdk⟩ := ih hmore
        refine ⟨x :: (us ++ c :: vs), d, ?_, .rowsMore ?_ hne hck hrows, hdk⟩
        · have := hts.trans (hcp.trans hvs)
          simpa using this
        · rw [hcr, hvs.rest] at hd
          simpa using hd
      · rw [discard_bind] at h
        obtain ⟨c, v, hc, h⟩ := bind_eq_ok.mp h
        cases h
        obtain ⟨hcr, -, hck, hcp⟩ := close_inv (by rw [ho]; rfl) (by decide) (by decide) hc
        rw [hcr] at hd
        exact ⟨x :: us, c, hts.trans hcp, .rowsLast hd hl hck, hck⟩

lemma matrix_inv (hL : PhraseLevel a L) (h : matrix L s = .ok n t) :
    ∃ ts, Passes s t ts ∧ Derives a (.primary m) ts t.rest [n] := by
  unfold matrix at h
  obtain ⟨o, u, ho, h⟩ := bind_eq_ok.mp h
  obtain ⟨-, -, hok, hop⟩ := expect_one_inv (by decide) (by decide) ho
  obtain ⟨children, v, hrows, h⟩ := bind_eq_ok.mp h
  obtain ⟨b, read, rfl, hr, hrows⟩ := nested_inv hL hrows
  rw [run_tokensLeft] at hrows
  obtain ⟨ts, c, hts, hd, hck⟩ := rows_inv hr hok hrows
  have hstop : v.previous.stop = c.stop := by
    rw [hts.previous_stop (by simp)]
    simp [lastStop]
  rw [run_node, hstop] at h
  cases h
  exact ⟨_, hop.trans hts, .matrix hok hd hck⟩

/-! ### Strings -/

/-- The comments within the snippets of the pieces of a string. -/
def segmentComments (segs : List (Segment Token)) : List Node :=
  segs.flatMap fun seg =>
    match seg.form with
    | .snippet tokens => (Parser.settle 0 none tokens).2
    | _ => []

lemma onTokens_inv {α : Type} {tokens : Parser} {body : Parse α} {y : α}
    (h : onTokens tokens body s = .ok y t) :
    ∃ u, body { tokens with trace := s.trace } = .ok y u ∧ t = { s with trace := u.trace } := by
  unfold onTokens at h
  split at h
  · rename_i z u hz
    cases h
    exact ⟨u, hz, rfl⟩
  · cases h

lemma snippetExpression_inv (hL : PhraseLevel a L) {seg : Segment Token} {tokens : List Token}
    (h : snippetExpression L seg tokens s = .ok n t) :
    Moves s t [] [] (Parser.settle 0 none tokens).2
      ∧ ∃ ts k, (Parser.settle 0 none tokens).1 = ts ++ k
        ∧ Derives a (.expression 1 false) ts k [n] ∧ headKind k = .eof := by
  unfold snippetExpression at h
  rw [run_note, run_modify] at h
  split at h
  · cases h
  obtain ⟨u, he, rfl⟩ := onTokens_inv h
  obtain ⟨e, v, hv, he⟩ := bind_eq_ok.mp he
  rw [run_current, Parser.current_kind] at he
  split at he
  · cases he
  · rename_i hk
    cases he
    obtain ⟨ts, hts, hd⟩ := (reads_expression hL 1 false).run hv
    exact ⟨⟨rfl, rfl, by simp, rfl⟩, ts, u.rest, hts.rest, hd, by simpa using hk⟩

lemma segmentNode_inv (hL : PhraseLevel a L) {seg : Segment Token} (h : segmentNode L seg s = .ok n t)
    {segs : List (Segment Token)} {ns : List Node} (hs : Derives a (.segments segs) [] [] ns) :
    Moves s t [] [] (segmentComments [seg])
      ∧ Derives a (.segments (seg :: segs)) [] [] (n :: ns) := by
  unfold segmentNode at h
  cases hf : seg.form with
  | snippet tokens =>
    rw [hf] at h
    obtain ⟨e, u, he, h⟩ := bind_eq_ok.mp h
    cases h
    obtain ⟨hm, ts, k, hts, hd, hk⟩ := snippetExpression_inv hL he
    refine ⟨?_, .segmentsSnippet hf hts hd hk hs⟩
    simpa [segmentComments, hf] using hm
  | _ =>
    have hplain : n = plainSegment seg ∧ t = s := by
      rw [hf] at h
      cases h
      simp [plainSegment, hf]
    obtain ⟨rfl, rfl⟩ := hplain
    refine ⟨?_, .segmentsPlain (by simp [hf]) hs⟩
    simpa [segmentComments, hf] using Moves.refl _

lemma segments_inv (hL : PhraseLevel a L) {segs : List (Segment Token)} {ns : List Node}
    (h : segs.mapM (segmentNode L) s = .ok ns t) :
    Moves s t [] [] (segmentComments segs) ∧ Derives a (.segments segs) [] [] ns := by
  induction segs generalizing s ns with
  | nil =>
    cases h
    exact ⟨.refl _, .segmentsNil⟩
  | cons seg segs ih =>
    rw [List.mapM_cons] at h
    obtain ⟨x, u, hx, h⟩ := bind_eq_ok.mp h
    obtain ⟨xs, v, hxs, h⟩ := bind_eq_ok.mp h
    cases h
    obtain ⟨hm, hd⟩ := ih hxs
    obtain ⟨hm', hd'⟩ := segmentNode_inv hL hx hd
    refine ⟨?_, hd'⟩
    have := hm'.trans hm
    simpa [segmentComments] using this

lemma string_inv (hL : PhraseLevel a L) (h : Grammar.string L s = .ok n t) :
    ∃ ts, Passes s t ts ∧ Derives a (.primary m) ts t.rest [n] := by
  unfold Grammar.string at h
  obtain ⟨x, u, hx, h⟩ := bind_eq_ok.mp h
  obtain ⟨chars, v, hchars, h⟩ := bind_eq_ok.mp h
  cases h
  unfold expect at hx
  rw [run_current] at hx
  split at hx
  · rename_i hc
    cases hx
    have hkind : s.current.kind = .string := by simpa using hc
    have hrest := Parser.rest_eq_current (s := s) (by rw [← Parser.current_kind, hkind]; decide)
    obtain ⟨hm, hd⟩ := segments_inv hL hchars
    refine ⟨[s.current], ?_, .string hkind hd⟩
    have := (Moves.step hrest).trans hm
    simpa [Passes, Token.snippetComments, hkind, segmentComments] using this
  · cases hx

/-! ### Operands -/

lemma nameOrCall_inv (hL : PhraseLevel a L) (h : nameOrCall L m s = .ok n t) :
    ∃ ts, Passes s t ts ∧ Derives a (.primary m) ts t.rest [n] := by
  unfold nameOrCall at h
  obtain ⟨target, u, htarget, h⟩ := bind_eq_ok.mp h
  obtain ⟨ts, hts, hd⟩ := (reads_memberAccess a m).run htarget
  rw [run_current, Parser.current_kind, Parser.current_spaced] at h
  by_cases hc : callAhead m u.rest = true
  · have hc' := hc
    unfold callAhead at hc'
    simp only [hc', if_true] at h
    obtain ⟨b, o, us, vs, c, xs, ys, rfl, hp, hok, hx, hy, hck, rfl⟩ := call_inv hL h
    have hd' : Derives (b + 1) (.name m) ts (o :: (us ++ (vs ++ c :: t.rest))) [target] := by
      have := hp.rest ▸ hd
      simpa using this
    refine ⟨_, hts.trans hp, .call hd' ?_ hx hy hck⟩
    rw [hp.rest] at hc
    exact hc
  · have hc' : callAhead m u.rest = false := by simpa using hc
    unfold callAhead at hc
    simp only [hc] at h
    cases h
    exact ⟨ts, hts, .plainName hd hc'⟩

lemma reads_primary (hL : PhraseLevel a L) (m : Bool) : Reads a (.primary m) (primary L m) := by
  refine ⟨fun {s n t} h => ?_⟩
  unfold primary at h
  rw [run_get, Parser.peek_kind, List.drop_one] at h
  cases hk : s.current.kind with
  | leftBracket => rw [hk] at h; exact matrix_inv hL h
  | leftParen => rw [hk] at h; exact bracketed_inv hL h
  | identifier => rw [hk] at h; exact nameOrCall_inv hL h
  | number =>
    simp only [hk] at h
    split at h
    · exact range_inv h
    · rename_i hc
      exact number_inv (by rw [← Parser.current_kind, hk]) (by simpa using hc) h
  | string => rw [hk] at h; exact string_inv hL h
  | _ => rw [hk] at h; cases h

lemma suffixes_inv (hL : PhraseLevel a L) {bound : Nat} {operand : Node}
    (hb : s.rest.length ≤ bound) (h : suffixes L bound operand s = .ok n t) :
    ∃ ts, Passes s t ts ∧ Derives a (.suffixes operand) ts t.rest [n] := by
  induction bound generalizing s operand with
  | zero =>
    cases h
    refine ⟨[], .refl _, .suffixesEnd ?_⟩
    rw [List.length_eq_zero_iff.mp (Nat.le_zero.mp hb)]
    rfl
  | succ bound ih =>
    rw [suffixes, run_current, Parser.current_kind, Parser.current_spaced] at h
    by_cases hc : suffixAhead s.rest = true
    · have hc' := hc
      unfold suffixAhead at hc'
      simp only [hc', if_true, discard_bind] at h
      obtain ⟨op, u, hop, h⟩ := bind_eq_ok.mp h
      simp only [Bool.and_eq_true] at hc'
      have hne : headKind s.rest ≠ .eof := by
        intro he
        rw [he] at hc'
        cases hc'.1
      have hstr : headKind s.rest ≠ .string := by
        intro he
        rw [he] at hc'
        cases hc'.1
      obtain ⟨hr, -, -, hp⟩ := advance_inv rfl hne hstr hop
      rw [run_node_bind, hp.previous_stop (by simp), Parser.current_of_rest hr] at h
      rw [bounded_bind_eq_ok, hL.allowance] at h
      obtain ⟨hh, h⟩ := h
      have hlen := hp.length
      rw [List.length_singleton] at hlen
      obtain ⟨ts, hts, hd⟩ := ih (by omega) h
      refine ⟨_, hp.trans hts, .suffixesMore ?_ hh hd⟩
      rw [hr] at hc
      exact hc
    · have hc' : suffixAhead s.rest = false := by simpa using hc
      unfold suffixAhead at hc
      simp only [hc] at h
      cases h
      exact ⟨[], .refl _, .suffixesEnd hc'⟩

lemma reads_unary (hL : PhraseLevel a L) (m : Bool) : Reads a (.unary m) (unary L m) := by
  refine ⟨fun {s n t} h => ?_⟩
  unfold unary at h
  rw [run_current] at h
  split at h
  · rename_i hop
    rw [discard_bind] at h
    obtain ⟨op, u, hadv, h⟩ := bind_eq_ok.mp h
    rw [Parser.current_kind] at hop
    have hne : headKind s.rest ≠ .eof := by
      intro he
      rw [he] at hop
      cases hop
    have hstr : headKind s.rest ≠ .string := by
      intro he
      rw [he] at hop
      cases hop
    obtain ⟨hr, -, hopk, hp⟩ := advance_inv rfl hne hstr hadv
    rw [Parser.current_of_rest hr] at h
    obtain ⟨operand, v, hoperand, h⟩ := bind_eq_ok.mp h
    obtain ⟨b, read, rfl, hread, hoperand⟩ := nested_inv hL hoperand
    cases h
    obtain ⟨ts, hts, hd⟩ := (hread.unary m).run hoperand
    exact ⟨_, hp.trans hts, .unaryPrefix (hopk ▸ hop) hd⟩
  · unfold suffix at h
    obtain ⟨operand, u, hoperand, h⟩ := bind_eq_ok.mp h
    rw [run_tokensLeft] at h
    obtain ⟨ts, hts, hd⟩ := (reads_primary hL m).run hoperand
    obtain ⟨us, hus, hs⟩ := suffixes_inv hL (Nat.le_refl _) h
    exact ⟨_, hts.trans hus, .unaryPlain (hus.rest ▸ hd) hs⟩

end

end StpLang
