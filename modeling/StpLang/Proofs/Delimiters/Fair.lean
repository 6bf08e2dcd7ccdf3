import StpLang.Proofs.Delimiters.Stack

/-!
Steps of a strict reader that judge delimiters rightly.

A step is fair when its success tells that the tokens ahead of it close a stack just
when those left behind it close another one, and when it blames a delimiter only for
tokens that do not close the stack.

* `Fair` and `FairAt` say this of all states and of one state.
* `FairAt.bind` and its kin put fair steps in sequence.
* `Fair.expect`, `Fair.close` and their kin are the single actions.
-/

namespace StpLang

open Parse

/-! ### Verdicts -/

/-- What the outcome of a step that began before the tokens `ts` tells of them: in
case of success they close `opens` when the tokens left close `opens'`, and an error
that blames a delimiter is right. -/
inductive Verdict {α : Type} (opens opens' : List TokenKind) (ts : List Token) :
    EStateM.Result Error Parser α → Prop
  | ok {a : α} {t : Parser} (ended : Ended t.rest)
      (h : Unwinds opens ts ↔ Unwinds opens' t.rest) : Verdict opens opens' ts (.ok a t)
  | error {e : Error} {t : Parser} (h : e.category = .unbalanced → ¬Unwinds opens ts) :
      Verdict opens opens' ts (.error e t)

/-- The step is fair to what lies ahead. -/
structure FairAt {α : Type} (opens opens' : List TokenKind) (p : Parse α) (s : Parser) :
    Prop where
  run : Ended s.rest → Verdict opens opens' s.rest (p s)

/-- The step is fair wherever it begins. -/
structure Fair {α : Type} (opens opens' : List TokenKind) (p : Parse α) : Prop where
  fairAt : ∀ s, FairAt opens opens' p s

section

variable {α β : Type} {o o' o'' : List TokenKind} {c : TokenKind} {s : Parser} {p : Parse α}
  {f : α → Parse β}

/-- The verdict on later tokens counts for earlier ones that unwind a stack alike. -/
lemma Verdict.of_iff {ts us : List Token} {r : EStateM.Result Error Parser α}
    (h : Unwinds o ts ↔ Unwinds o' us) (hv : Verdict o' o'' us r) : Verdict o o'' ts r := by
  cases hv with
  | ok hended h' => exact .ok hended (h.trans h')
  | error h' => exact .error fun hc hs => h' hc (h.mp hs)

/-! ### Sequences -/

namespace FairAt

lemma bind (hp : FairAt o o' p s) (hf : ∀ a t, p s = .ok a t → FairAt o' o'' (f a) t) :
    FairAt o o'' (p >>= f) s := by
  refine ⟨fun he => ?_⟩
  have hv := hp.run he
  cases hr : p s with
  | error e t =>
    rw [hr] at hv
    rw [bind_error hr]
    cases hv with
    | error h => exact .error h
  | ok a t =>
    rw [hr] at hv
    rw [bind_ok hr]
    cases hv with
    | ok ht h => exact .of_iff h ((hf a t hr).run ht)

lemma ite {b : Prop} [Decidable b] {q : Parse α} (hp : b → FairAt o o' p s)
    (hq : ¬b → FairAt o o' q s) : FairAt o o' (if b then p else q) s := by
  split
  · exact hp ‹b›
  · exact hq ‹¬b›

end FairAt

namespace Fair

lemma pure (a : α) : Fair o o (pure a : Parse α) := ⟨fun _ => ⟨fun he => .ok he .rfl⟩⟩

/-- An error that blames no delimiter. -/
lemma fail {cause : Cause} (h : cause.category ≠ .unbalanced) (r : Span) :
    Fair o o' (fail cause r : Parse α) := ⟨fun _ => ⟨fun _ => .error fun hc => absurd hc h⟩⟩

lemma fail_bind {cause : Cause} (h : cause.category ≠ .unbalanced) (r : Span) :
    Fair o o' (Parse.fail cause r >>= f) := ⟨fun _ => ⟨fun _ => .error fun hc => absurd hc h⟩⟩

/-- An error of the grammar that concerns no delimiter. -/
lemma refuse {cause : Cause} (h : cause.category = .grammar) (r : Span) :
    Fair o o' (Parse.fail cause r : Parse α) := fail (by rw [h]; decide) r

lemma refuse_bind {cause : Cause} (h : cause.category = .grammar) (r : Span) :
    Fair o o' (Parse.fail cause r >>= f) := fail_bind (by rw [h]; decide) r

lemma node (kind : Kind) (place : Place) (ns : List Node) (fields : FieldTable)
    (value : Option String) : Fair o o (node kind place ns fields value) :=
  ⟨fun _ => ⟨fun he => .ok he .rfl⟩⟩

lemma bind (hp : Fair o o' p) (hf : ∀ a, Fair o' o'' (f a)) : Fair o o'' (p >>= f) :=
  ⟨fun s => (hp.fairAt s).bind fun a t _ => (hf a).fairAt t⟩

lemma ite {b : Prop} [Decidable b] {q : Parse α} (hp : b → Fair o o' p) (hq : ¬b → Fair o o' q) :
    Fair o o' (if b then p else q) :=
  ⟨fun s => .ite (fun h => (hp h).fairAt s) fun h => (hq h).fairAt s⟩

lemma discard_bind {f : PUnit → Parse β} (hp : Fair o o' p) (hf : Fair o' o'' (f ⟨⟩)) :
    Fair o o'' (discard p >>= f) := by
  rw [Parse.discard_bind]
  exact hp.bind fun _ => hf

lemma get_bind {f : Parser → Parse β} (h : ∀ s, FairAt o o' (f s) s) : Fair o o' (get >>= f) :=
  ⟨fun s => ⟨fun he => (h s).run he⟩⟩

lemma current_bind {f : Token → Parse β} (h : ∀ s, FairAt o o' (f s.current) s) :
    Fair o o' (current >>= f) := ⟨fun s => ⟨fun he => (h s).run he⟩⟩

lemma tokensLeft_bind {f : Nat → Parse β} (h : ∀ s, FairAt o o' (f s.rest.length) s) :
    Fair o o' (tokensLeft >>= f) := ⟨fun s => ⟨fun he => (h s).run he⟩⟩

/-- What is only noted in the log concerns no delimiter. -/
lemma note_bind (x : Event) {f : Unit → Parse β} (h : Fair o o' (f ())) :
    Fair o o' (note x >>= f) :=
  ⟨fun s => ⟨fun he => (h.fairAt { s with trace := x :: s.trace }).run he⟩⟩

end Fair

/-! ### Tokens -/

/-- The token ahead of a reader that has not passed the end. -/
lemma Ended.current (h : Ended s.rest) : ∃ ts, s.rest = s.current :: ts := by
  cases hs : s.rest with
  | nil =>
    rw [hs] at h
    cases h
  | cons t ts => exact ⟨ts, by rw [Parser.current_of_rest hs]⟩

/-- Nothing is ahead of the end mark but itself. -/
lemma Ended.rest_eof (h : Ended s.rest) (hk : s.current.kind = .eof) :
    s.rest = [s.current] ∧ s.current.segments = [] := by
  obtain ⟨ts, hs⟩ := h.current
  rw [hs] at h ⊢
  cases h with
  | eof he hsegs => exact ⟨rfl, hsegs⟩
  | cons hne => exact absurd hk hne

/-- A token ahead that is no end mark can be passed. -/
lemma Ended.step (h : Ended s.rest) (hk : s.current.kind ≠ .eof) :
    s.rest = s.current :: s.step.rest ∧ Ended s.step.rest
      ∧ (s.current.kind ≠ .string → s.current.segments = [])
      ∧ ∀ us ∈ s.current.snippets, Ended us := by
  obtain ⟨ts, hs⟩ := h.current
  have hstep : s.step.rest = ts := Parser.rest_step hs
  rw [hstep]
  rw [hs] at h
  cases h with
  | eof he => exact absurd he hk
  | cons _ hsegs hsnippets hts => exact ⟨hs, hts, hsegs, hsnippets⟩

/-- A closing delimiter that is not expected closes no stack, and neither does the
end. -/
lemma not_unwinds_of_other (h : Ended s.rest)
    (hk : s.current.kind = .eof ∨ s.current.kind.isCloser = true) (hc : s.current.kind ≠ c) :
    ¬Unwinds (c :: o) s.rest := by
  rcases hk with he | hk
  · obtain ⟨hs, hsegs⟩ := h.rest_eof he
    rw [hs, unwinds_eof he hsegs]
    exact List.cons_ne_nil _ _
  · obtain ⟨ts, hs⟩ := h.current
    rw [hs, unwinds_closer hk]
    exact fun hcl => hc (Option.some.inj hcl.2.1).symm

namespace FairAt

variable {g : Token → Parse β} {x : Token}

/-- Passing a token that is no string. -/
lemma advance_bind (hk : s.current.kind ≠ .eof) (hs : s.current.kind ≠ .string)
    (hstack : ∀ ts, s.current.Sealed → (Unwinds o (s.current :: ts) ↔ Unwinds o' ts))
    (hf : FairAt o' o'' (g s.current) s.step) : FairAt o o'' (advance >>= g) s := by
  refine ⟨fun he => ?_⟩
  obtain ⟨hrest, hended, hsegs, -⟩ := he.step hk
  have h := hstack s.step.rest (Token.sealed_of_segments (hsegs hs))
  rw [← hrest] at h
  rw [run_advance]
  exact .of_iff h (hf.run hended)

/-- Passing a token that is no delimiter. -/
lemma plain_bind (hk : s.current.kind.isPlain = true) (hf : FairAt o o' (g s.current) s.step) :
    FairAt o o' (advance >>= g) s := by
  simp only [TokenKind.isPlain, Bool.and_eq_true, Option.isNone_iff_eq_none, Bool.not_eq_true',
    bne_iff_ne] at hk
  refine advance_bind hk.2 hk.1.2 (fun ts hsealed => ?_) hf
  rw [unwinds_other hk.1.1.1 hk.1.1.2, and_iff_right hsealed]

/-- Passing an opening delimiter. -/
lemma opener_bind (hk : s.current.kind.closer? = some c)
    (hf : FairAt (c :: o) o' (g s.current) s.step) : FairAt o o' (advance >>= g) s := by
  refine advance_bind (fun h => ?_) (fun h => ?_) (fun ts hsealed => ?_) hf
  · rw [h] at hk
    cases hk
  · rw [h] at hk
    cases hk
  · rw [unwinds_opener hk, and_iff_right hsealed]

/-- Passing the closing delimiter that is expected. -/
lemma closer_bind (hk : s.current.kind = c) (hc : c.isCloser = true)
    (hf : FairAt o o' (g s.current) s.step) : FairAt (c :: o) o' (advance >>= g) s := by
  subst hk
  refine advance_bind (fun h => ?_) (fun h => ?_) (fun ts hsealed => ?_) hf
  · rw [h] at hc
    cases hc
  · rw [h] at hc
    cases hc
  · rw [unwinds_closer hc, and_iff_right hsealed]
    exact and_iff_right rfl

lemma get_bind {g : Parser → Parse β} (h : FairAt o o' (g s) s) : FairAt o o' (get >>= g) s :=
  ⟨fun he => h.run he⟩

/-- A step is fair when it is so with nothing behind it. -/
lemma of_bind_pure (h : FairAt o o' (p >>= pure) s) : FairAt o o' p s := by
  rwa [bind_pure] at h

lemma discard_bind {g : PUnit → Parse β} (h : FairAt o o' (p >>= fun _ => g ⟨⟩) s) :
    FairAt o o' (discard p >>= g) s := by
  rwa [Parse.discard_bind]

end FairAt

/-! ### Single actions -/

namespace Fair

lemma expect {kinds : List TokenKind} (h : ∀ k ∈ kinds, k.isPlain = true) :
    Fair o o (expect kinds) := by
  refine .current_bind fun s => .ite (fun hc => ?_) fun _ => (refuse rfl _).fairAt s
  exact .of_bind_pure (.plain_bind (h _ (List.contains_iff_mem.mp hc)) ((pure _).fairAt _))

/-- Reading an opening delimiter. -/
lemma expect_opener_bind {k : TokenKind} (hk : k.closer? = some c) {g : Token → Parse β}
    (hg : ∀ t, t.kind = k → Fair (c :: o) o' (g t)) : Fair o o' (Parse.expect [k] >>= g) := by
  refine ⟨fun s => ⟨fun he => ?_⟩⟩
  by_cases hc : [k].contains s.current.kind = true
  · have hkind : s.current.kind = k := by simpa using hc
    rw [bind_ok (run_expect hc)]
    exact (FairAt.opener_bind (hkind ▸ hk) ((hg _ hkind).fairAt _)).run he
  · rw [bind_error (run_expect_other hc)]
    exact .error fun h => by cases h

lemma leafOf {tokenKind : TokenKind} (h : tokenKind.isPlain = true) (kind : Kind) :
    Fair o o (leafOf tokenKind kind) :=
  (expect (List.forall_mem_singleton.mpr h)).bind fun _ => .pure _

lemma accept {kinds : List TokenKind} (h : ∀ k ∈ kinds, k.isPlain = true) :
    Fair o o (accept kinds) := by
  refine .current_bind fun s => .ite (fun hc => ?_) fun _ => (pure _).fairAt s
  rw [map_eq_bind]
  exact .plain_bind (h _ (List.contains_iff_mem.mp hc)) ((pure _).fairAt _)

lemma discard (h : Fair o o' p) : Fair o o' (discard p) :=
  ⟨fun s => .of_bind_pure (.discard_bind ((h.bind fun _ => .pure _).fairAt s))⟩

end Fair

/-- At a token that does not close `opener`, the reader blames the opener only where
a delimiter is missing. -/
lemma FairAt.close_other {opener : Token} (ho : opener.kind.closer? = some c)
    (hk : s.current.kind ≠ c) : FairAt (c :: o) o' (close opener) s := by
  refine ⟨fun he => ?_⟩
  have hne : (some s.current.kind == opener.kind.closer?) = false := by
    rw [ho]
    exact beq_eq_false_iff_ne.mpr fun h => hk (Option.some.inj h)
  simp only [Parse.close, run_current, hne, Bool.false_eq_true, if_false]
  split
  · rename_i hc
    rw [Bool.or_eq_true, beq_iff_eq] at hc
    exact .error fun _ => not_unwinds_of_other he hc hk
  · exact .error fun h => by cases h

lemma Fair.close {opener : Token} (ho : opener.kind.closer? = some c) (hc : c.isCloser = true) :
    Fair (c :: o) o (close opener) := by
  refine ⟨fun s => ?_⟩
  by_cases hk : s.current.kind = c
  · refine ⟨fun he => ?_⟩
    rw [run_close (hk ▸ ho)]
    exact (FairAt.closer_bind hk hc ((Fair.pure _).fairAt _)).run he
  · exact .close_other ho hk

end

end StpLang
