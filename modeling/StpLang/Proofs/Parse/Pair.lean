import StpLang.Proofs.Parse.Track

/-!
Steps in pairs.

`Paired` relates the outcomes of two runs that started side by side. A reader
that has not yet passed a token stands `Near` its partner, one that has stands
`Abreast`, so paired steps come in two forms: `Starts` passes at least one
token, and `Goes` may follow such a step.

* `Starts.bind` and `Goes.bind` put paired steps in sequence.
* `Goes.expect`, `Starts.expect_bind` and their kin pair the single actions.
-/

namespace StpLang

open Parse

/-! ### Outcomes -/

/-- The state in which a run ends, whatever its outcome. -/
def Parse.after {α : Type} : EStateM.Result Error Parser α → Parser
  | .ok _ t => t
  | .error _ t => t

/-- A step only adds errors. -/
structure Grows {α : Type} (p : Parse α) : Prop where
  run : ∀ s, ∃ es, (after (p s)).errors = s.errors ++ es

/-- The outcomes of two runs that started at `s` and `s'`: the same result
after the same moves, over at least `k` tokens in case of success. When the
runs part, the error of the first is the next one that the second records. -/
inductive Paired {α : Type} (m : Mode) (k : Nat) (s s' : Parser) :
    EStateM.Result Error Parser α → EStateM.Result Error Parser α → Prop
  | ok {a : α} {t t' : Parser} (h : Tracks m k s s' t t') : Paired m k s s' (.ok a t) (.ok a t')
  | error {e : Error} {t t' : Parser} (h : Tracks m 0 s s' t t') :
      Paired m k s s' (.error e t) (.error e t')
  | parted {e : Error} {t : Parser} {r : EStateM.Result Error Parser α} (hm : m = .parting)
      (h : ∃ es, (after r).errors = s'.errors ++ e :: es) : Paired m k s s' (.error e t) r

/-- Two steps are paired, and pass at least one token, when the readers stand
before the same tokens. -/
structure Starts {α : Type} (m : Mode) (p p' : Parse α) : Prop where
  run : ∀ s s', Near s s' → Paired m 1 s s' (p s) (p' s')

/-- Two steps are paired when the readers are abreast. -/
structure Goes {α : Type} (m : Mode) (p p' : Parse α) : Prop where
  run : ∀ s s', Abreast s s' → Paired m 0 s s' (p s) (p' s')

section

variable {α β : Type} {m : Mode} {k l : Nat} {s s' t t' : Parser}

/-! ### Growing errors -/

namespace Grows

lemma pure (a : α) : Grows (pure a : Parse α) := ⟨fun s => ⟨[], by simp [after]⟩⟩

lemma fail (c : Cause) (r : Span) : Grows (fail c r : Parse α) :=
  ⟨fun s => ⟨[], by simp [after]⟩⟩

lemma node (kind : Kind) (place : Place) (children : List Node) (fields : FieldTable)
    (value : Option String) : Grows (node kind place children fields value) :=
  ⟨fun s => ⟨[], by simp [after]⟩⟩

lemma bind {p : Parse α} {f : α → Parse β} (hp : Grows p) (hf : ∀ a, Grows (f a)) :
    Grows (p >>= f) := by
  refine ⟨fun s => ?_⟩
  obtain ⟨es, he⟩ := hp.run s
  cases h : p s with
  | ok a t =>
    obtain ⟨fs, hfs⟩ := (hf a).run t
    rw [h] at he
    exact ⟨es ++ fs, by rw [bind_ok h, hfs, show t.errors = _ from he, List.append_assoc]⟩
  | error e t => exact ⟨es, by rw [bind_error h]; rwa [h] at he⟩

lemma discard_bind {p : Parse α} {f : PUnit → Parse β} (hp : Grows p) (hf : Grows (f ⟨⟩)) :
    Grows (discard p >>= f) := by
  rw [Parse.discard_bind]
  exact hp.bind fun _ => hf

lemma ite {c : Prop} [Decidable c] {p q : Parse α} (hp : Grows p) (hq : Grows q) :
    Grows (if c then p else q) := by
  split
  · exact hp
  · exact hq

end Grows

/-! ### Sequences -/

namespace Paired

/-- Outcomes of runs that record nothing fit any mode. -/
lemma of_quiet {r r' : EStateM.Result Error Parser α} (h : Paired .quiet k s s' r r') :
    Paired m k s s' r r' := by
  cases h with
  | ok h => exact .ok h.of_quiet
  | error h => exact .error h.of_quiet
  | parted hm => cases hm

/-- The outcomes seen from an earlier start. -/
lemma after_tracks {r r' : EStateM.Result Error Parser α} (h : Tracks .quiet k s s' t t')
    (hr : Paired m l t t' r r') : Paired m (k + l) s s' r r' := by
  cases hr with
  | ok hr => exact .ok (h.of_quiet.trans hr)
  | error hr => exact .error ((h.of_quiet.trans hr).weaken (Nat.zero_le _))
  | parted hm hr =>
    obtain ⟨ts, ts', es, cs, -, h', -, -, he⟩ := h
    obtain rfl := he.resolve_left (by decide)
    obtain ⟨fs, hfs⟩ := hr
    exact .parted hm ⟨fs, by simpa [h'.errors] using hfs⟩

lemma weaken {r r' : EStateM.Result Error Parser α} (h : Paired m k s s' r r') (hl : l ≤ k) :
    Paired m l s s' r r' := by
  cases h with
  | ok h => exact .ok (h.weaken hl)
  | error h => exact .error h
  | parted hm h => exact .parted hm h

/-- A paired step after one that records nothing. -/
lemma bind {p p' : Parse α} {f f' : α → Parse β} (hp : Paired .quiet k s s' (p s) (p' s'))
    (hf : ∀ a t t', Tracks .quiet k s s' t t' → Paired m l t t' (f a t) (f' a t')) :
    Paired m (k + l) s s' ((p >>= f) s) ((p' >>= f') s') := by
  generalize hr : p s = r at hp
  generalize hr' : p' s' = r' at hp
  cases hp with
  | ok h =>
    rw [bind_ok hr, bind_ok hr']
    exact after_tracks h (hf _ _ _ h)
  | error h =>
    rw [bind_error hr, bind_error hr']
    exact .error h.of_quiet
  | parted hm => cases hm

/-- A paired step after any other. What follows a parting only adds errors. -/
lemma bind_any {p p' : Parse α} {f f' : α → Parse β} (hp : Paired m k s s' (p s) (p' s'))
    (hgrow : ∀ a, Grows (f' a))
    (hf : ∀ a t t', Tracks m k s s' t t' → Paired m l t t' (f a t) (f' a t')) :
    Paired m (k + l) s s' ((p >>= f) s) ((p' >>= f') s') := by
  generalize hr : p s = r at hp
  generalize hr' : p' s' = r' at hp
  cases hp with
  | @ok a t t' h =>
    rw [bind_ok hr, bind_ok hr']
    have hq := hf a t t' h
    generalize f a t = q at hq
    generalize f' a t' = q' at hq
    cases hq with
    | ok h' => exact .ok (h.trans h')
    | error h' => exact .error ((h.trans h').weaken (Nat.zero_le _))
    | parted hm h' =>
      obtain ⟨ts, ts', es, cs, -, hmoves, -, -, he⟩ := h
      obtain rfl := he.resolve_left (by rw [hm]; decide)
      obtain ⟨fs, hfs⟩ := h'
      exact .parted hm ⟨fs, by simpa [hmoves.errors] using hfs⟩
  | error h =>
    rw [bind_error hr, bind_error hr']
    exact .error h
  | @parted e t r' hm h =>
    rw [bind_error hr]
    refine .parted hm ?_
    obtain ⟨es, hes⟩ := h
    cases r' with
    | ok a u =>
      rw [bind_ok hr']
      obtain ⟨fs, hfs⟩ := (hgrow a).run u
      exact ⟨es ++ fs, by rw [hfs, show u.errors = _ from hes]; simp⟩
    | error e u =>
      rw [bind_error hr']
      exact ⟨es, hes⟩

end Paired

namespace Starts

variable {p p' : Parse α} {f f' : α → Parse β}

lemma bind (hp : Starts .quiet p p') (hf : ∀ a, Goes m (f a) (f' a)) :
    Starts m (p >>= f) (p' >>= f') := ⟨fun s s' h =>
  (hp.run s s' h).bind fun a _ _ ht => (hf a).run _ _ (ht.abreast_of_near h)⟩

lemma of_quiet (hp : Starts .quiet p p') : Starts m p p' :=
  ⟨fun s s' h => (hp.run s s' h).of_quiet⟩

/-- A step that starts a reading may also continue one. -/
lemma goes (hp : Starts m p p') : Goes m p p' :=
  ⟨fun s s' h => (hp.run s s' h.near).weaken (Nat.zero_le _)⟩

end Starts

namespace Goes

variable {p p' : Parse α} {f f' : α → Parse β}

lemma bind (hp : Goes .quiet p p') (hf : ∀ a, Goes m (f a) (f' a)) :
    Goes m (p >>= f) (p' >>= f') := ⟨fun s s' h =>
  (hp.run s s' h).bind fun a _ _ ht => (hf a).run _ _ (ht.abreast h)⟩

lemma bind_any (hp : Goes m p p') (hgrow : ∀ a, Grows (f' a))
    (hf : ∀ a, Goes m (f a) (f' a)) : Goes m (p >>= f) (p' >>= f') := ⟨fun s s' h =>
  (hp.run s s' h).bind_any hgrow fun a _ _ ht => (hf a).run _ _ (ht.abreast h)⟩

lemma of_quiet (hp : Goes .quiet p p') : Goes m p p' :=
  ⟨fun s s' h => (hp.run s s' h).of_quiet⟩

/-- What a step does whose run never parts from another's. -/
lemma moves (hp : Goes m p p') (hm : m ≠ .parting) (s : Parser) :
    ∃ ts es cs, Moves s (after (p' s)) ts es cs ∧ (m = .recovering ∨ es = []) := by
  have h := hp.run s s (.refl s)
  generalize p s = r at h
  generalize p' s = r' at h ⊢
  cases h with
  | ok h | error h =>
    obtain ⟨ts, ts', es, cs, -, h, -, -, he⟩ := h
    exact ⟨ts', es, cs, h, he⟩
  | parted h => exact absurd h hm

/-- A step whose run never parts from another's only adds errors. -/
lemma grows (hp : Goes m p p') (hm : m ≠ .parting) : Grows p' := ⟨fun s =>
  let ⟨_, es, _, h, _⟩ := hp.moves hm s
  ⟨es, h.errors⟩⟩

/-- A step that records nothing only adds errors. -/
lemma grows_of_quiet (hp : Goes .quiet p p') : Grows p' := hp.grows (by decide)

/-- A step that records nothing leaves the errors as they are. -/
lemma errors_after (hp : Goes .quiet p p') (s : Parser) : (after (p' s)).errors = s.errors := by
  obtain ⟨ts, es, cs, h, he⟩ := hp.moves (by decide) s
  obtain rfl := he.resolve_left (by decide)
  exact h.errors.trans (List.append_nil _)

end Goes

/-! ### Single actions -/

/-- Passing over the first token brings the readers abreast. -/
lemma Near.step (h : Near s s') (hr : s.rest ≠ []) : Tracks .quiet 1 s s' s.step s'.step := by
  rcases h.cases with ⟨hs, -⟩ | ⟨t, b, ts, hs, hs'⟩
  · exact absurd hs hr
  · exact ⟨_, _, _, _, .step hs, .step hs', rfl, Nat.le_refl _, .inr rfl⟩

lemma Abreast.step (h : Abreast s s') : Tracks .quiet 0 s s' s.step s'.step := by
  cases hs : s.rest with
  | nil =>
    have hs' := h.rest.trans hs
    simp only [Parser.step, hs, hs']
    exact .refl ..
  | cons t ts => exact (h.near.step (by simp [hs])).weaken (Nat.zero_le _)

/-- A token of a kind other than the end mark stands ahead. -/
lemma Parser.rest_ne_nil (h : s.current.kind ≠ .eof) : s.rest ≠ [] := by
  intro hs
  apply h
  simp only [Parser.current, hs, Parser.eof]
  split <;> rfl

/-- Passing over a first token that is there. -/
lemma Near.pass {f f' : Parse β} (h : Near s s') (hne : s.rest ≠ []) (hf : Goes m f f') :
    Paired m 1 s s' (f s.step) (f' s'.step) :=
  .after_tracks (h.step hne) (hf.run _ _ ((h.step hne).abreast_of_near h))

namespace Goes

variable {p p' q q' : Parse α}

lemma pure (a : α) : Goes m (pure a : Parse α) (pure a) := ⟨fun s s' _ => .ok (.refl m s s')⟩

lemma fail (c : Cause) (r : Span) : Goes m (fail c r : Parse α) (fail c r) :=
  ⟨fun s s' _ => .error (.refl m s s')⟩

lemma fail_bind (c : Cause) (r : Span) (f f' : α → Parse β) :
    Goes m (Parse.fail c r >>= f) (Parse.fail c r >>= f') :=
  ⟨fun s s' _ => .error (.refl m s s')⟩

/-- Both runs take the same branch. -/
lemma ite {c : Prop} [Decidable c] (hp : c → Goes m p p') (hq : ¬c → Goes m q q') :
    Goes m (if c then p else q) (if c then p' else q') := by
  by_cases hc : c
  · simpa only [hc, if_true] using hp hc
  · simpa only [hc, if_false] using hq hc

/-- Both runs look at their states before they go on. -/
lemma get_bind {f f' : Parser → Parse β}
    (h : ∀ s s', Abreast s s' → Paired m 0 s s' (f s s) (f' s' s')) :
    Goes m (get >>= f) (get >>= f') := ⟨fun s s' hs => h s s' hs⟩

lemma current : Goes m current current := by
  refine ⟨fun s s' h => ?_⟩
  have h1 : Parse.current s = .ok s.current s := rfl
  have h2 : Parse.current s' = .ok s.current s' := by rw [← h.current]; rfl
  rw [h1, h2]
  exact .ok (.refl m s s')

lemma tokensLeft : Goes m tokensLeft tokensLeft := by
  refine ⟨fun s s' h => ?_⟩
  have h1 : Parse.tokensLeft s = .ok s.rest.length s := rfl
  have h2 : Parse.tokensLeft s' = .ok s.rest.length s' := by rw [← h.rest]; rfl
  rw [h1, h2]
  exact .ok (.refl m s s')

lemma advance : Goes .quiet advance advance := by
  refine ⟨fun s s' h => ?_⟩
  have h1 : Parse.advance s = .ok s.current s.step := rfl
  have h2 : Parse.advance s' = .ok s.current s'.step := by rw [← h.current]; rfl
  rw [h1, h2]
  exact .ok h.step

lemma discard_bind {f f' : PUnit → Parse β} (hp : Goes .quiet p p')
    (hf : Goes m (f ⟨⟩) (f' ⟨⟩)) : Goes m (discard p >>= f) (discard p' >>= f') := by
  rw [Parse.discard_bind, Parse.discard_bind]
  exact hp.bind fun _ => hf

lemma discard (hp : Goes .quiet p p') : Goes .quiet (discard p) (discard p') := by
  rw [← bind_pure (Functor.discard p), ← bind_pure (Functor.discard p')]
  exact hp.discard_bind (pure _)

lemma accept (kinds : List TokenKind) : Goes .quiet (accept kinds) (accept kinds) := by
  unfold Parse.accept
  rw [map_eq_bind]
  exact current.bind fun t => .ite (fun _ => advance.bind fun _ => pure _) fun _ => pure _

lemma expect (kinds : List TokenKind) : Goes .quiet (expect kinds) (expect kinds) := by
  unfold Parse.expect
  exact current.bind fun t => .ite (fun _ => advance) fun _ => .fail ..

lemma close (opener : Token) : Goes .quiet (close opener) (close opener) := by
  unfold Parse.close
  exact current.bind fun t => .ite (fun _ => advance) fun _ => .ite (fun _ => .fail ..) fun _ =>
    .fail ..

lemma leafOf (tokenKind : TokenKind) (kind : Kind) :
    Goes .quiet (leafOf tokenKind kind) (leafOf tokenKind kind) := by
  unfold Parse.leafOf
  exact (expect _).bind fun _ => pure _

lemma node (kind : Kind) (place : Place) (children : List Node) (fields : FieldTable)
    (value : Option String) :
    Goes m (node kind place children fields value) (node kind place children fields value) := by
  refine ⟨fun s s' h => ?_⟩
  rw [run_node, run_node, h.stop]
  exact .ok (.refl m s s')

end Goes

/-- A reader passes over the tokens that its partner passes over. -/
lemma Paired.rest_length {a : α} {t : Parser} {r : EStateM.Result Error Parser α}
    (h : Paired .quiet k s s' (.ok a t) r) : t.rest.length + k ≤ s.rest.length := by
  cases h with
  | ok h =>
    obtain ⟨ts, ts', es, cs, hm, -, -, hk, -⟩ := h
    rw [hm.rest, List.length_append]
    omega

lemma Goes.rest_length {a : α} {t : Parser} (h : Goes .quiet p p') (hr : p s = .ok a t) :
    t.rest.length ≤ s.rest.length := by
  have hp := h.run s s (.refl s)
  rw [hr] at hp
  exact hp.rest_length

lemma Starts.rest_length {a : α} {t : Parser} (h : Starts .quiet p p') (hr : p s = .ok a t) :
    t.rest.length < s.rest.length := by
  have hp := h.run s s (.refl s)
  rw [hr] at hp
  exact hp.rest_length

namespace Starts

/-- Looking at the token ahead before the first token is passed. -/
lemma current_bind {f f' : Token → Parse β}
    (h : ∀ t b s s', Near s s' → s.current = t →
      Paired m 1 s s' (f t s) (f' { t with spaced := b } s')) :
    Starts m (current >>= f) (current >>= f') := by
  refine ⟨fun s s' hs => ?_⟩
  obtain ⟨b, hb⟩ := hs.current
  rw [run_current, run_current, hb]
  exact h _ b s s' hs rfl

/-- Reading a token that must be there. What follows may look at anything but
the white space before it. -/
lemma expect_bind {kinds : List TokenKind} {f f' : Token → Parse β}
    (hk : kinds.contains .eof = false)
    (hf : ∀ t b, Goes m (f t) (f' { t with spaced := b })) :
    Starts m (expect kinds >>= f) (expect kinds >>= f') := by
  refine ⟨fun s s' h => ?_⟩
  obtain ⟨b, hb⟩ := h.current
  have hkind : s'.current.kind = s.current.kind := by rw [hb]
  by_cases hc : kinds.contains s.current.kind = true
  · have hne : s.rest ≠ [] := by
      apply Parser.rest_ne_nil
      intro he
      rw [he, hk] at hc
      cases hc
    rw [bind_ok (run_expect hc), bind_ok (run_expect (hkind ▸ hc)), hb]
    exact h.pass hne (hf _ b)
  · rw [bind_error (run_expect_other hc), bind_error (run_expect_other (hkind ▸ hc)), hb]
    exact .error (.refl ..)

/-- A leaf does not show the white space before its token. -/
lemma leafOf {tokenKind : TokenKind} (kind : Kind) (hk : tokenKind ≠ .eof) :
    Starts .quiet (leafOf tokenKind kind) (leafOf tokenKind kind) := by
  unfold Parse.leafOf
  exact expect_bind (by simpa using hk.symm) fun t b => .pure _

end Starts

end

end StpLang
