import StpLang.Proofs.Parse.Run

/-!
Two readers side by side.

Whether reading resumes in the middle of a text or starts from its beginning,
and whether it is strict or recovers from errors, the same tokens ahead lead to
the same moves. The definitions below say what it means for two runs to stay
together, and the lemmas carry that through sequences of steps.

* `Moves` is what a run does to the state: it passes over tokens and adds
  errors and comments.
* `Near` relates two states with the same tokens ahead, where the white space
  before the first of them does not count, and `Level` two states that have
  already passed a common token.
* `Paired` relates the outcomes of two runs. In the mode `parting` the first
  run may fail with an error that the second one records.
* `Pairs.bind` and its kin put paired steps in sequence.
-/

namespace StpLang

/-! ### What a run does to the state -/

/-- The run from `s` to `t` passes over the tokens `ts`, records the errors
`es` and sets the comments `cs` aside. -/
structure Moves (s t : Parser) (ts : List Token) (es : List Error) (cs : List Node) :
    Prop where
  rest : s.rest = ts ++ t.rest
  before : t.before = ts.reverse ++ s.before
  errors : t.errors = s.errors ++ es
  trivia : t.trivia = s.trivia ++ cs

namespace Moves

variable {s t u : Parser} {ts us : List Token} {es fs : List Error} {cs ds : List Node}

lemma refl (s : Parser) : Moves s s [] [] [] := ⟨rfl, rfl, by simp, by simp⟩

/-- One run after another. -/
lemma trans (h : Moves s t ts es cs) (h' : Moves t u us fs ds) :
    Moves s u (ts ++ us) (es ++ fs) (cs ++ ds) := by
  refine ⟨?_, ?_, ?_, ?_⟩
  · rw [h.rest, h'.rest, List.append_assoc]
  · rw [h'.before, h.before, List.reverse_append, List.append_assoc]
  · rw [h'.errors, h.errors, List.append_assoc]
  · rw [h'.trivia, h.trivia, List.append_assoc]

/-- A run that only leaves marks in the log does not move. -/
lemma of_trace (s : Parser) (trace : List Event) : Moves s { s with trace } [] [] [] :=
  ⟨rfl, rfl, by simp, by simp⟩

/-- Passing over the token ahead. -/
lemma step {t : Token} {ts : List Token} (h : s.rest = t :: ts) : Moves s s.step [t] [] [] := by
  simp only [Parser.step, h]
  exact ⟨by simp [h], rfl, by simp, by simp⟩

/-- The end mark is the same all the way. -/
lemma eof (h : Moves s t ts es cs) : t.eof = s.eof := by
  have hlast : (t.rest.getLast? <|> t.before.head?) = (s.rest.getLast? <|> s.before.head?) := by
    rw [h.rest, h.before]
    cases hr : t.rest with
    | nil => simp [List.head?_append, List.head?_reverse]
    | cons x xs => simp [List.getLast?_append, Option.or_assoc]
  unfold Parser.eof
  rw [hlast]

/-- What a run does shows in its ends. -/
lemma unique (h : Moves s t ts es cs) (h' : Moves s t us fs ds) : ts = us ∧ es = fs ∧ cs = ds := by
  refine ⟨?_, ?_, ?_⟩
  · exact List.append_cancel_right (h.rest.symm.trans h'.rest)
  · exact List.append_cancel_left (h.errors.symm.trans h'.errors)
  · exact List.append_cancel_left (h.trivia.symm.trans h'.trivia)

/-- The position grows by the number of tokens. -/
lemma position (h : Moves s t ts es cs) : t.position = s.position + ts.length := by
  simp [Parser.position, h.before, Nat.add_comm]

end Moves

/-! ### States with the same tokens ahead -/

/-- Two sequences of tokens differ at most in the white space before the
first. -/
inductive Alike : List Token → List Token → Prop
  | nil : Alike [] []
  | cons (t : Token) (spaced : Bool) (ts : List Token) :
      Alike (t :: ts) ({ t with spaced } :: ts)

lemma Alike.refl : (ts : List Token) → Alike ts ts
  | [] => .nil
  | t :: ts => by cases t; exact .cons ..

/-- The same tokens lie ahead, the white space before the first apart. -/
structure Near (s s' : Parser) : Prop where
  rest : Alike s.rest s'.rest
  eof : s'.eof = s.eof

/-- The same tokens lie ahead, and the tokens read last end at one place. -/
structure Abreast (s s' : Parser) : Prop where
  rest : s'.rest = s.rest
  eof : s'.eof = s.eof
  stop : s'.previous.stop = s.previous.stop

namespace Near

variable {s s' : Parser}

lemma refl (s : Parser) : Near s s := ⟨.refl _, rfl⟩

/-- Either nothing is ahead, or the same token up to white space. -/
lemma cases (h : Near s s') :
    (s.rest = [] ∧ s'.rest = [])
      ∨ ∃ t b ts, s.rest = t :: ts ∧ s'.rest = { t with spaced := b } :: ts := by
  have hr := h.rest
  generalize hx : s.rest = x at hr
  generalize hy : s'.rest = y at hr
  cases hr with
  | nil => exact .inl ⟨rfl, rfl⟩
  | cons t b ts => exact .inr ⟨t, b, ts, rfl, rfl⟩

/-- The tokens ahead agree up to white space. -/
lemma current (h : Near s s') : ∃ b, s'.current = { s.current with spaced := b } := by
  rcases h.cases with ⟨hs, hs'⟩ | ⟨t, b, ts, hs, hs'⟩
  · refine ⟨s.eof.spaced, ?_⟩
    simp only [Parser.current, hs, hs', h.eof]
    cases s.eof
    rfl
  · exact ⟨b, by simp only [Parser.current, hs, hs']⟩

lemma kind (h : Near s s') : s'.current.kind = s.current.kind := by
  obtain ⟨b, hb⟩ := h.current
  rw [hb]

/-- What a message says of the token ahead. -/
lemma found (h : Near s s') :
    Found.of s'.current = Found.of s.current ∧ s'.current.span = s.current.span
      ∧ s'.current.value = s.current.value := by
  obtain ⟨b, hb⟩ := h.current
  rw [hb]
  exact ⟨rfl, rfl, rfl⟩

lemma length (h : Near s s') : s'.rest.length = s.rest.length := by
  rcases h.cases with ⟨hs, hs'⟩ | ⟨t, b, ts, hs, hs'⟩ <;> simp [hs, hs']

/-- Behind the first token the same tokens are ahead. -/
lemma peek (h : Near s s') (k : Nat) : s'.peek (k + 1) = s.peek (k + 1) := by
  rcases h.cases with ⟨hs, hs'⟩ | ⟨t, b, ts, hs, hs'⟩ <;> simp [Parser.peek, hs, hs', h.eof]

end Near

namespace Abreast

variable {s s' : Parser}

lemma refl (s : Parser) : Abreast s s := ⟨rfl, rfl, rfl⟩

lemma near (h : Abreast s s') : Near s s' := ⟨h.rest ▸ .refl _, h.eof⟩

lemma current (h : Abreast s s') : s'.current = s.current := by
  simp only [Parser.current, h.rest, h.eof]

lemma peek (h : Abreast s s') (k : Nat) : s'.peek k = s.peek k := by
  simp only [Parser.peek, h.rest, h.eof]

lemma significant (h : Abreast s s') : s'.significant = s.significant := by
  simp only [Parser.significant, h.rest, h.eof]

end Abreast

/-! ### Runs that stay together -/

/-- How two runs may differ. -/
inductive Mode where
  /-- Neither run records an error. -/
  | quiet
  /-- Both runs recover from errors. -/
  | recovering
  /-- The first run is strict and the second one recovers. -/
  | parting
deriving DecidableEq

/-- The runs from `s` to `t` and from `s'` to `t'` make the same moves, over at
least `k` tokens. -/
def Tracks (m : Mode) (k : Nat) (s s' t t' : Parser) : Prop :=
  ∃ ts ts' es cs, Moves s t ts es cs ∧ Moves s' t' ts' es cs ∧ ts'.length = ts.length
    ∧ k ≤ ts.length ∧ (m = .recovering ∨ es = [])

namespace Tracks

variable {m : Mode} {k l : Nat} {s s' t t' u u' : Parser}

lemma refl (m : Mode) (s s' : Parser) : Tracks m 0 s s' s s' :=
  ⟨[], [], [], [], .refl s, .refl s', rfl, Nat.zero_le _, .inr rfl⟩

lemma trans (h : Tracks m k s s' t t') (h' : Tracks m l t t' u u') :
    Tracks m (k + l) s s' u u' := by
  obtain ⟨ts, ts', es, cs, hm, hm', hl, hk, he⟩ := h
  obtain ⟨us, us', fs, ds, hn, hn', hl', hk', he'⟩ := h'
  refine ⟨_, _, _, _, hm.trans hn, hm'.trans hn', ?_, ?_, ?_⟩
  · simp only [List.length_append, hl, hl']
  · simp only [List.length_append]; omega
  · rcases he with rfl | rfl
    · exact .inl rfl
    · exact he'.imp_right fun h => by simp [h]

/-- Runs that record nothing are runs of any mode. -/
lemma of_quiet (h : Tracks .quiet k s s' t t') : Tracks m k s s' t t' := by
  obtain ⟨ts, ts', es, cs, hm, hm', hl, hk, he⟩ := h
  exact ⟨ts, ts', es, cs, hm, hm', hl, hk, .inr (he.resolve_left (by decide))⟩

lemma weaken (h : Tracks m k s s' t t') (hl : l ≤ k) : Tracks m l s s' t t' := by
  obtain ⟨ts, ts', es, cs, hm, hm', hlen, hk, he⟩ := h
  exact ⟨ts, ts', es, cs, hm, hm', hlen, Nat.le_trans hl hk, he⟩

/-- A log entry moves nothing. -/
lemma of_trace (m : Mode) (s s' : Parser) (x x' : List Event) :
    Tracks m 0 s s' { s with trace := x } { s' with trace := x' } :=
  ⟨[], [], [], [], .of_trace s x, .of_trace s' x', rfl, Nat.zero_le _, .inr rfl⟩

/-- Behind a common token the runs are abreast. -/
lemma abreast_of_near (h : Tracks m 1 s s' t t') (hn : Near s s') : Abreast t t' := by
  obtain ⟨ts, ts', es, cs, hm, hm', hl, hk, -⟩ := h
  have heof : t'.eof = t.eof := by rw [hm.eof, hm'.eof, hn.eof]
  rcases hn.cases with ⟨hs, -⟩ | ⟨x, b, xs, hs, hs'⟩
  · have := hm.rest
    rw [hs] at this
    simp [(List.append_eq_nil_iff.mp this.symm).1] at hk
  · -- both runs pass the first token, and the tokens behind it are the same
    obtain ⟨y, ys, rfl⟩ := List.exists_cons_of_length_pos (show 0 < ts.length from hk)
    obtain ⟨y', ys', rfl⟩ := List.exists_cons_of_length_pos (show 0 < ts'.length by omega)
    have h1 := hm.rest
    have h2 := hm'.rest
    rw [hs, List.cons_append, List.cons.injEq] at h1
    rw [hs', List.cons_append, List.cons.injEq] at h2
    obtain ⟨rfl, h1⟩ := h1
    obtain ⟨rfl, h2⟩ := h2
    have hlen : ys'.length = ys.length := by simpa using hl
    obtain ⟨rfl, hrest⟩ := List.append_inj (h2.symm.trans h1) hlen
    refine ⟨hrest, heof, ?_⟩
    simp only [Parser.previous, hm.before, hm'.before, List.reverse_cons, List.append_assoc]
    cases ys'.reverse <;> simp

/-- Readers before the same tokens stay so. -/
lemma near (h : Tracks m k s s' t t') (hn : Near s s') : Near t t' := by
  obtain ⟨ts, ts', es, cs, hm, hm', hl, -, he⟩ := id h
  cases ts with
  | nil =>
    obtain rfl : ts' = [] := by simpa using hl
    have h1 := hm.rest
    have h2 := hm'.rest
    simp only [List.nil_append] at h1 h2
    exact ⟨h1 ▸ h2 ▸ hn.rest, by rw [hm.eof, hm'.eof, hn.eof]⟩
  | cons x xs =>
    exact (abreast_of_near ⟨_, ts', es, cs, hm, hm', hl, by simp, he⟩ hn).near

/-- Runs that are abreast stay abreast. -/
lemma abreast (h : Tracks m k s s' t t') (ha : Abreast s s') : Abreast t t' := by
  rcases Nat.eq_zero_or_pos k with rfl | hk
  · obtain ⟨ts, ts', es, cs, hm, hm', hl, -, he⟩ := id h
    cases ts with
    | nil =>
      obtain rfl : ts' = [] := by simpa using hl
      have h1 := hm.rest
      have h2 := hm'.rest
      simp only [List.nil_append] at h1 h2
      refine ⟨by rw [← h1, ← h2, ha.rest], by rw [hm.eof, hm'.eof, ha.eof], ?_⟩
      have hb : t.before = s.before := by simpa using hm.before
      have hb' : t'.before = s'.before := by simpa using hm'.before
      have hstop := ha.stop
      have heof := hm.eof
      have heof' := hm'.eof
      simp only [Parser.previous, Parser.current, ← h1, ← h2, hb, hb', heof, heof']
      simpa only [Parser.previous, Parser.current] using hstop
    | cons x xs =>
      exact abreast_of_near ⟨_, ts', es, cs, hm, hm', hl, by simp, he⟩ ha.near
  · exact abreast_of_near (h.weaken hk) ha.near

end Tracks

end StpLang
