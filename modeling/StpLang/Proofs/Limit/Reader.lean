import StpLang.Proofs.Lex.Whole

/-!
Reading under a greater limit.

Where a run does not meet the limit on nesting, a run under a greater limit does
the same. A run meets the limit when it ends with an error about nesting or
records one, and what is recorded stays.

* `Meets` says that an outcome shows the limit.
* `Widens` relates a step to the same step under a greater limit; `Widens.bind` and
  its kin put such steps in sequence.
* `widens_nextToken` and `widens_readSnippet` follow the lexer.
* `run_of_limit_le` is the result for whole texts.
-/

namespace StpLang

open Lexer

/-! ### Steps under two limits -/

/-- A state records an error about nesting. -/
def Records {σ : Type} (log : σ → List Error) (s : σ) : Prop :=
  ∃ e ∈ log s, e.category = .nesting

/-- An outcome shows the limit on nesting: in the error that ends the run or among
the errors recorded. -/
inductive Meets {σ α : Type} (log : σ → List Error) : EStateM.Result Error σ α → Prop
  | error {e : Error} {t : σ} (h : e.category = .nesting) : Meets log (.error e t)
  | failed {e : Error} {t : σ} (h : Records log t) : Meets log (.error e t)
  | ok {a : α} {t : σ} (h : Records log t) : Meets log (.ok a t)

/-- The step `f'` does what `f` does, unless `f` meets the limit; and `f` forgets
no error about nesting. -/
structure Widens {σ α : Type} (log : σ → List Error) (f f' : EStateM Error σ α) : Prop where
  keeps : ∀ {s}, Records log s → Meets log (f s)
  run : ∀ s, Meets log (f s) ∨ f' s = f s

namespace Widens

variable {σ α β : Type} {log : σ → List Error} {f f' g g' : EStateM Error σ α}
  {k k' : α → EStateM Error σ β}

/-- A step that forgets nothing and minds no limit. -/
lemma refl (h : ∀ {s}, Records log s → Meets log (f s)) : Widens log f f :=
  ⟨h, fun _ => .inr rfl⟩

lemma pure (a : α) : Widens log (pure a) (pure a) := .refl fun h => .ok h

lemma throw (e : Error) : Widens log (throw e : EStateM Error σ α) (throw e) :=
  .refl fun h => .failed h

/-- Where the limit is met, the other step may do anything. -/
lemma exceeded (h : ∀ s, Meets log (f s)) : Widens log f f' :=
  ⟨fun {s} _ => h s, fun s => .inl (h s)⟩

lemma bind (hf : Widens log f f') (hk : ∀ a, Widens log (k a) (k' a)) :
    Widens log (f >>= k) (f' >>= k') := by
  have hmeets {s : σ} (h : Meets log (f s)) : Meets log ((f >>= k) s) := by
    cases hr : f s with
    | ok a t =>
      rw [hr] at h
      cases h with
      | ok h =>
        rw [bind_ok hr]
        exact (hk a).keeps h
    | error e t =>
      rw [hr] at h
      rw [bind_error hr]
      cases h with
      | error h => exact .error h
      | failed h => exact .failed h
  refine ⟨fun h => hmeets (hf.keeps h), fun s => ?_⟩
  rcases hf.run s with h | h
  · exact .inl (hmeets h)
  · cases hr : f s with
    | ok a t =>
      rw [bind_ok hr, bind_ok (h.trans hr)]
      exact (hk a).run t
    | error e t =>
      rw [bind_error hr, bind_error (h.trans hr)]
      exact .inr rfl

lemma ite {c : Prop} [Decidable c] (hf : c → Widens log f f') (hg : ¬c → Widens log g g') :
    Widens log (if c then f else g) (if c then f' else g') := by
  split
  · exact hf ‹c›
  · exact hg ‹¬c›

end Widens

/-! ### The lexer -/

section

variable {α : Type} {limit limit' : Int} {snippet snippet' : Lex (List Token)}

/-- A step of the lexer, which records no error. -/
abbrev LexWidens (f f' : Lex α) : Prop := Widens (fun _ => []) f f'

/-- The lexer records nothing. -/
lemma not_records {s : Lexer} : ¬Records (fun _ => []) s := by
  rintro ⟨e, he, -⟩
  exact List.not_mem_nil he

/-- A step of the lexer that minds no limit. -/
lemma Widens.unlimited (f : Lex α) : LexWidens f f := .refl fun h => absurd h not_records

/-- The lexer meets the limit only by ending with it. -/
lemma LexWidens.run_error {f f' : Lex α} (h : LexWidens f f') (s : Lexer) :
    (∃ e t, f s = .error e t ∧ e.category = .nesting) ∨ f' s = f s := by
  refine (h.run s).imp_left fun hm => ?_
  cases hr : f s with
  | ok a t =>
    rw [hr] at hm
    cases hm with
    | ok h => exact absurd h not_records
  | error e t =>
    rw [hr] at hm
    cases hm with
    | error he => exact ⟨e, t, rfl, he⟩
    | failed h => exact absurd h not_records

lemma widens_escapeForm (h : LexWidens snippet snippet') (c : Cursor) (x : Char) :
    LexWidens (escapeForm snippet c x) (escapeForm snippet' c x) := by
  refine .ite (fun _ => .unlimited _) fun _ => .ite (fun _ => .unlimited _) fun _ =>
    .ite (fun _ => .unlimited _) fun _ => .ite (fun _ => ?_) fun _ => .unlimited _
  exact (Widens.unlimited _).bind fun _ => h.bind fun _ => .pure _

lemma widens_escape (h : LexWidens snippet snippet') :
    LexWidens (escape snippet) (escape snippet') := by
  refine (Widens.unlimited _).bind fun c => (Widens.unlimited _).bind fun _ =>
    (Widens.unlimited _).bind fun d => ?_
  cases d.rest with
  | nil => exact .throw _
  | cons x k => exact (widens_escapeForm h c x).bind fun _ => .unlimited _

lemma widens_stringSegments (h : LexWidens snippet snippet') (bound : Nat) :
    LexWidens (stringSegments snippet bound) (stringSegments snippet' bound) := by
  induction bound with
  | zero => exact .unlimited _
  | succ bound ih =>
    refine (Widens.unlimited _).bind fun c => ?_
    split
    · exact .throw _
    · exact .unlimited _
    · exact (widens_escape h).bind fun _ => ih.bind fun _ => .pure _
    · exact (Widens.unlimited _).bind fun _ => ih.bind fun _ => .pure _

/-- Snippets occur in strings only. -/
lemma widens_nextToken (inSnippet : Bool) (h : LexWidens snippet snippet') :
    LexWidens (nextToken inSnippet snippet) (nextToken inSnippet snippet') := by
  refine (Widens.unlimited _).bind fun _ => (Widens.unlimited _).bind fun c => ?_
  cases Scan.Opening.of c.rest with
  | quote =>
    exact (Widens.unlimited _).bind fun _ => (Widens.unlimited _).bind fun _ =>
      (widens_stringSegments h _).bind fun _ => .unlimited _
  | _ => exact .unlimited _

lemma widens_snippetTokens {next next' : Lex Token} (h : LexWidens next next') (bound : Nat) :
    LexWidens (snippetTokens next bound) (snippetTokens next' bound) := by
  induction bound with
  | zero => exact h.bind fun _ => .pure _
  | succ bound ih =>
    exact h.bind fun _ => .ite (fun _ => .pure _) fun _ => ih.bind fun _ => .pure _

lemma widens_within {inner inner' : Lex α} (h : LexWidens inner inner') :
    LexWidens (within inner) (within inner') := by
  refine ⟨fun h => absurd h not_records, fun s => ?_⟩
  unfold within
  rcases h.run_error { cursor := s.cursor, trace := s.trace } with ⟨e, t, hr, he⟩ | hr
  · rw [hr]
    exact .inl (.error he)
  · rw [hr]
    exact .inr rfl

/-- The snippets around a place are counted from the outermost, so that two limits
count alike when they leave the same number of snippets behind. -/
lemma widens_readSnippet {a a' : Nat} (ha : a ≤ a') (h : limit - a = limit' - a') :
    LexWidens (readSnippet limit a) (readSnippet limit' a') := by
  induction a generalizing a' with
  | zero => exact .exceeded fun _ => .error rfl
  | succ a ih =>
    obtain ⟨a', rfl⟩ : ∃ b, a' = b + 1 := ⟨a' - 1, by omega⟩
    have hdepth : limit - a = limit' - a' := by omega
    have hinner (n : Nat) := widens_within
      (widens_snippetTokens (widens_nextToken true (ih (by omega) hdepth)) n)
    refine ⟨fun h => absurd h not_records, fun s => ?_⟩
    rw [run_readSnippet, run_readSnippet, hdepth]
    exact (hinner _).run _

lemma widens_textToken (h : limit ≤ limit') :
    LexWidens (textToken limit) (textToken limit') := by
  refine widens_nextToken false ?_
  by_cases hzero : limit.toNat = 0
  · rw [hzero]
    exact .exceeded fun _ => .error rfl
  · exact widens_readSnippet (by omega) (by omega)

/-! ### Whole texts -/

/-- Cutting a text into tokens ends with the same tokens and the same fault under a
greater limit, unless the fault concerns the limit. -/
lemma run_of_limit_le (h : limit ≤ limit') (c : Cursor) :
    (∃ fault, (Lexed.run limit c).fault = some fault ∧ fault.error.category = .nesting)
      ∨ Lexed.run limit' c = Lexed.run limit c := by
  have hnext := widens_textToken h
  rw [run_eq_lexFrom, run_eq_lexFrom]
  refine lexFrom_induction (P := fun s l =>
    (∃ fault, l.fault = some fault ∧ fault.error.category = .nesting) ∨ lexFrom limit' s = l)
    ?_ ?_ ?_ _
  · intro s e t hs
    rw [lexFrom_error hs]
    rcases hnext.run_error s with ⟨e', t', hr, he⟩ | hr
    · obtain ⟨rfl, -⟩ := EStateM.Result.error.inj (hs.symm.trans hr)
      exact .inl ⟨_, rfl, he⟩
    · exact .inr (lexFrom_error (hr.trans hs))
  · intro s u t hs hu
    rcases hnext.run_error s with ⟨e', t', hr, -⟩ | hr
    · cases hs.symm.trans hr
    · rw [lexFrom_eof hs hu]
      exact .inr (lexFrom_eof (hr.trans hs) hu)
  · intro s u t hs hu ih
    rcases hnext.run_error s with ⟨e', t', hr, -⟩ | hr
    · cases hs.symm.trans hr
    · refine ih.imp_right fun heq => ?_
      rw [lexFrom_cons (hr.trans hs) hu, heq]

end

end StpLang
