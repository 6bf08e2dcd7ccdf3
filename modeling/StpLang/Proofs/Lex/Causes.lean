import StpLang.Proofs.Lex.Whole

/-!
What is wrong when a text cannot be cut into tokens.

* `Raises` says that a step fails for certain causes only.
* `Cause.isLexical` lists the causes of the lexer.
* `isLexical_of_fault` is the result: the lexer stops for no other cause.
-/

namespace StpLang

open Lexer

/-- The step fails for causes of a class only. -/
structure Raises {σ α : Type} (P : Cause → Bool) (f : EStateM Error σ α) : Prop where
  cause : ∀ {s e t}, f s = .error e t → P e.cause = true

/-- The causes for which the lexer fails. Reading past the end is none of them. -/
def Cause.isLexical : Cause → Bool
  | .unexpectedChar _ | .unterminatedString | .unclosedSnippet | .strayClose
  | .groupOpenAtClose _ | .snippetsTooDeep _ | .shortUnicodeEscape | .shortOctalEscape
  | .unknownEscape _ => true
  | _ => false

namespace Raises

variable {σ α β : Type} {P : Cause → Bool} {f g : EStateM Error σ α} {k : α → EStateM Error σ β}

lemma pure (a : α) : Raises P (pure a : EStateM Error σ α) := ⟨fun h => by cases h⟩

lemma throw {e : Error} (h : P e.cause = true) : Raises P (throw e : EStateM Error σ α) :=
  ⟨fun he => by cases he; exact h⟩

lemma bind (hf : Raises P f) (hk : ∀ a, Raises P (k a)) : Raises P (f >>= k) := by
  refine ⟨fun {s e t} h => ?_⟩
  cases hr : f s with
  | ok a u =>
    rw [bind_ok hr] at h
    exact (hk a).cause h
  | error e' u =>
    rw [bind_error hr] at h
    cases h
    exact hf.cause hr

lemma ite {c : Prop} [Decidable c] (hf : c → Raises P f) (hg : ¬c → Raises P g) :
    Raises P (if c then f else g) := by
  split
  · exact hf ‹c›
  · exact hg ‹¬c›

/-- A step that never fails. -/
lemma total (h : ∀ s, ∃ a t, f s = .ok a t) : Raises P f := by
  refine ⟨fun {s e t} he => ?_⟩
  obtain ⟨a, u, hok⟩ := h s
  cases hok.symm.trans he

end Raises

section

variable {α : Type} {snippet : Lex (List Token)}

/-- A step of the lexer fails for causes of the lexer. -/
abbrev LexRaises (f : Lex α) : Prop := Raises Cause.isLexical f

/-! ### Single steps -/

lemma raises_cursorHere : LexRaises cursorHere := .total fun _ => ⟨_, _, rfl⟩

lemma raises_skip (n : Nat) : LexRaises (skip n) := .total fun _ => ⟨_, _, rfl⟩

lemma raises_emit (kind : TokenKind) (value : String) (c : Cursor)
    (segments : List (Segment Token)) : LexRaises (emit kind value c segments) :=
  .total fun _ => ⟨_, _, rfl⟩

lemma raises_segment (form : SegmentForm Token) (c : Cursor) : LexRaises (segment form c) :=
  .total fun _ => ⟨_, _, rfl⟩

lemma raises_operator (c : Char) : LexRaises (operator c) := by
  have hmatch : LexRaises matchOperator := by
    refine raises_cursorHere.bind fun d => ?_
    cases Scan.operator? d.rest with
    | none => exact .pure _
    | some op => exact (raises_skip _).bind fun _ => .total fun _ => ⟨_, _, rfl⟩
  refine hmatch.bind fun t => ?_
  cases t with
  | none => exact raises_cursorHere.bind fun _ => .throw rfl
  | some t => exact .total fun _ => ⟨_, _, rfl⟩

/-! ### Strings -/

lemma raises_escapeForm (h : LexRaises snippet) (c : Cursor) (x : Char) :
    LexRaises (escapeForm snippet c x) := by
  refine .ite (fun _ => .total fun _ => ⟨_, _, rfl⟩) fun _ => .ite (fun _ => ?_) fun _ =>
    .ite (fun _ => ?_) fun _ =>
      .ite (fun _ => (raises_skip 1).bind fun _ => h.bind fun _ => .pure _) fun _ =>
        .ite (fun _ => .throw rfl) fun _ => .throw rfl
  · refine (raises_skip 1).bind fun _ => raises_cursorHere.bind fun d => ?_
    dsimp only
    cases Scan.escapeDigits? (Scan.hexLength d.rest) with
    | none => exact .throw rfl
    | some n => exact .total fun _ => ⟨_, _, rfl⟩
  · exact raises_cursorHere.bind fun _ => (raises_skip _).bind fun _ => .ite (fun _ => .pure _)
      fun _ => raises_cursorHere.bind fun _ => .throw rfl

lemma raises_escape (h : LexRaises snippet) : LexRaises (escape snippet) := by
  refine raises_cursorHere.bind fun c => (raises_skip 1).bind fun _ =>
    raises_cursorHere.bind fun d => ?_
  cases d.rest with
  | nil => exact .throw rfl
  | cons x k => exact (raises_escapeForm h c x).bind fun _ => raises_segment ..

lemma raises_stringSegments (h : LexRaises snippet) (bound : Nat) :
    LexRaises (stringSegments snippet bound) := by
  induction bound with
  | zero => exact raises_cursorHere.bind fun _ => .throw rfl
  | succ bound ih =>
    refine raises_cursorHere.bind fun c => ?_
    split
    · exact .throw rfl
    · exact .total fun _ => ⟨_, _, rfl⟩
    · exact (raises_escape h).bind fun _ => ih.bind fun _ => .pure _
    · exact (Raises.total fun _ => ⟨_, _, rfl⟩).bind fun _ => ih.bind fun _ => .pure _

/-! ### Tokens and snippets -/

lemma raises_snippetClose (inSnippet : Bool) : LexRaises (snippetClose inSnippet) := by
  refine (Raises.total fun s => ⟨s, s, rfl⟩).bind fun s => ?_
  dsimp only
  cases s.groups with
  | nil =>
    exact .ite (fun _ => (Raises.throw rfl).bind fun _ => .total fun _ => ⟨_, _, rfl⟩)
      fun _ => .total fun _ => ⟨_, _, rfl⟩
  | cons g gs =>
    exact .ite (fun _ => (Raises.throw rfl).bind fun _ => .throw rfl) fun _ => .throw rfl

lemma raises_nextToken (inSnippet : Bool) (h : LexRaises snippet) :
    LexRaises (nextToken inSnippet snippet) := by
  refine (Raises.total fun _ => ⟨_, _, rfl⟩).bind fun _ => raises_cursorHere.bind fun c => ?_
  cases Scan.Opening.of c.rest with
  | nothing =>
    exact raises_cursorHere.bind fun _ => .ite (fun _ => .throw rfl) fun _ => raises_emit ..
  | snippetClose => exact raises_snippetClose inSnippet
  | quote =>
    exact raises_cursorHere.bind fun _ => (raises_skip 1).bind fun _ =>
      (raises_stringSegments h _).bind fun _ => .total fun _ => ⟨_, _, rfl⟩
  | symbol x => exact raises_operator x
  | _ => exact .total fun _ => ⟨_, _, rfl⟩

lemma raises_snippetTokens {next : Lex Token} (h : LexRaises next) (bound : Nat) :
    LexRaises (snippetTokens next bound) := by
  induction bound with
  | zero => exact h.bind fun _ => .pure _
  | succ bound ih =>
    exact h.bind fun _ => .ite (fun _ => .pure _) fun _ => ih.bind fun _ => .pure _

lemma raises_within {inner : Lex α} (h : LexRaises inner) : LexRaises (within inner) := by
  refine ⟨fun {s e t} he => ?_⟩
  unfold within at he
  cases hr : inner { cursor := s.cursor, trace := s.trace } with
  | ok a u =>
    rw [hr] at he
    cases he
  | error e' u =>
    rw [hr] at he
    cases he
    exact h.cause hr

lemma raises_readSnippet (limit : Int) (allowance : Nat) :
    LexRaises (readSnippet limit allowance) := by
  induction allowance with
  | zero => exact ⟨fun h => by cases h; rfl⟩
  | succ a ih =>
    refine ⟨fun {s e t} h => ?_⟩
    rw [run_readSnippet] at h
    exact (raises_within (raises_snippetTokens (raises_nextToken true ih) _)).cause h

end

/-! ### Whole texts -/

/-- The lexer stops for a cause of its own. -/
lemma isLexical_of_fault {limit : Int} {c : Cursor} {fault : LexFault}
    (h : (Lexed.run limit c).fault = some fault) : fault.error.cause.isLexical = true := by
  rw [run_eq_lexFrom] at h
  refine lexFrom_induction (P := fun _ l => l.fault = some fault →
    fault.error.cause.isLexical = true) ?_ ?_ ?_ _ h
  · intro s e t hs hf
    rw [lexFrom_error hs] at hf
    cases hf
    exact (raises_nextToken false (raises_readSnippet limit _)).cause hs
  · intro s u t hs hu hf
    rw [lexFrom_eof hs hu] at hf
    cases hf
  · exact fun s u t _ _ ih hf => ih hf

end StpLang
