import StpLang.Proofs.Lex.Placed
import StpLang.Proofs.Lex.Reader
import StpLang.Token.Lexed

/-!
Cutting a whole text.

* `runFrom_eq` shows that the count of tokens never runs out.
* `placed_run`: the tokens of a text lie where they say.
-/

namespace StpLang

open Lexer

/-- Reads a token of a text, where at most `limit` snippets may surround a
place. -/
abbrev textToken (limit : Int) : Lex Token := nextToken false (readSnippet limit limit.toNat)

/-- The snippets of a text where at most `limit` of them may surround a place. -/
abbrev TextSnippet (limit : Int) : SnippetRel := SnippetAt limit.toNat

section

variable {limit : Int} {s t : Lexer} {u : Token}

lemma textToken_inv (h : textToken limit s = .ok u t) : Next (TextSnippet limit) false s u t :=
  nextToken_inv (readsSnippets limit limit.toNat) h

/-- A token other than the end mark leaves less of the text ahead. -/
lemma textToken_lt (h : textToken limit s = .ok u t) (hu : u.kind ≠ .eof) :
    t.cursor.rest.length < s.cursor.rest.length := by
  cases textToken_inv h with
  | token hcut => exact (hcut.before (SnippetAt.moves _)).rest_lt
  | text _ _ _ h => exact absurd (by rw [h]; rfl) hu
  | snippet h => cases h

/-- The count of tokens never runs out. -/
lemma runFrom_eq {bound bound' : Nat} (hb : s.cursor.rest.length ≤ bound)
    (hb' : s.cursor.rest.length ≤ bound') :
    Lexed.runFrom (textToken limit) bound s = Lexed.runFrom (textToken limit) bound' s := by
  induction bound generalizing bound' s with
  | zero =>
    unfold Lexed.runFrom
    cases h : textToken limit s with
    | error e t => rfl
    | ok u t =>
      dsimp only
      split
      · rfl
      · rename_i hu
        have := textToken_lt h (by simpa using hu)
        omega
  | succ bound ih =>
    unfold Lexed.runFrom
    cases h : textToken limit s with
    | error e t => rfl
    | ok u t =>
      dsimp only
      split
      · rfl
      · rename_i hu
        have hlt := textToken_lt h (by simpa using hu)
        cases bound' with
        | zero => omega
        | succ bound' => exact congrArg (Lexed.cons u) (ih (by omega) (by omega))

/-- Cuts what is ahead of a lexer. -/
def lexFrom (limit : Int) (s : Lexer) : Lexed :=
  Lexed.runFrom (textToken limit) s.cursor.rest.length s

lemma run_eq_lexFrom (limit : Int) (c : Cursor) :
    Lexed.run limit c = lexFrom limit { cursor := c } := rfl

lemma lexFrom_error {e : Error} (h : textToken limit s = .error e t) :
    lexFrom limit s
      = { tokens := [.eofAt s.cursor.line s.cursor.col s.cursor.pos]
          fault := some ⟨e, s.cursor⟩
          trace := t.trace } := by
  unfold lexFrom Lexed.runFrom
  rw [h]

lemma lexFrom_eof (h : textToken limit s = .ok u t) (hu : u.kind = .eof) :
    lexFrom limit s = { tokens := [u], trace := t.trace } := by
  unfold lexFrom Lexed.runFrom
  rw [h]
  simp [hu]

lemma lexFrom_cons (h : textToken limit s = .ok u t) (hu : u.kind ≠ .eof) :
    lexFrom limit s = (lexFrom limit t).cons u := by
  have hlt := textToken_lt h hu
  unfold lexFrom
  obtain ⟨n, hn⟩ : ∃ n, s.cursor.rest.length = n + 1 := ⟨s.cursor.rest.length - 1, by omega⟩
  have heq : Lexed.runFrom (textToken limit) t.cursor.rest.length t
      = Lexed.runFrom (textToken limit) n t := runFrom_eq (Nat.le_refl _) (by omega)
  rw [hn, Lexed.runFrom, h, heq]
  simp [hu]

/-- The tokens ahead of a lexer come one by one. -/
lemma lexFrom_induction {P : Lexer → Lexed → Prop}
    (herror : ∀ s e t, textToken limit s = .error e t → P s (lexFrom limit s))
    (heof : ∀ s u t, textToken limit s = .ok u t → u.kind = .eof → P s (lexFrom limit s))
    (hcons : ∀ s u t, textToken limit s = .ok u t → u.kind ≠ .eof → P t (lexFrom limit t) →
      P s ((lexFrom limit t).cons u)) (s : Lexer) : P s (lexFrom limit s) := by
  induction hlen : s.cursor.rest.length using Nat.strongRecOn generalizing s with
  | _ k ih =>
    cases h : textToken limit s with
    | error e t => exact herror s e t h
    | ok u t =>
      by_cases hu : u.kind = .eof
      · exact heof s u t h hu
      · rw [lexFrom_cons h hu]
        exact hcons s u t h hu (ih _ (hlen ▸ textToken_lt h hu) t rfl)

/-- The tokens of a text lie where they say. -/
lemma placed_lexFrom (limit : Int) (s : Lexer) :
    ∀ t ∈ (lexFrom limit s).tokens,
      t.Placed s.cursor.pos (s.cursor.pos + s.cursor.rest.length) := by
  refine lexFrom_induction (P := fun s l => ∀ t ∈ l.tokens,
    t.Placed s.cursor.pos (s.cursor.pos + s.cursor.rest.length)) ?_ ?_ ?_ s
  · intro s e t h
    rw [lexFrom_error h, List.forall_mem_singleton]
    exact placed_eof rfl rfl rfl (Nat.le_refl _) (Nat.le_add_right _ _)
  · intro s u t h hu
    rw [lexFrom_eof h hu, List.forall_mem_singleton]
    cases textToken_inv h with
    | token hcut =>
      obtain ⟨hl⟩ := hcut
      exact absurd hu hl.plain.1
    | text _ hrest hcur hu =>
      have hgap := ahead_gap false s.groups s.cursor
      have hlen := hgap.length_eq
      subst hu
      refine placed_eof rfl rfl rfl ?_ ?_
      · show _ ≤ t.cursor.pos
        rw [hcur]
        exact hgap.pos_le
      · show t.cursor.pos ≤ _
        rw [hcur]
        exact hlen ▸ Nat.le_add_right _ _
    | snippet h => cases h
  · intro s u t h hu ih
    cases textToken_inv h with
    | token hcut =>
      have hb := hcut.before (SnippetAt.moves _)
      have hlen := hb.ahead.length_eq
      refine List.forall_mem_cons.mpr ⟨?_, fun v hv => ?_⟩
      · exact (hcut.placed (SnippetAt.moves _) (SnippetAt.places _)).mono (Nat.le_refl _) (by omega)
      · exact (ih v hv).mono hb.ahead.pos_le (by omega)
    | text _ _ _ h => exact absurd (by rw [h]; rfl) hu
    | snippet h => cases h

end

end StpLang
