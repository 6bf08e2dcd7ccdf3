import StpLang.Proofs.Comments

/-!
What holds of every token of a text.

A property that holds of each token as it is cut off, and of end marks, holds of all
tokens of a text and of all tokens in its snippets.

* `Lexical` says that a property holds of single tokens, `SnippetRel.Throughout` that
  it holds in snippets, at any depth.
* `Lexical.cut` is the step: it goes into the snippets of one token.
* `Lexical.tokenize` is the result for the tokens of a text.
-/

namespace StpLang

open Lexer

/-- In the text `cs` the property holds of each token that is cut off, whatever its
snippets hold, and of end marks. -/
structure Lexical (cs : List Char) (P : Token → Prop) : Prop where
  lexeme : ∀ {n : Nat} {c d : Cursor} {kind : TokenKind} {value : String}
    {segs : List (Segment Token)} (spaced : Bool),
    Lexeme (SnippetAt n) c kind value segs d → c.In cs → P (.between kind value spaced segs c d)
  eof : ∀ {c : Cursor} (spaced : Bool), c.In cs →
    P { Token.eofAt c.line c.col c.pos with spaced }

/-- The property holds of the tokens of every snippet in the text `cs`, at any depth. -/
def SnippetRel.Throughout (R : SnippetRel) (cs : List Char) (P : Token → Prop) : Prop :=
  ∀ ⦃c ts d⦄, R c ts d → c.In cs → ∀ u ∈ ts.flatMap Token.walk, P u

section

variable {cs : List Char} {P : Token → Prop} {R : SnippetRel} {c d : Cursor} {n : Nat}

/-- The tokens in the pieces of a string. -/
lemma Pieces.throughout (hR : R.Moves) (hT : R.Throughout cs P) {segs : List (Segment Token)}
    (h : Pieces R c segs d) (hc : c.In cs) :
    ∀ u ∈ (segs.flatMap Segment.snippetTokens).flatMap Token.walk, P u := by
  induction h with
  | close => simp
  | plain h hx _ ih => exact ih ((before_plain h hx).ahead.in_ hc)
  | @escape c d e form segs h _ ih =>
    have hmore := ih ((h.before hR).ahead.in_ hc)
    rw [List.flatMap_cons, List.flatMap_append]
    refine fun u hu => (List.mem_append.mp hu).elim (fun hu => ?_) (hmore u)
    cases h with
    | snippet _ hs => exact hT hs (hc.forward 2) u hu
    | _ => cases hu

namespace Lexical

/-- An end mark holds no other token. -/
lemma eof_walk (hP : Lexical cs P) (hc : c.In cs) (spaced : Bool) :
    ∀ u ∈ Token.walk { Token.eofAt c.line c.col c.pos with spaced }, P u := by
  intro u hu
  rw [Token.walk_eq, List.mem_cons] at hu
  rcases hu with rfl | hu
  · exact hP.eof spaced hc
  · cases hu

/-- One token and those in its snippets. -/
lemma cut (hP : Lexical cs P) (hT : (SnippetAt n).Throughout cs P) {inSnippet spaced : Bool}
    {groups : List Token} {t : Token} (h : Cut (SnippetAt n) inSnippet groups spaced c t d)
    (hc : c.In cs) : ∀ u ∈ t.walk, P u := by
  obtain ⟨h⟩ := h
  have hat := hc.forward (gap inSnippet groups c)
  intro u hu
  rw [Token.walk_eq, List.mem_cons] at hu
  rcases hu with rfl | hu
  · exact hP.lexeme _ h hat
  · cases h with
    | string _ hs => exact hs.throughout (SnippetAt.moves n) hT (hat.forward 1) u hu
    | _ => cases hu

lemma snippetTokens {groups ts : List Token} {spaced : Bool} (hP : Lexical cs P)
    (hT : (SnippetAt n).Throughout cs P)
    (h : SnippetTokens (SnippetAt n) groups spaced c ts d) (hc : c.In cs) :
    ∀ u ∈ ts.flatMap Token.walk, P u := by
  induction h with
  | @close spaced c d k hd h =>
    subst hd
    rw [List.flatMap_cons, List.flatMap_nil, List.append_nil]
    exact hP.eof_walk (hc.forward _) _
  | more h _ ih =>
    have hmore := ih ((h.before (SnippetAt.moves n)).ahead.in_ hc)
    rw [List.flatMap_cons]
    exact fun u hu => (List.mem_append.mp hu).elim (hP.cut hT h hc u) (hmore u)

/-- The tokens of snippets, at any depth. -/
lemma snippets (hP : Lexical cs P) (n : Nat) : (SnippetAt n).Throughout cs P := by
  induction n with
  | zero => exact fun _ _ _ h => h.elim
  | succ n ih => exact fun _ _ _ h hc => hP.snippetTokens ih h hc

/-- The leading tokens of a text and those in their snippets. -/
lemma lexes (hP : Lexical cs P) {limit : Int} {s t : Lexer} {us : List Token}
    (h : Lexes limit s us t) (hc : s.cursor.In cs) : ∀ u ∈ us.flatMap Token.walk, P u := by
  induction h with
  | nil => simp
  | cons h hu _ ih =>
    have hcut := (textToken_cut h hu).1
    have hmore := ih ((hcut.before (SnippetAt.moves _)).ahead.in_ hc)
    rw [List.flatMap_cons]
    exact fun u hu => (List.mem_append.mp hu).elim (hP.cut (hP.snippets _) hcut hc u) (hmore u)

/-- The tokens of a text, those in its snippets and the end marks. -/
lemma tokenize {source : String} {limit : Int} {ts : List Token}
    (hP : Lexical source.toList P) (h : tokenize source limit = .ok ts) :
    ∀ u ∈ ts.flatMap Token.walk, P u := by
  obtain ⟨us, e, t, v, rfl, hus, he, hk⟩ := lexes_of_tokenize h
  have hstart := Cursor.in_ofText source
  have hat := hus.ahead.in_ hstart
  obtain ⟨d, rfl, -, rfl⟩ := textToken_eof he hk hat
  rw [List.flatMap_append, List.flatMap_cons, List.flatMap_nil, List.append_nil]
  exact fun u hu => (List.mem_append.mp hu).elim (hP.lexes hus hstart u)
    (hP.eof_walk (hat.forward _) _ u)

end Lexical

end

end StpLang
