import StpLang.Grammar.Parser
import StpLang.Proofs.Lex.Lexeme

/-!
What the tokens of a text have in common.

A token that was cut from a text lies where it says, its words are spelled as
their kinds demand, and the same holds of the tokens in its snippets.

* `Token.Placed` says this of a token between two offsets.
* `Cut.placed` and `SnippetAt.places` show it of all tokens of the relation.
* `placed_settle` shows that it survives the preparation for the grammar.
-/

namespace StpLang

open Lexer

/-- The token lies between two offsets, its words are spelled right, and the
same holds of the tokens in its snippets. -/
inductive Token.Placed : (lo hi : Nat) → Token → Prop
  | mk {lo hi : Nat} {t : Token} (low : lo ≤ t.start) (high : t.stop ≤ hi)
      (extent : t.kind ≠ .eof → t.start < t.stop)
      (word : t.kind = .kwBreak ∨ t.kind = .kwCont → (t.value, t.kind) ∈ TokenKind.keywords)
      (semicolon : t.value = ";" → t.kind = .semicolon)
      (forms : ∀ seg ∈ t.segments, ∀ name, seg.form ≠ .other name)
      (snippets : ∀ seg ∈ t.segments, ∀ ts, seg.form = .snippet ts →
        ∀ u ∈ ts, Token.Placed t.start t.stop u) : Token.Placed lo hi t

namespace Token.Placed

variable {lo hi : Nat} {t : Token}

lemma low (h : Placed lo hi t) : lo ≤ t.start := by
  cases h
  assumption

lemma high (h : Placed lo hi t) : t.stop ≤ hi := by
  cases h
  assumption

lemma extent (h : Placed lo hi t) (ht : t.kind ≠ .eof) : t.start < t.stop := by
  cases h with
  | mk _ _ extent => exact extent ht

lemma word (h : Placed lo hi t) (ht : t.kind = .kwBreak ∨ t.kind = .kwCont) :
    (t.value, t.kind) ∈ TokenKind.keywords := by
  cases h with
  | mk _ _ _ word => exact word ht

lemma semicolon (h : Placed lo hi t) (ht : t.value = ";") : t.kind = .semicolon := by
  cases h with
  | mk _ _ _ _ semicolon => exact semicolon ht

lemma forms (h : Placed lo hi t) {seg : Segment Token} (hs : seg ∈ t.segments) (name : String) :
    seg.form ≠ .other name := by
  cases h with
  | mk _ _ _ _ _ forms => exact forms seg hs name

lemma snippets (h : Placed lo hi t) {seg : Segment Token} (hs : seg ∈ t.segments)
    {ts : List Token} (hf : seg.form = .snippet ts) : ∀ u ∈ ts, Placed t.start t.stop u := by
  cases h with
  | mk _ _ _ _ _ _ snippets => exact snippets seg hs ts hf

lemma mono {lo' hi' : Nat} (h : Placed lo hi t) (hl : lo' ≤ lo) (hh : hi ≤ hi') :
    Placed lo' hi' t :=
  ⟨Nat.le_trans hl h.low, Nat.le_trans h.high hh, h.extent, h.word, h.semicolon,
    fun _ hs => h.forms hs, fun _ hs _ hf => h.snippets hs hf⟩

end Token.Placed

/-- The tokens of snippets lie where they say. -/
def SnippetRel.Places (R : SnippetRel) : Prop :=
  ∀ ⦃c ts d⦄, R c ts d → ∀ u ∈ ts, u.Placed c.pos d.pos

section

variable {R : SnippetRel} {c d : Cursor} {kind : TokenKind} {value : String}
  {segs : List (Segment Token)}

lemma Pieces.placed (hR : R.Moves) (hP : R.Places) (h : Pieces R c segs d) :
    ∀ seg ∈ segs, (∀ name, seg.form ≠ .other name)
      ∧ ∀ ts, seg.form = .snippet ts → ∀ u ∈ ts, u.Placed c.pos d.pos := by
  induction h with
  | close h => simp
  | @plain c d segs x k h hx hs ih =>
    rw [List.forall_mem_cons]
    refine ⟨⟨(by rintro _ ⟨⟩), (by rintro _ ⟨⟩)⟩, fun seg hseg => ?_⟩
    have hle := (before_plain h hx).ahead.pos_le
    exact ⟨(ih seg hseg).1, fun ts hf u hu => ((ih seg hseg).2 ts hf u hu).mono hle (Nat.le_refl _)⟩
  | @escape c d e form segs h hs ih =>
    have hle := (h.before hR).ahead.pos_le
    have hhi := (hs.before hR).ahead.pos_le
    rw [List.forall_mem_cons]
    refine ⟨?_, fun seg hseg => ?_⟩
    · refine ⟨fun name hn => ?_, fun ts hf u hu => ?_⟩
      · cases h <;> cases hn
      · cases h with
        | snippet hk hR' =>
          cases hf
          have hmid : c.pos ≤ (c.forward 2).pos :=
            (Cursor.ahead_forward (by rw [hk]; simp)).pos_le
          exact (hP hR' u hu).mono hmid hhi
        | _ => cases hf
    · exact ⟨(ih seg hseg).1,
        fun ts hf u hu => ((ih seg hseg).2 ts hf u hu).mono hle (Nat.le_refl _)⟩

lemma trimEnd_append (p : Char → Bool) (cs : List Char) : ∃ k, Text.trimEnd p cs ++ k = cs := by
  obtain ⟨l, hl⟩ := List.dropWhile_suffix (l := cs.reverse) p
  refine ⟨l.reverse, ?_⟩
  rw [Text.trimEnd, ← List.reverse_append, hl, List.reverse_reverse]

/-- Only the semicolon is spelled like one. -/
lemma Lexeme.semicolon (h : Lexeme R c kind value segs d) (hv : value = ";") :
    kind = .semicolon := by
  have hop : ∀ o ∈ TokenKind.operators, o.1 = ";" → o.2 = .semicolon := by decide
  -- any other token begins with a character of its own
  have hstart {y : Char} {k cs l : List Char} (hk : c.rest = y :: k) (hcs : cs ++ l = c.rest)
      (hv : String.ofList cs = ";") : y = ';' := by
    have hcs' : cs = [';'] := by simpa using congrArg String.toList hv
    rw [hcs', hk] at hcs
    exact (List.cons.inj hcs).1.symm
  cases h with
  | lineEnd => exact absurd hv (by decide)
  | comment hk =>
    obtain ⟨l, hl⟩ := trimEnd_append (· == '\r') (c.rest.take (Scan.lineLength c.rest))
    have hrest : Text.trimEnd (· == '\r') (c.rest.take (Scan.lineLength c.rest))
        ++ (l ++ c.rest.drop (Scan.lineLength c.rest)) = c.rest := by
      rw [← List.append_assoc, hl, List.take_append_drop]
    exact absurd (hstart hk hrest hv) (by decide)
  | word hk hy =>
    cases hstart hk (List.take_append_drop _ _) hv
    cases hy
  | number hk hy =>
    cases hstart hk (List.take_append_drop _ _) hv
    cases hy
  | string hk => cases hstart hk (List.take_append_drop _ _) hv
  | operator h => exact hop _ (Scan.operator?_inv h).1 hv

lemma Lexeme.placed (hR : R.Moves) (hP : R.Places) (h : Lexeme R c kind value segs d)
    (spaced : Bool) : (Token.between kind value spaced segs c d).Placed c.pos d.pos := by
  have hlt := (h.before hR).lt
  have hop : ∀ o ∈ TokenKind.operators, ¬(o.2 = .kwBreak ∨ o.2 = .kwCont) := by decide
  refine ⟨Nat.le_refl _, Nat.le_refl _, fun _ => hlt, fun hk => ?_, h.semicolon, ?_, ?_⟩
  · change kind = .kwBreak ∨ kind = .kwCont at hk
    change (value, kind) ∈ TokenKind.keywords
    cases h with
    | word =>
      rcases wordKind_or c.past (String.ofList (c.rest.take (Scan.wordLength c.rest)))
        (c.rest.drop (Scan.wordLength c.rest)) with h | h | h
      · rw [h.1] at hk
        rcases hk with hk | hk <;> cases hk
      · rw [h] at hk
        rcases hk with hk | hk <;> cases hk
      · exact h
    | operator h => exact absurd hk (hop _ (Scan.operator?_inv h).1)
    | _ => rcases hk with hk | hk <;> cases hk
  · intro seg hseg
    cases h with
    | string _ hs => exact (hs.placed hR hP seg hseg).1
    | _ => cases hseg
  · intro seg hseg ts hf u hu
    cases h with
    | string hk hs =>
      have hle : c.pos ≤ (c.forward 1).pos := (Cursor.ahead_forward (by rw [hk]; simp)).pos_le
      exact ((hs.placed hR hP seg hseg).2 ts hf u hu).mono hle (Nat.le_refl _)
    | _ => cases hseg

/-- A token that was cut off lies between the places before and behind it. -/
lemma Cut.placed (hR : R.Moves) (hP : R.Places) {inSnippet spaced : Bool} {groups : List Token}
    {t : Token} (h : Cut R inSnippet groups spaced c t d) : t.Placed c.pos d.pos := by
  obtain ⟨h⟩ := h
  exact (h.placed hR hP _).mono (ahead_gap inSnippet groups c).pos_le (Nat.le_refl _)

/-- An end mark lies at its place. -/
lemma placed_eof {t : Token} {lo hi : Nat} (hk : t.kind = .eof) (hv : t.value = "")
    (hs : t.segments = []) (hlo : lo ≤ t.start) (hhi : t.stop ≤ hi) : t.Placed lo hi := by
  refine ⟨hlo, hhi, fun h => absurd hk h, fun h => ?_, fun h => ?_, ?_, ?_⟩
  · rw [hk] at h
    rcases h with h | h <;> cases h
  · rw [hv] at h
    contradiction
  · rw [hs]
    simp
  · rw [hs]
    simp

lemma SnippetTokens.placed (hR : R.Moves) (hP : R.Places) {groups ts : List Token} {spaced : Bool}
    (h : SnippetTokens R groups spaced c ts d) : ∀ u ∈ ts, u.Placed c.pos d.pos := by
  induction h with
  | @close spaced c d k hd h =>
    subst hd
    have hle := (ahead_gap true [] c).pos_le
    have h2 : (c.forward (gap true [] c)).pos ≤ ((c.forward (gap true [] c)).forward 2).pos :=
      (Cursor.ahead_forward (by rw [h]; simp)).pos_le
    intro u hu
    rw [List.mem_singleton] at hu
    subst hu
    exact placed_eof rfl rfl rfl hle h2
  | @more groups spaced c d e t ts h hs ih =>
    have hle := (h.before hR).ahead.pos_le
    have hhi := (hs.before hR).ahead.pos_le
    rw [List.forall_mem_cons]
    exact ⟨(h.placed hR hP).mono (Nat.le_refl _) hhi, fun u hu => (ih u hu).mono hle (Nat.le_refl _)⟩

lemma SnippetAt.places (allowance : Nat) : SnippetRel.Places (SnippetAt allowance) := by
  induction allowance with
  | zero => exact fun _ _ _ h => h.elim
  | succ n ih => exact fun _ _ _ h => SnippetTokens.placed (SnippetAt.moves n) ih h

end

/-! ### The tokens that the grammar is given -/

/-- Setting comments aside and renaming `mod` keeps tokens in their places. -/
lemma placed_settle {lo hi : Nat} {ts : List Token} (h : ∀ t ∈ ts, t.Placed lo hi) (depth : Nat)
    (last : Option TokenKind) : ∀ t ∈ (Parser.settle depth last ts).1, t.Placed lo hi := by
  induction ts generalizing depth last with
  | nil => simp [Parser.settle]
  | cons t ts ih =>
    rw [List.forall_mem_cons] at h
    rw [Parser.settle]
    dsimp only
    split
    · rw [List.forall_mem_cons]
      exact ⟨h.1, ih h.2 _ _⟩
    split
    · rw [List.forall_mem_cons]
      exact ⟨h.1, ih h.2 _ _⟩
    split
    · exact ih h.2 _ _
    split
    · rename_i hmod
      rw [Bool.and_eq_true, beq_iff_eq] at hmod
      rw [List.forall_mem_cons]
      refine ⟨⟨h.1.low, h.1.high, fun _ => h.1.extent (by rw [hmod.1]; decide), ?_, fun hv => ?_,
        fun _ hs => h.1.forms hs, fun _ hs _ hf => h.1.snippets hs hf⟩, ih h.2 _ _⟩
      · rintro (hk | hk) <;> cases hk
      · rw [h.1.semicolon hv] at hmod
        cases hmod.1
    · rw [List.forall_mem_cons]
      exact ⟨h.1, ih h.2 _ _⟩

end StpLang
