import StpLang.Proofs.Layout.Written

/-!
Text that is read as tokens on one line.

A text is put together from shorter ones, and so are its tokens. What a text is
read as depends on little that stands before it: whether white space does, and
whether the last token ends an operand, behind which `mod` is an operator.

* `Held` says which tokens stand between two places of a line.
* `Tells` says that a text is read as tokens with a property wherever it stands.
* `Tells.append` and `Tells.blank` put texts together.
* `Held.cuts` hands the tokens to the lexer and to the preparation of tokens.
-/

namespace StpLang

open Lexer StpLang.Parser

/-- A place in a text, with what matters of the text before it. -/
structure Spot where
  cursor : Cursor
  /-- White space lies right behind. -/
  spaced : Bool
  /-- The kind of the last token. -/
  last : Option TokenKind

/-- What a token of a kind becomes behind a token of kind `last`. -/
def TokenKind.settled (last : Option TokenKind) (kind : TokenKind) : TokenKind :=
  if kind == .mod && !last.any (·.endsOperand) then .identifier else kind

/-- The tokens between two places of a line, where blanks may precede each of
them. -/
inductive Held (n : Nat) : Spot → List Token → Spot → Prop
  | nil {s : Spot} : Held n s [] s
  | token {s t : Spot} {us : List Token} {m : Nat} {x : Char} {k : List Char} {kind : TokenKind}
      {value : String} {segs : List (Segment Token)} {d : Cursor}
      (hc : s.cursor.rest = List.replicate m ' ' ++ x :: k) (hx : startsToken x = true)
      (h : Lexeme (SnippetAt n) (s.cursor.forward m) kind value segs d)
      (hline : kind.endsLine = false)
      (hs : Held n ⟨d, false, some (kind.settled s.last)⟩ us t) :
      Held n s
        (.between (kind.settled s.last) value (s.spaced || m != 0) segs (s.cursor.forward m) d
          :: us) t

section

variable {n : Nat} {s t u : Spot} {us vs : List Token}

lemma Held.trans (h : Held n s us t) (h' : Held n t vs u) : Held n s (us ++ vs) u := by
  induction h with
  | nil => exact h'
  | token hc hx h hline _ ih => exact .token hc hx h hline (ih h')

/-- A blank before the first token. -/
lemma Held.blank {k : List Char} (hr : s.cursor.rest = ' ' :: k)
    (h : Held n ⟨s.cursor.forward 1, true, s.last⟩ us t) (hne : us ≠ []) : Held n s us t := by
  cases h with
  | nil => exact absurd rfl hne
  | @token _ _ us m x k' kind value segs d hc hx h hline hs =>
    dsimp only at hc h
    have hrest : s.cursor.rest = List.replicate (m + 1) ' ' ++ x :: k' := by
      rw [Cursor.rest_forward, hr, List.drop_one, List.tail_cons] at hc
      rw [hr, hc]
      rfl
    rw [← Cursor.forward_add, Nat.add_comm 1 m] at h ⊢
    have hspaced : (true || m != 0) = (s.spaced || m + 1 != 0) := by simp
    rw [hspaced]
    exact .token hrest hx h hline hs

/-! ### Reading the tokens -/

/-- A token behind blanks is cut off where it stands. -/
lemma cut_of_blanks {R : SnippetRel} {inSnippet spaced : Bool} {groups : List Token} {c d : Cursor}
    {m : Nat} {x : Char} {k : List Char} {kind : TokenKind} {value : String}
    {segs : List (Segment Token)} (hc : c.rest = List.replicate m ' ' ++ x :: k)
    (hx : startsToken x = true) (h : Lexeme R (c.forward m) kind value segs d) :
    Cut R inSnippet groups spaced c (.between kind value (spaced || m != 0) segs (c.forward m) d)
      d := by
  have hgap : gap inSnippet groups c = m := by
    rw [gap, hc]
    exact Scan.blankLength_replicate _ hx m k
  rw [← hgap] at h ⊢
  exact .mk h

/-- Preparing keeps a token, unless it is a comment within a group. -/
lemma keptToken?_between {depth : Nat} {last : Option TokenKind} {kind : TokenKind}
    {value : String} {b : Bool} {segs : List (Segment Token)} {c d : Cursor}
    (h : depth = 0 ∨ kind.endsLine = false) :
    keptToken? depth last (.between kind value b segs c d)
      = some (.between (kind.settled last) value b segs c d) := by
  have hcomment : (kind == .comment && decide (depth > 0)) = false := by
    rcases h with rfl | h
    · simp
    · rw [beq_false_of_ne, Bool.false_and]
      rintro rfl
      cases h
  unfold keptToken? TokenKind.settled Token.between
  simp only [hcomment, Bool.false_eq_true, if_false]
  split <;> rfl

/-- What is read on a line is what stands there, and nothing is set aside. -/
lemma Held.cuts (h : Held n s us t) (inSnippet : Bool) (groups : List Token) :
    ∃ vs, Cuts (SnippetAt n) inSnippet groups s.spaced s.cursor vs t.cursor
      ∧ ∀ depth, settle depth s.last vs = (us, []) := by
  induction h generalizing groups with
  | nil => exact ⟨[], .nil, fun _ => rfl⟩
  | @token s t us m x k kind value segs d hc hx h hline _ ih =>
    obtain ⟨vs, hvs, hsettle⟩ := ih (groupsAfter (.between kind value (s.spaced || m != 0) segs
      (s.cursor.forward m) d) groups)
    refine ⟨_ :: vs, .cons (cut_of_blanks hc hx h) ?_, fun depth => ?_⟩
    · rw [show (Token.between kind value (s.spaced || m != 0) segs (s.cursor.forward m)
        d).kind.endsLine = false from hline]
      exact hvs
    · rw [settle_cons, keptToken?_between (.inr hline)]
      dsimp only
      rw [show (Token.between (kind.settled s.last) value (s.spaced || m != 0) segs
        (s.cursor.forward m) d).kind = kind.settled s.last from rfl, hsettle]

end

/-! ### Texts -/

/-- Before any text with `K`, and behind a last token with `S`, the text `v` is
read as tokens with `P`, which is also told whether white space precedes them. -/
def Tells (n : Nat) (S : Option TokenKind → Prop) (K : List Char → Prop) (v : List Char)
    (P : Bool → List Token → Prop) : Prop :=
  ∀ (s : Spot) (k : List Char), S s.last → s.cursor.rest = v ++ k → K k →
    ∃ us, P s.spaced us ∧ us ≠ []
      ∧ Held n s us ⟨s.cursor.forward v.length, false, lastKind s.last us⟩

/-- Any token may precede. -/
abbrev Anywhere : Option TokenKind → Prop := fun _ => True

/-- The last token does not end an operand. -/
abbrev Fresh : Option TokenKind → Prop := fun last => last.any (·.endsOperand) = false

lemma lastKind_append (last : Option TokenKind) (us vs : List Token) :
    lastKind last (us ++ vs) = lastKind (lastKind last us) vs := List.foldl_append

section

variable {n : Nat} {S S' : Option TokenKind → Prop} {K K' : List Char → Prop} {v w : List Char}
  {P Q R : Bool → List Token → Prop}

lemma Tells.mono (h : Tells n S K v P) (hP : ∀ b us, P b us → Q b us) : Tells n S K v Q := by
  intro s k hs hrest hk
  obtain ⟨us, hus, hne, hheld⟩ := h s k hs hrest hk
  exact ⟨us, hP _ _ hus, hne, hheld⟩

/-- The context may be known better. -/
lemma Tells.weaken (h : Tells n S K v P) (hS : ∀ last, S' last → S last)
    (hK : ∀ k, K' k → K k) : Tells n S' K' v P :=
  fun s k hs hrest hk => h s k (hS _ hs) hrest (hK k hk)

/-- One text behind another. -/
lemma Tells.append (h : Tells n S K v P) (h' : Tells n S' K' w Q)
    (hS : ∀ b us last, P b us → us ≠ [] → S' (lastKind last us)) (hK : ∀ k, K' k → K (w ++ k)) :
    Tells n S K' (v ++ w) fun b us => ∃ xs ys, us = xs ++ ys ∧ P b xs ∧ Q false ys := by
  intro s k hs hrest hk
  rw [List.append_assoc] at hrest
  obtain ⟨xs, hxs, hne, hheld⟩ := h s (w ++ k) hs hrest (hK k hk)
  have hrest' : (s.cursor.forward v.length).rest = w ++ k := by
    rw [Cursor.rest_forward, hrest, List.drop_left]
  obtain ⟨ys, hys, -, hheld'⟩ := h' ⟨s.cursor.forward v.length, false, lastKind s.last xs⟩ k
    (hS _ _ _ hxs hne) hrest' hk
  refine ⟨xs ++ ys, ⟨xs, ys, rfl, hxs, hys⟩, by simp [hne], ?_⟩
  rw [lastKind_append, List.length_append, Cursor.forward_add]
  exact hheld.trans hheld'

/-- A blank before a text. -/
lemma Tells.blank (h : Tells n S K v P) : Tells n S K (' ' :: v) fun _ us => P true us := by
  intro s k hs hrest hk
  have hrest' : (s.cursor.forward 1).rest = v ++ k := by
    rw [Cursor.rest_forward, hrest]
    rfl
  obtain ⟨us, hus, hne, hheld⟩ := h ⟨s.cursor.forward 1, true, s.last⟩ k hs hrest' hk
  refine ⟨us, hus, hne, Held.blank hrest ?_ hne⟩
  rw [List.length_cons, Nat.add_comm, Cursor.forward_add]
  exact hheld

/-- Blanks before a text. -/
lemma Tells.blanks (h : Tells n S K v P) (m : Nat) :
    Tells n S K (List.replicate m ' ' ++ v) fun _ us => ∃ b, P b us := by
  induction m with
  | zero => exact h.mono fun b us hus => ⟨b, hus⟩
  | succ m ih => exact ih.blank.mono fun _ _ hus => hus

end

end StpLang
