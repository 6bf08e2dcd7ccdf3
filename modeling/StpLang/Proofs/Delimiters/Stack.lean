import StpLang.Proofs.Comments

/-!
Delimiters that match.

The closing delimiters that are still expected form a stack. Tokens unwind a stack
when each closing delimiter among them is the one expected and none is missing at
the end; the tokens of the snippets in their strings then close among themselves.

* `delimited` decides this for the tokens of one list.
* `WellDelimited` is the property of a text and all of its snippets, `Unwinds` that of
  the tokens ahead of a reader.
* `unwinds_settle`: preparing the tokens for the grammar keeps the delimiters.
-/

namespace StpLang

open Lexer StpLang.Parser

/-! ### Lists of tokens -/

/-- The delimiters among the tokens close those in `opens`, the closing delimiters
expected, the innermost first, and all that are opened on the way. -/
def delimited : (opens : List TokenKind) → List Token → Bool
  | opens, [] => opens.isEmpty
  | opens, t :: ts =>
    match t.kind.closer? with
    | some closer => delimited (closer :: opens) ts
    | none =>
      if t.kind.isCloser then opens.head? == some t.kind && delimited opens.tail ts
      else delimited opens ts

/-- The tokens of a piece of a string, if it is a snippet. -/
def Segment.snippet? (seg : Segment Token) : Option (List Token) :=
  match seg.form with
  | .snippet tokens => some tokens
  | _ => none

/-- The tokens of the snippets in a string, list by list. -/
def Token.snippets (t : Token) : List (List Token) := t.segments.filterMap Segment.snippet?

/-- The delimiters match among some tokens and in every snippet, at any depth. -/
structure WellDelimited (ts : List Token) : Prop where
  top : delimited [] ts = true
  snippets : ∀ t ∈ ts.flatMap Token.walk, ∀ us ∈ t.snippets, delimited [] us = true

instance (ts : List Token) : Decidable (WellDelimited ts) :=
  decidable_of_iff (delimited [] ts = true
    ∧ ∀ t ∈ ts.flatMap Token.walk, ∀ us ∈ t.snippets, delimited [] us = true)
    ⟨fun h => ⟨h.1, h.2⟩, fun h => ⟨h.top, h.snippets⟩⟩

/-- The delimiters match in the snippets of a token, at any depth. -/
def Token.Sealed (t : Token) : Prop := ∀ u ∈ t.walk, ∀ us ∈ u.snippets, delimited [] us = true

/-- The tokens unwind a stack, and their snippets are closed. -/
structure Unwinds (opens : List TokenKind) (ts : List Token) : Prop where
  delimited : delimited opens ts = true
  sealed : ∀ t ∈ ts, t.Sealed

/-- The tokens are like those ahead of a reader of a text or a snippet: the last one is
the only end mark, only strings have pieces, and so it is in every snippet. -/
inductive Ended : List Token → Prop
  | eof {e : Token} (he : e.kind = .eof) (hsegs : e.segments = []) : Ended [e]
  | cons {t : Token} {ts : List Token} (hne : t.kind ≠ .eof)
      (hsegs : t.kind ≠ .string → t.segments = []) (hsnippets : ∀ us ∈ t.snippets, Ended us)
      (h : Ended ts) : Ended (t :: ts)

/-- Tokens that are neither delimiters nor strings nor end marks. -/
def TokenKind.isPlain (kind : TokenKind) : Bool :=
  kind.closer?.isNone && !kind.isCloser && kind != .string && kind != .eof

section

variable {opens : List TokenKind} {closer : TokenKind} {t e : Token} {ts us : List Token}

lemma wellDelimited_iff : WellDelimited ts ↔ Unwinds [] ts := by
  constructor
  · intro h
    exact ⟨h.top, fun t ht u hu => h.snippets u (List.mem_flatMap.mpr ⟨t, ht, hu⟩)⟩
  · intro h
    refine ⟨h.delimited, fun u hu => ?_⟩
    obtain ⟨t, ht, hu⟩ := List.mem_flatMap.mp hu
    exact h.sealed t ht u hu

/-! ### Token by token -/

lemma Segment.snippetTokens_eq (seg : Segment Token) :
    seg.snippetTokens = seg.snippet?.getD [] := by
  unfold Segment.snippetTokens Segment.snippet?
  cases seg.form <;> rfl

lemma Token.mem_snippetTokens : e ∈ t.snippetTokens ↔ ∃ us ∈ t.snippets, e ∈ us := by
  simp only [Token.snippetTokens, Token.snippets, List.mem_flatMap, List.mem_filterMap,
    Segment.snippetTokens_eq]
  constructor
  · rintro ⟨seg, hseg, he⟩
    cases h : seg.snippet? with
    | none =>
      rw [h] at he
      cases he
    | some us =>
      rw [h] at he
      exact ⟨us, ⟨seg, hseg, h⟩, he⟩
  · rintro ⟨us, ⟨seg, hseg, h⟩, he⟩
    exact ⟨seg, hseg, by rwa [h]⟩

/-- The snippets of a token are sealed when their tokens close. -/
lemma Token.sealed_iff : t.Sealed ↔ ∀ us ∈ t.snippets, Unwinds [] us := by
  unfold Token.Sealed
  rw [Token.walk_eq]
  constructor
  · intro h us hus
    refine ⟨h t List.mem_cons_self us hus, fun e he u hu => ?_⟩
    exact h u (List.mem_cons_of_mem _ (List.mem_flatMap.mpr
      ⟨e, Token.mem_snippetTokens.mpr ⟨us, hus, he⟩, hu⟩))
  · intro h u hu
    rcases List.mem_cons.mp hu with rfl | hu
    · exact fun us hus => (h us hus).delimited
    · obtain ⟨e, he, hu⟩ := List.mem_flatMap.mp hu
      obtain ⟨us, hus, he⟩ := Token.mem_snippetTokens.mp he
      exact (h us hus).sealed e he u hu

lemma Token.sealed_of_segments (h : t.segments = []) : t.Sealed := by
  rw [Token.sealed_iff, Token.snippets, h]
  exact fun us hus => absurd hus List.not_mem_nil

lemma unwinds_cons : Unwinds opens (t :: ts) ↔ delimited opens (t :: ts) = true
    ∧ t.Sealed ∧ ∀ u ∈ ts, u.Sealed := by
  rw [← List.forall_mem_cons]
  exact ⟨fun h => ⟨h.delimited, h.sealed⟩, fun h => ⟨h.1, h.2⟩⟩

/-- A token that is no delimiter leaves the stack as it is. -/
lemma unwinds_other (ho : t.kind.closer? = none) (hc : t.kind.isCloser = false) :
    Unwinds opens (t :: ts) ↔ t.Sealed ∧ Unwinds opens ts := by
  rw [unwinds_cons, delimited, ho]
  simp only [hc, Bool.false_eq_true, if_false]
  exact ⟨fun h => ⟨h.2.1, h.1, h.2.2⟩, fun h => ⟨h.2.delimited, h.1, h.2.sealed⟩⟩

/-- An opening delimiter puts its partner on the stack. -/
lemma unwinds_opener (ho : t.kind.closer? = some closer) :
    Unwinds opens (t :: ts) ↔ t.Sealed ∧ Unwinds (closer :: opens) ts := by
  rw [unwinds_cons, delimited, ho]
  exact ⟨fun h => ⟨h.2.1, h.1, h.2.2⟩, fun h => ⟨h.2.delimited, h.1, h.2.sealed⟩⟩

/-- A closing delimiter takes itself from the stack. -/
lemma unwinds_closer (hc : t.kind.isCloser = true) :
    Unwinds opens (t :: ts) ↔ t.Sealed ∧ opens.head? = some t.kind ∧ Unwinds opens.tail ts := by
  have ho : t.kind.closer? = none := by
    cases hk : t.kind <;> first | rfl | (rw [hk] at hc; cases hc)
  rw [unwinds_cons, delimited, ho]
  simp only [hc, if_true, Bool.and_eq_true, beq_iff_eq]
  exact ⟨fun h => ⟨h.2.1, h.1.1, h.1.2, h.2.2⟩,
    fun h => ⟨⟨h.2.1, h.2.2.delimited⟩, h.1, h.2.2.sealed⟩⟩

/-- Only what the tokens behind the first close matters. -/
lemma unwinds_congr (h : ∀ o, Unwinds o us ↔ Unwinds o ts) :
    Unwinds opens (t :: us) ↔ Unwinds opens (t :: ts) := by
  cases ho : t.kind.closer? with
  | some closer => rw [unwinds_opener ho, unwinds_opener ho, h]
  | none =>
    cases hc : t.kind.isCloser with
    | true => rw [unwinds_closer hc, unwinds_closer hc, h]
    | false => rw [unwinds_other ho hc, unwinds_other ho hc, h]

/-- An end mark closes nothing. -/
lemma unwinds_eof (he : e.kind = .eof) (hsegs : e.segments = []) :
    Unwinds opens [e] ↔ opens = [] := by
  rw [unwinds_other (by rw [he]; rfl) (by rw [he]; rfl),
    and_iff_right (Token.sealed_of_segments hsegs)]
  constructor
  · intro h
    exact List.isEmpty_iff.mp h.delimited
  · rintro rfl
    exact ⟨rfl, fun t ht => absurd ht List.not_mem_nil⟩

end

/-! ### The tokens of a text -/

section

variable {limit : Int} {source : String} {c d : Cursor} {R : SnippetRel} {groups ts : List Token}
  {kind : TokenKind} {value : String} {segs : List (Segment Token)}

/-- The snippets of a token that is spelled right are ended when its pieces are. -/
lemma Spells.ended (h : Spells Ended kind value segs) :
    ∀ us ∈ segs.filterMap Segment.snippet?, Ended us := by
  intro us hus
  obtain ⟨seg, hseg, hform⟩ := List.mem_filterMap.mp hus
  by_cases hk : kind = .string
  · subst hk
    obtain ⟨w, -, hparts⟩ := h.parts
    unfold Segment.snippet? at hform
    cases hf : seg.form with
    | snippet tokens =>
      rw [hf] at hform
      cases hform
      exact hparts.tokens hseg hf
    | _ =>
      rw [hf] at hform
      cases hform
  · rw [h.segments_eq_nil hk] at hseg
    cases hseg

lemma SnippetTokens.ended (hR : R.Moves) (hE : R.Spells Ended) {spaced : Bool}
    (h : SnippetTokens R groups spaced c ts d) : Ended ts := by
  induction h with
  | close => exact .eof rfl rfl
  | more h _ ih =>
    obtain ⟨hlex⟩ := h
    have hspells := hlex.spells hR hE
    exact .cons hlex.plain.1 hspells.segments_eq_nil hspells.ended ih

lemma SnippetAt.ended (allowance : Nat) : SnippetRel.Spells (SnippetAt allowance) Ended := by
  induction allowance with
  | zero => exact fun _ _ _ h => h.elim
  | succ n ih => exact fun _ _ _ h => SnippetTokens.ended (SnippetAt.moves n) ih h

lemma Lexes.ended {s t : Lexer} {us : List Token} (h : Lexes limit s us t) (hts : Ended ts) :
    Ended (us ++ ts) := by
  induction h with
  | nil => exact hts
  | cons h hu _ ih =>
    obtain ⟨hlex⟩ := (textToken_cut h hu).1
    have hspells := hlex.spells (SnippetAt.moves _) (SnippetAt.ended _)
    exact .cons hu hspells.segments_eq_nil hspells.ended ih

/-- The tokens of a text are closed by their only end mark. -/
lemma ended_of_tokenize (h : tokenize source limit = .ok ts) : Ended ts := by
  obtain ⟨us, e, t, v, rfl, hus, he, hk⟩ := lexes_of_tokenize h
  obtain ⟨d, -, -, heq⟩ := textToken_eof he hk (hus.ahead.in_ (Cursor.in_ofText source))
  exact hus.ended (.eof hk (by rw [heq]; rfl))

end

/-! ### Preparing the tokens -/

section

variable {opens : List TokenKind} {ts : List Token}

lemma ended_settle (h : Ended ts) (depth : Nat) (last : Option TokenKind) :
    Ended (settle depth last ts).1 := by
  induction h generalizing depth last with
  | eof he hsegs =>
    rw [settle_cons]
    simpa [keptToken?, he, settle] using Ended.eof he hsegs
  | @cons t ts hne hsegs hsnippets _ _ ih =>
    rw [settle_cons]
    cases hk : keptToken? depth last t with
    | none => exact ih depth last
    | some u =>
      rcases keptToken?_some hk with rfl | ⟨hkind, rfl⟩
      · exact .cons hne hsegs hsnippets (ih ..)
      · have hnil : t.segments = [] := hsegs (by rw [hkind]; decide)
        exact .cons (fun h => by cases h) (fun _ => hnil) hsnippets (ih ..)

/-- Comments set aside hold no snippets, and a word that becomes a name is no
delimiter. -/
lemma unwinds_settle (h : Ended ts) (depth : Nat) (last : Option TokenKind) :
    Unwinds opens (settle depth last ts).1 ↔ Unwinds opens ts := by
  induction h generalizing opens depth last with
  | eof he =>
    rw [settle_cons]
    simp [keptToken?, he, settle]
  | @cons t ts hne hsegs hsnippets _ _ ih =>
    rw [settle_cons]
    cases hk : keptToken? depth last t with
    | none =>
      have hkind := keptToken?_none hk
      have hsealed := Token.sealed_of_segments (hsegs (by rw [hkind]; decide))
      rw [unwinds_other (by rw [hkind]; rfl) (by rw [hkind]; rfl), and_iff_right hsealed]
      exact ih depth last
    | some u =>
      have hrest (o : List TokenKind) :
          Unwinds o (settle (depthAfter depth t) (some u.kind) ts).1 ↔ Unwinds o ts := ih ..
      rcases keptToken?_some hk with rfl | ⟨hkind, rfl⟩
      · exact unwinds_congr hrest
      · -- the word has no pieces, whatever its kind
        have hnil : t.segments = [] := hsegs (by rw [hkind]; decide)
        have hname : ({ t with kind := .identifier } : Token).Sealed :=
          Token.sealed_of_segments hnil
        rw [unwinds_other rfl rfl, unwinds_other (by rw [hkind]; rfl) (by rw [hkind]; rfl),
          and_iff_right hname, and_iff_right (Token.sealed_of_segments hnil)]
        exact hrest _

end

end StpLang
