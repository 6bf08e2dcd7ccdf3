import StpLang.Proofs.Lex.Even
import StpLang.Proofs.Lex.Twin

/-!
The leading tokens of a text.

* `Lexes` reads some tokens one after another.
* `lexFrom_split` splits the tokens of a text, `Lexes.lexFrom_eq` joins them.
* `Lexes.twin` carries leading tokens over to another text that agrees up to a
  line end or a semicolon, and `Cut.twin_mark` the token of that mark itself.
-/

namespace StpLang

open Lexer

/-- From one state to another the lexer reads the given tokens. -/
inductive Lexes (limit : Int) : Lexer → List Token → Lexer → Prop
  | nil (s : Lexer) : Lexes limit s [] s
  | cons {s t v : Lexer} {u : Token} {us : List Token} (h : textToken limit s = .ok u t)
      (hu : u.kind ≠ .eof) (hs : Lexes limit t us v) : Lexes limit s (u :: us) v

section

variable {limit : Int} {s t v : Lexer} {u : Token} {us vs : List Token}

lemma Lexes.trans (h : Lexes limit s us t) (h' : Lexes limit t vs v) :
    Lexes limit s (us ++ vs) v := by
  induction h with
  | nil => exact h'
  | cons h hu _ ih => exact .cons h hu (ih h')

/-- The tokens of a text are some leading ones and those behind them. -/
lemma Lexes.lexFrom_eq (h : Lexes limit s us t) :
    (lexFrom limit s).tokens = us ++ (lexFrom limit t).tokens
      ∧ (lexFrom limit s).fault = (lexFrom limit t).fault := by
  induction h with
  | nil => exact ⟨rfl, rfl⟩
  | cons h hu _ ih =>
    rw [lexFrom_cons h hu]
    exact ⟨congrArg (List.cons _) ih.1, ih.2⟩

/-- The tokens of a text can be split anywhere before the last. -/
lemma lexFrom_split (h : (lexFrom limit s).tokens = us ++ vs) (hv : vs ≠ []) :
    ∃ t, Lexes limit s us t ∧ (lexFrom limit t).tokens = vs := by
  induction us generalizing s with
  | nil => exact ⟨s, .nil s, h⟩
  | cons u us ih =>
    have hlen := congrArg List.length h
    have hpos := List.length_pos_iff.mpr hv
    rw [List.length_append, List.length_cons] at hlen
    cases hs : textToken limit s with
    | error e t =>
      rw [lexFrom_error hs] at hlen
      simp at hlen
      omega
    | ok u' t =>
      by_cases hk : u'.kind = .eof
      · rw [lexFrom_eof hs hk] at hlen
        simp at hlen
        omega
      · rw [lexFrom_cons hs hk] at h
        obtain ⟨rfl, hrest⟩ := List.cons.inj h
        obtain ⟨v, hv, hvs⟩ := ih hrest
        exact ⟨v, .cons hs hk hv, hvs⟩

/-- What a token other than the end mark is. -/
lemma textToken_cut (h : textToken limit s = .ok u t) (hu : u.kind ≠ .eof) :
    Cut (TextSnippet limit) false s.groups s.spaced s.cursor u t.cursor
      ∧ t.groups = groupsAfter u s.groups ∧ t.spaced = u.kind.endsLine := by
  cases textToken_inv h with
  | token hcut hg hs => exact ⟨hcut, hg, hs⟩
  | text _ _ _ h => exact absurd (by rw [h]; rfl) hu
  | snippet h => cases h

lemma Cut.stop {R : SnippetRel} {inSnippet spaced : Bool} {groups : List Token} {c d : Cursor}
    (h : Cut R inSnippet groups spaced c u d) : u.stop = d.pos := by
  obtain ⟨-⟩ := h
  rfl

lemma Cut.eq_between {R : SnippetRel} {inSnippet spaced : Bool} {groups : List Token}
    {c d : Cursor} (h : Cut R inSnippet groups spaced c u d) :
    u = .between u.kind u.value (spaced || gap inSnippet groups c != 0) u.segments
      (c.forward (gap inSnippet groups c)) d := by
  obtain ⟨-⟩ := h
  rfl

namespace Lexes

lemma ahead (h : Lexes limit s us t) : s.cursor.Ahead t.cursor := by
  induction h with
  | nil s => exact ⟨0, Nat.zero_le _, rfl⟩
  | cons h hu _ ih =>
    exact ((textToken_cut h hu).1.before (SnippetAt.moves _)).ahead.trans ih

/-- The open groups behind some tokens. -/
lemma groups (h : Lexes limit s us t) :
    t.groups = us.foldl (fun groups u => groupsAfter u groups) s.groups := by
  induction h with
  | nil => rfl
  | cons h hu _ ih => rw [ih, (textToken_cut h hu).2.1, List.foldl_cons]

lemma placed (h : Lexes limit s us t) : ∀ u ∈ us, u.Placed s.cursor.pos t.cursor.pos := by
  induction h with
  | nil => simp
  | cons h hu hs ih =>
    have hcut := (textToken_cut h hu).1
    have hb := hcut.before (SnippetAt.moves _)
    rw [List.forall_mem_cons]
    exact ⟨(hcut.placed (SnippetAt.moves _) (SnippetAt.places _)).mono (Nat.le_refl _)
        hs.ahead.pos_le,
      fun v hv => (ih v hv).mono hb.ahead.pos_le (Nat.le_refl _)⟩

lemma ne_eof (h : Lexes limit s us t) : ∀ u ∈ us, u.kind ≠ .eof := by
  induction h with
  | nil => simp
  | cons _ hu _ ih => exact List.forall_mem_cons.mpr ⟨hu, ih⟩

/-- The last token ends where the lexer stands. -/
lemma stop (h : Lexes limit s us t) (hu : us.getLast? = some u) : u.stop = t.cursor.pos := by
  induction h with
  | nil => cases hu
  | @cons s t v u' us h hk hs ih =>
    cases us with
    | nil =>
      cases hs
      cases hu
      exact (textToken_cut h hk).1.stop
    | cons w ws => exact ih (by simpa using hu)

lemma split (h : Lexes limit s (us ++ vs) v) : ∃ t, Lexes limit s us t ∧ Lexes limit t vs v := by
  induction us generalizing s with
  | nil => exact ⟨s, .nil s, h⟩
  | cons u us ih =>
    cases h with
    | cons h hu hs =>
      obtain ⟨t, h1, h2⟩ := ih hs
      exact ⟨t, .cons h hu h1, h2⟩

end Lexes

/-! ### In another text -/

/-- The token of a mark is the mark and nothing else. -/
lemma Cut.mark {R : SnippetRel} {inSnippet spaced : Bool} {groups : List Token} {c d : Cursor}
    (h : Cut R inSnippet groups spaced c u d) (hu : u.kind.isSeparator = true) :
    ∃ y k, IsMark y ∧ (c.forward (gap inSnippet groups c)).rest = y :: k
      ∧ d = c.forward (gap inSnippet groups c + 1)
      ∧ ∀ e : Cursor, (∃ l, e.rest = y :: l) → Lexeme R e u.kind u.value u.segments (e.forward 1) := by
  obtain ⟨h⟩ := h
  rw [Cursor.forward_add]
  have hop : ∀ o ∈ TokenKind.operators, o.2.isSeparator = true → o = (";", .semicolon) := by
    decide
  have hkey : ∀ o ∈ TokenKind.keywords, o.2.isSeparator = false := by decide
  cases h with
  | lineEnd h => exact ⟨_, _, .inl rfl, h, rfl, fun e he => .lineEnd he.choose_spec⟩
  | comment => cases hu
  | word =>
    exfalso
    rcases wordKind_or (c.forward (gap inSnippet groups c)).past
      (String.ofList ((c.forward (gap inSnippet groups c)).rest.take
        (Scan.wordLength (c.forward (gap inSnippet groups c)).rest)))
      ((c.forward (gap inSnippet groups c)).rest.drop
        (Scan.wordLength (c.forward (gap inSnippet groups c)).rest)) with hw | hw | hw
    · rw [Token.between, hw.1] at hu
      cases hu
    · rw [Token.between, hw] at hu
      cases hu
    · have := hkey _ hw
      rw [Token.between, this] at hu
      cases hu
  | number => cases hu
  | string => cases hu
  | operator h =>
    obtain ⟨hmem, k, hk⟩ := Scan.operator?_inv h
    cases hop _ hmem hu
    refine ⟨';', k, .inr rfl, hk, rfl, fun e he => ?_⟩
    obtain ⟨l, hl⟩ := he
    have hlex : Lexeme R e .semicolon ";" [] (e.forward ";".length) :=
      .operator (by rw [hl, operator?_semicolon])
    exact hlex

/-- The token of the mark is the same in both texts. -/
lemma Cut.twin_mark {R : SnippetRel} {inSnippet spaced : Bool} {groups : List Token}
    {c c' d : Cursor} {w : List Char} {x : Char} (hx : IsMark x)
    (h : Cut R inSnippet groups spaced c u d) (hu : u.kind.isSeparator = true)
    (ht : Twin w x c c') (hd : d.pos = c.pos + w.length + 1) :
    Cut R inSnippet groups spaced c' u (c'.forward (w.length + 1)) := by
  obtain ⟨y, k, -, hk, hd', hlex⟩ := h.mark hu
  obtain ⟨k0, h0⟩ := ht.rest
  obtain ⟨k1, h1⟩ := ht.rest'
  have hle : gap inSnippet groups c + 1 ≤ c.rest.length := by
    rw [Cursor.rest_forward] at hk
    have := congrArg List.length hk
    rw [List.length_drop, List.length_cons] at this
    omega
  have hgapw : gap inSnippet groups c = w.length := by
    rw [hd', Cursor.pos_forward hle] at hd
    omega
  have hgap := ht.gap_eq hx (Nat.le_of_eq hgapw)
  have hplace := ht.forward (Nat.le_of_eq hgapw)
  obtain ⟨l, hl⟩ := hplace.rest'
  obtain ⟨l0, hl0⟩ := hplace.rest
  have hy : y = x := by
    rw [hk, hgapw, List.drop_length] at hl0
    exact (List.cons.inj hl0).1
  subst hy
  rw [hgapw, List.drop_length, List.nil_append] at hl
  have hcut : Cut R inSnippet groups spaced c' _ _ :=
    .mk (hlex (c'.forward (gap inSnippet groups c')) ⟨l, by rw [hgap, hgapw, hl]⟩)
  rw [← Cursor.forward_add, hgap] at hcut
  have hstop : (c'.forward (gap inSnippet groups c + 1)).pos = d.pos := by
    rw [Cursor.pos_forward (by rw [h1, List.length_append, List.length_cons]; omega), ht.pos, hd]
    omega
  have hsame : Token.between u.kind u.value (spaced || gap inSnippet groups c != 0) u.segments
      (c'.forward (gap inSnippet groups c)) (c'.forward (gap inSnippet groups c + 1)) = u := by
    have hplace' := ht.forward (Nat.le_of_eq hgapw)
    refine Eq.trans ?_ h.eq_between.symm
    simp only [Token.between, hplace'.line, hplace'.col, hplace'.pos, hstop]
  rwa [hsame, hgapw] at hcut

/-- A token of the relation is read. -/
lemma textToken_of_cut {d : Cursor}
    (h : Cut (TextSnippet limit) false s.groups s.spaced s.cursor u d) :
    ∃ t, textToken limit s = .ok u t ∧ u.kind ≠ .eof ∧ t.cursor = d
      ∧ t.groups = groupsAfter u s.groups ∧ t.spaced = u.kind.endsLine := by
  obtain ⟨t, ht, hd, hg, hs⟩ :=
    nextToken_of_cut (readsSnippets limit limit.toNat) (SnippetAt.moves _) h
  obtain ⟨hl⟩ := h
  exact ⟨t, ht, hl.plain.1, hd, hg, hs⟩

/-- Leading tokens before the mark are the same in both texts. -/
lemma Lexes.twin {w : List Char} {x : Char} {s' : Lexer} (hx : IsMark x)
    (h : Lexes limit s us t) (ht : Twin w x s.cursor s'.cursor) (hg : s'.groups = s.groups)
    (hs : s'.spaced = s.spaced) (hd : t.cursor.pos ≤ s.cursor.pos + w.length) :
    ∃ t', Lexes limit s' us t' ∧ t'.groups = t.groups ∧ t'.spaced = t.spaced
      ∧ ∃ v, Twin v x t.cursor t'.cursor
        ∧ t.cursor.pos + v.length = s.cursor.pos + w.length := by
  induction h generalizing w s' with
  | nil s => exact ⟨s', .nil s', hg, hs, w, ht, rfl⟩
  | @cons s t v u us h hu hmore ih =>
    obtain ⟨hcut, hgroups, hspaced⟩ := textToken_cut h hu
    have hle := hmore.ahead.pos_le
    obtain ⟨n, hn, hcur, hcut'⟩ :=
      hcut.twin (SnippetAt.moves _) (SnippetAt.steady hx _) hx ht (Nat.le_trans hle hd)
    rw [← hg, ← hs] at hcut'
    obtain ⟨t', ht', -, hd', hg', hs'⟩ := textToken_of_cut hcut'
    have hpos := Cursor.pos_forward (ht.le_rest hn).1
    rw [hcur] at hpos
    have htwin := ht.forward hn
    rw [hcur, ← hd'] at htwin
    obtain ⟨v', hv', hvg, hvs, z, hz, hlen⟩ := ih htwin (by rw [hg', hgroups, hg])
      (by rw [hs', hspaced]) (by rw [List.length_drop]; omega)
    refine ⟨v', .cons ht' hu hv', hvg, hvs, z, hz, ?_⟩
    rw [List.length_drop] at hlen
    omega

/-- Leading tokens up to and including the mark are the same in both texts. -/
lemma Lexes.twin_mark {w : List Char} {x : Char} {s' : Lexer} (hx : IsMark x)
    (h : Lexes limit s (us ++ [u]) t) (hu : u.kind.isSeparator = true)
    (ht : Twin w x s.cursor s'.cursor) (hg : s'.groups = s.groups)
    (hs : s'.spaced = s.spaced) (hd : t.cursor.pos = s.cursor.pos + w.length + 1) :
    ∃ t', Lexes limit s' (us ++ [u]) t' ∧ t'.groups = t.groups
      ∧ t'.cursor.pos = t.cursor.pos := by
  obtain ⟨v, hlead, hlast⟩ := h.split
  cases hlast with
  | @cons _ t' _ _ _ hlast hne hnil =>
    cases hnil
    obtain ⟨hcut, hgroups, -⟩ := textToken_cut hlast hne
    have hlt := (hcut.before (SnippetAt.moves _)).lt
    obtain ⟨v', hlead', hg', hs', z, hz, hlen⟩ := hlead.twin hx ht hg hs (by omega)
    have hcut' := hcut.twin_mark hx hu hz (by omega)
    rw [← hg', ← hs'] at hcut'
    obtain ⟨t', ht', -, hd', hgt, -⟩ := textToken_of_cut hcut'
    refine ⟨t', hlead'.trans (.cons ht' hne (.nil t')), by rw [hgt, hgroups, hg'], ?_⟩
    obtain ⟨k, hk⟩ := hz.rest'
    rw [hd', Cursor.pos_forward (by rw [hk, List.length_append, List.length_cons]; omega), hz.pos]
    omega

end

end StpLang
