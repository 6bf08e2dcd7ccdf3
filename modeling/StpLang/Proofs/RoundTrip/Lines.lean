import StpLang.Proofs.Layout.Statement
import StpLang.Proofs.RoundTrip.Word

/-!
Text that is read as tokens on several lines.

No parenthesis and no bracket is open from one line to the next, so that each line
is read by itself and the comments stay among the tokens.

* `Lined` says which tokens stand between two places of a text.
* `Recounts` says that a text is read as tokens with a property wherever it stands.
* `Recounts.append` puts texts together.
-/

namespace StpLang

open Lexer StpLang.Parser

/-- Outside of groups the tokens `us` are read from one place to another, and none
of them is set aside. -/
structure Lined (limit : Int) (s : Spot) (us : List Token) (t : Spot) : Prop where
  balanced : Balanced us
  last : lastKind s.last us = t.last
  lexes : ∀ x : Lexer, x.cursor = s.cursor → x.groups = [] → x.spaced = s.spaced →
    ∃ vs y, Lexes limit x vs y ∧ y.cursor = t.cursor ∧ y.spaced = t.spaced
      ∧ settle 0 s.last vs = (us, [])

section

variable {limit : Int} {s t u : Spot} {us vs : List Token} {k : List Char}

/-- Tokens that are read are balanced as those which they become. -/
lemma groups_of_settle {x y : Lexer} {last : Option TokenKind} (h : Lexes limit x vs y)
    (hx : x.groups = []) (hs : settle 0 last vs = (us, [])) (hb : Balanced us) :
    y.groups = [] ∧ depthBehind 0 vs = 0 := by
  constructor
  · rw [h.groups, hx]
    have := groups_settle 0 last vs []
    rw [hs, hb.groups (by simp)] at this
    exact this.symm
  · have := depth_settle 0 last vs 0
    rw [hs, hb.depth] at this
    exact this.symm

lemma Lined.trans (h : Lined limit s us t) (h' : Lined limit t vs u) :
    Lined limit s (us ++ vs) u := by
  refine ⟨h.balanced.append h'.balanced, ?_, fun x hc hg hs => ?_⟩
  · rw [lastKind_append, h.last, h'.last]
  · obtain ⟨xs, y, hxs, hyc, hys, hsettle⟩ := h.lexes x hc hg hs
    obtain ⟨hyg, hdepth⟩ := groups_of_settle hxs hg hsettle h.balanced
    obtain ⟨ys, z, hlex, hzc, hzs, hsettle'⟩ := h'.lexes y hyc hyg hys
    refine ⟨xs ++ ys, z, hxs.trans hlex, hzc, hzs, ?_⟩
    rw [settle_append, hsettle, hdepth, h.last, hsettle']
    rfl

lemma Lined.nil (s : Spot) : Lined limit s [] s :=
  ⟨.nil, rfl, fun x hc _ hs => ⟨[], x, .nil x, hc, hs, rfl⟩⟩

/-- The last token of those on a line. -/
lemma Held.last {n : Nat} (h : Held n s us t) : lastKind s.last us = t.last := by
  induction h with
  | nil => rfl
  | token _ _ _ _ _ ih => exact ih

/-- The tokens on a line are read. -/
lemma Held.lexes (h : Held limit.toNat s us t) {x : Lexer} (hc : x.cursor = s.cursor)
    (hs : x.spaced = s.spaced) :
    ∃ vs y, Lexes limit x vs y ∧ y.cursor = t.cursor ∧ y.spaced = t.spaced
      ∧ ∀ depth, settle depth s.last vs = (us, []) := by
  induction h generalizing x with
  | nil => exact ⟨[], x, .nil x, hc, hs, fun _ => rfl⟩
  | @token s t us m y k kind value segs d hrest hy h hline _ ih =>
    have hcut : Cut (TextSnippet limit) false x.groups x.spaced x.cursor
        (.between kind value (s.spaced || m != 0) segs (s.cursor.forward m) d) d := by
      rw [hc, hs]
      exact cut_of_blanks hrest hy h
    obtain ⟨v, hv, hne, hd, -, hspaced⟩ := textToken_of_cut hcut
    obtain ⟨vs, z, hlex, hzc, hzs, hsettle⟩ := ih hd (hspaced.trans hline)
    refine ⟨_ :: vs, z, .cons hv hne hlex, hzc, hzs, fun depth => ?_⟩
    rw [settle_cons, keptToken?_between (.inr hline)]
    dsimp only
    rw [show (Token.between (kind.settled s.last) value (s.spaced || m != 0) segs
      (s.cursor.forward m) d).kind = kind.settled s.last from rfl, hsettle]

lemma Held.lined (h : Held limit.toNat s us t) (hb : Balanced us) : Lined limit s us t := by
  refine ⟨hb, h.last, fun x hc _ hs => ?_⟩
  obtain ⟨vs, y, hlex, hyc, hys, hsettle⟩ := h.lexes hc hs
  exact ⟨vs, y, hlex, hyc, hys, hsettle 0⟩

/-- A token that ends a line. -/
lemma Lined.one {kind : TokenKind} {value : String} {b : Bool} {c d : Cursor}
    (h : Cut (TextSnippet limit) false [] s.spaced s.cursor (.between kind value b [] c d) d)
    (hk : kind = .newline ∨ kind = .comment) :
    Lined limit s [.between kind value b [] c d] ⟨d, true, some kind⟩ := by
  have hkind : kind.isInner = true ∧ kind.endsLine = true ∧ kind.settled s.last = kind := by
    rcases hk with rfl | rfl <;> exact ⟨rfl, rfl, TokenKind.settled_eq (by decide) _⟩
  refine ⟨.one rfl hkind.1 .nil, rfl, fun x hc hg hs => ?_⟩
  rw [← hc, ← hg, ← hs] at h
  obtain ⟨y, hy, hne, hd, -, hspaced⟩ := textToken_of_cut h
  refine ⟨_, y, .cons hy hne (.nil y), hd, hspaced.trans hkind.2.1, ?_⟩
  rw [settle_cons, keptToken?_between (.inl rfl), hkind.2.2]
  rfl

end

/-! ### Texts -/

/-- Before any text with `K`, and behind a last token with `S`, the text `v` is
read as tokens with `P` outside of groups. -/
def Recounts (limit : Int) (S : Option TokenKind → Prop) (K : List Char → Prop) (v : List Char)
    (P : List Token → Prop) : Prop :=
  ∀ (s : Spot) (k : List Char), S s.last → s.cursor.rest = v ++ k → K k →
    ∃ us t, P us ∧ Lined limit s us t ∧ t.cursor = s.cursor.forward v.length

section

variable {limit : Int} {S S' : Option TokenKind → Prop} {K K' : List Char → Prop}
  {v w : List Char} {P Q : List Token → Prop}

lemma Recounts.mono (h : Recounts limit S K v P) (hP : ∀ us, P us → Q us) :
    Recounts limit S K v Q := by
  intro s k hs hrest hk
  obtain ⟨us, t, hus, hlined⟩ := h s k hs hrest hk
  exact ⟨us, t, hP us hus, hlined⟩

/-- The context may be known better. -/
lemma Recounts.weaken (h : Recounts limit S K v P) (hS : ∀ last, S' last → S last)
    (hK : ∀ k, K' k → K k) : Recounts limit S' K' v P :=
  fun s k hs hrest hk => h s k (hS _ hs) hrest (hK k hk)

/-- One text behind another. -/
lemma Recounts.append (h : Recounts limit S K v P) (h' : Recounts limit S' K' w Q)
    (hS : ∀ us last, P us → S' (lastKind last us)) (hK : ∀ k, K' k → K (w ++ k)) :
    Recounts limit S K' (v ++ w) fun us => ∃ xs ys, us = xs ++ ys ∧ P xs ∧ Q ys := by
  intro s k hs hrest hk
  rw [List.append_assoc] at hrest
  obtain ⟨xs, t, hxs, hlined, hcursor⟩ := h s (w ++ k) hs hrest (hK k hk)
  have hrest' : t.cursor.rest = w ++ k := by
    rw [hcursor, Cursor.rest_forward, hrest, List.drop_left]
  obtain ⟨ys, u, hys, hlined', hcursor'⟩ := h' t k (hlined.last ▸ hS xs s.last hxs) hrest' hk
  refine ⟨xs ++ ys, u, ⟨xs, ys, rfl, hxs, hys⟩, hlined.trans hlined', ?_⟩
  rw [hcursor', hcursor, List.length_append, Cursor.forward_add]

/-- No text holds no tokens. -/
lemma recounts_nil : Recounts limit S K [] (· = []) :=
  fun s _ _ _ _ => ⟨[], s, rfl, .nil s, rfl⟩

/-- Text on one line. -/
lemma Tells.recounts {R : Bool → List Token → Prop} (limit : Int) (h : Tells limit.toNat S K v R)
    (hb : ∀ b us, R b us → Balanced us) : Recounts limit S K v fun us => ∃ b, R b us := by
  intro s k hs hrest hk
  obtain ⟨us, hus, -, hheld⟩ := h s k hs hrest hk
  exact ⟨us, _, ⟨_, hus⟩, hheld.lined (hb _ us hus), rfl⟩

/-- The end of a line. -/
lemma recounts_lineEnd (limit : Int) :
    Recounts limit S K ['\n'] fun us => ∃ t, us = [t] ∧ t.kind = .newline := by
  intro s k _ hrest _
  have hgap : gap false [] s.cursor = 0 := by
    rw [gap, hrest]
    rfl
  have hcut : Cut (TextSnippet limit) false [] s.spaced s.cursor
      (.between .newline "\n" (s.spaced || gap false [] s.cursor != 0) []
        (s.cursor.forward (gap false [] s.cursor)) (s.cursor.forward 1)) (s.cursor.forward 1) := by
    refine .mk ?_
    rw [hgap]
    exact .lineEnd hrest
  exact ⟨_, _, ⟨_, rfl, rfl⟩, .one hcut (.inl rfl), rfl⟩

/-- A comment ends its line. -/
lemma recounts_comment {text : String} (h : isRemark text = true) (m : Nat) :
    Recounts limit S EndsLine (List.replicate m ' ' ++ text.toList)
      fun us => ∃ t, us = [t] ∧ t.kind = .comment ∧ t.value = text := by
  intro s k _ hrest hk
  have hspells : Spells (SnippetSpelled limit.toNat) .comment text [] := spells_comment_iff.mpr h
  obtain ⟨w, rfl, hplain, htrim⟩ := hspells.comment_inv
  rw [String.toList_ofList] at hrest ⊢
  rw [List.append_assoc] at hrest
  have hbehind : (s.cursor.forward m).rest = '#' :: w ++ k := by
    rw [Cursor.rest_forward, hrest, List.drop_left' List.length_replicate]
  have hlex := lexeme_comment (n := limit.toNat) hplain htrim hk hbehind
  refine ⟨_, _, ⟨_, rfl, rfl, rfl⟩, .one (cut_of_blanks hrest rfl hlex) (.inr rfl), ?_⟩
  rw [List.length_append, List.length_replicate, Cursor.forward_add]

end

end StpLang
