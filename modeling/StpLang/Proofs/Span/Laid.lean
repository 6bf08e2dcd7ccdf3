import StpLang.Proofs.Lex.Spelled
import StpLang.Proofs.Lex.Tiled

/-!
The tokens of the grammar in their text.

The grammar is given the tokens of a text without the comments in groups. What
is left still follows each other in the text, and a token without white space
before it stands directly behind the one before.

* `Token.Sits` is what a token says about the text around it.
* `Laid` says that tokens follow each other between two offsets.
* `laid_settle`: tokens that tile a text are laid out when they are prepared.
-/

namespace StpLang

/-- The token stands in the text, it is spelled as its kind demands, and the
tokens of its snippets tile them. -/
structure Token.Sits (cs : List Char) (t : Token) : Prop where
  stands : t.Stands cs
  spelled : t.kind ≠ .eof → ∃ n, t.Spelled n
  snippets : ∀ seg ∈ t.segments, ∀ us, seg.form = .snippet us →
    Tiled cs true [] none (seg.start + 2) us (seg.stop - 2)

/-- The tokens follow each other from the offset `lo` on, and the last one ends
at `hi`. A token without white space before it touches the one before, unless it
is an end mark. -/
inductive Laid (cs : List Char) : (lo : Nat) → List Token → (hi : Nat) → Prop
  | nil {lo : Nat} : Laid cs lo [] lo
  | cons {lo hi : Nat} {t : Token} {ts : List Token} (order : lo ≤ t.start)
      (near : t.spaced = false → t.start = lo ∨ t.kind = .eof) (sits : t.Sits cs)
      (more : Laid cs t.stop ts hi) : Laid cs lo (t :: ts) hi

namespace Laid

variable {cs : List Char} {lo hi : Nat} {t : Token} {ts us : List Token}

lemma le (h : Laid cs lo ts hi) : lo ≤ hi := by
  induction h with
  | nil => exact Nat.le_refl _
  | cons order _ sits _ ih =>
    have := sits.stands.place.order
    omega

/-- The layout of two sequences of tokens, one after the other. -/
lemma split (h : Laid cs lo (ts ++ us) hi) : ∃ mid, Laid cs lo ts mid ∧ Laid cs mid us hi := by
  induction ts generalizing lo with
  | nil => exact ⟨lo, .nil, h⟩
  | cons t ts ih =>
    cases h with
    | cons order near sits more =>
      obtain ⟨mid, hts, hus⟩ := ih more
      exact ⟨mid, .cons order near sits hts, hus⟩

lemma append {mid : Nat} (h : Laid cs lo ts mid) (h' : Laid cs mid us hi) :
    Laid cs lo (ts ++ us) hi := by
  induction h with
  | nil => exact h'
  | cons order near sits _ ih => exact .cons order near sits (ih h')

/-- The first token starts where it says. -/
lemma from_start (h : Laid cs lo (t :: ts) hi) : Laid cs t.start (t :: ts) hi := by
  cases h with
  | cons _ _ sits more => exact .cons (Nat.le_refl _) (fun _ => .inl rfl) sits more

lemma lastStop_eq (h : Laid cs lo ts hi) (hne : ts ≠ []) : lastStop ts = hi := by
  induction h with
  | nil => exact absurd rfl hne
  | @cons lo hi t ts _ _ _ more ih =>
    cases ts with
    | nil =>
      cases more
      rfl
    | cons u us => simpa [lastStop] using ih (List.cons_ne_nil u us)

lemma mem (h : Laid cs lo ts hi) (ht : t ∈ ts) : t.Sits cs ∧ lo ≤ t.start ∧ t.stop ≤ hi := by
  induction h with
  | nil => cases ht
  | cons order _ sits more ih =>
    rcases List.mem_cons.mp ht with rfl | ht
    · exact ⟨sits, order, more.le⟩
    · obtain ⟨hs, hlo, hhi⟩ := ih ht
      have := sits.stands.place.order
      exact ⟨hs, by omega, hhi⟩

lemma inside (h : Laid cs lo ts hi) (hlo : lo ≤ cs.length) : hi ≤ cs.length := by
  cases hne : ts with
  | nil =>
    subst hne
    cases h
    exact hlo
  | cons t us =>
    have hlast := h.lastStop_eq (by rw [hne]; exact List.cons_ne_nil t us)
    obtain ⟨u, hu⟩ := Option.ne_none_iff_exists'.mp
      (show ts.getLast? ≠ none by rw [hne, Ne, List.getLast?_eq_none_iff]; simp)
    obtain ⟨hs, -, -⟩ := h.mem (List.mem_of_getLast? hu)
    rw [← hlast, lastStop, hu]
    exact hs.stands.place.inside

end Laid

/-! ### The prepared tokens -/

section

variable {cs : List Char} {t u : Token} {ts : List Token}

/-- A `mod` that is a name is spelled and placed as before. -/
lemma Token.Stands.identifier_of_mod (h : t.Stands cs) (hk : t.kind = .mod) :
    Token.Stands cs { t with kind := .identifier } := by
  have hvalue := h.value
  have hempty := h.empty
  rw [if_neg (by rw [hk]; decide)] at hvalue
  refine ⟨h.place, ?_, iff_of_false (by rintro ⟨⟩) ?_, fun _ => h.plain (by rw [hk]; decide), ?_⟩
  · rw [if_neg (by rintro ⟨⟩)]
    exact hvalue
  · exact fun he => absurd (hempty.mpr he) (by rw [hk]; decide)
  · rintro ⟨⟩

lemma Token.Sits.kept {depth : Nat} {last : Option TokenKind} (h : t.Sits cs)
    (hk : keptToken? depth last t = some u) : u.Sits cs := by
  rcases keptToken?_some hk with rfl | ⟨hmod, rfl⟩
  · exact h
  · refine ⟨h.stands.identifier_of_mod hmod, fun _ => ?_, h.snippets⟩
    obtain ⟨n, hn⟩ := h.spelled (by rw [hmod]; decide)
    exact ⟨n, Spells.identifier_of_mod (by rw [← hmod]; exact hn)⟩

/-- Where a token starts and ends does not depend on what it is kept as. -/
lemma keptToken?_place {depth : Nat} {last : Option TokenKind}
    (hk : keptToken? depth last t = some u) :
    u.start = t.start ∧ u.stop = t.stop ∧ u.spaced = t.spaced := by
  rcases keptToken?_some hk with rfl | ⟨-, rfl⟩ <;> exact ⟨rfl, rfl, rfl⟩

/-- Tokens that tile a text are laid out when they are prepared. White space is
noted before the token behind a comment, so that no token touches one that was
set aside. -/
lemma laid_settle {inSnippet : Bool} {groups : List Token} {before last : Option TokenKind}
    {lo lo' hi : Nat} (h : Tiled cs inSnippet groups before lo ts hi)
    (hs : ∀ t ∈ ts, t.kind ≠ .eof → ∃ n, t.Spelled n) (hlo : lo' ≤ lo)
    (hnear : before ≠ some .comment → lo' = lo) (depth : Nat) :
    ∃ hi', hi' ≤ hi ∧ Laid cs lo' (Parser.settle depth last ts).1 hi' := by
  induction ts generalizing groups before last lo lo' depth with
  | nil =>
    cases h
    exact ⟨lo', hlo, .nil⟩
  | cons t ts ih =>
    cases h with
    | cons order space stands spaced snippets more =>
      rw [List.forall_mem_cons] at hs
      have hplace := stands.place.order
      rw [settle_cons]
      cases hk : keptToken? depth last t with
      | none =>
        exact ih more hs.2 (by omega) (fun hne => absurd (by rw [keptToken?_none hk]) hne) _
      | some u =>
        obtain ⟨hstart, hstop, hspaced⟩ := keptToken?_place hk
        obtain ⟨hi', hle, hlaid⟩ := ih more hs.2 (Nat.le_refl _) (fun _ => rfl) _
        refine ⟨hi', hle, .cons (by omega) ?_ (Token.Sits.kept ⟨stands, hs.1, snippets⟩ hk) ?_⟩
        · rw [hspaced, hstart]
          intro hfalse
          have hno := mt spaced.mpr (by rw [hfalse]; exact Bool.false_ne_true)
          simp only [not_or, Nat.not_lt] at hno
          have := hnear hno.2.2.1
          exact .inl (by omega)
        · rw [hstop]
          exact hlaid

end

end StpLang
