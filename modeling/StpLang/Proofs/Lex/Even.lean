import StpLang.Proofs.Lex.Whole

/-!
What the lexer does not look at.

Reading does not depend on the log. White space right behind the start of
reading shows only in the first token. So reading a text from a place on gives
the tokens that reading the whole text gives from there, but for the white
space before the first of them.

* `Blind` says that a step does not look at the log, and perhaps not at the white
  space right behind.
* `lexFrom_even` compares two readings from one place.
-/

namespace StpLang

open Lexer

/-- A token without regard to the white space before it. -/
def Token.unspaced (t : Token) : Token := { t with spaced := false }

lemma Token.fields_of_unspaced {t t' : Token} (h : t'.unspaced = t.unspaced) :
    t'.kind = t.kind ∧ t'.value = t.value ∧ t'.span = t.span := by
  obtain ⟨kind, value, line, col, start, stop, spaced, segments⟩ := t
  obtain ⟨kind', value', line', col', start', stop', spaced', segments'⟩ := t'
  simp only [unspaced, mk.injEq, true_and] at h
  simp [span, h]

/-- The lexers stand at one place within the same groups, and `exact` also behind
the same white space. -/
structure Even (exact : Bool) (s s' : Lexer) : Prop where
  cursor : s'.cursor = s.cursor
  groups : s'.groups.map Token.unspaced = s.groups.map Token.unspaced
  spaced : exact = true → s'.spaced = s.spaced

/-- Two results agree on what was read, or on the error. -/
inductive Agree {α : Type} (exact : Bool) :
    EStateM.Result Error Lexer α → EStateM.Result Error Lexer α → Prop
  | ok {a : α} {t t' : Lexer} (h : Even exact t t') : Agree exact (.ok a t) (.ok a t')
  | error {e : Error} {t t' : Lexer} : Agree exact (.error e t) (.error e t')

/-- A step does not look at the log, and unless `exact` not at the white space
right behind. -/
structure Blind {α : Type} (exact : Bool) (f : Lex α) : Prop where
  run : ∀ {s s'}, Even exact s s' → Agree exact (f s) (f s')

section

variable {α β : Type} {exact : Bool} {f : Lex α} {g : α → Lex β} {s s' : Lexer}

namespace Blind

lemma pure (a : α) : Blind exact (pure a : Lex α) := ⟨fun h => .ok h⟩

lemma fail (e : Error) : Blind exact (throw e : Lex α) := ⟨fun _ => .error⟩

lemma bind (hf : Blind exact f) (hg : ∀ a, Blind exact (g a)) : Blind exact (f >>= g) := by
  refine ⟨fun {s s'} h => ?_⟩
  cases hs : f s with
  | ok a t =>
    have hr := hf.run h
    rw [hs] at hr
    generalize hs' : f s' = r' at hr
    cases hr with
    | ok ht =>
      rw [bind_ok hs, bind_ok hs']
      exact (hg a).run ht
  | error e t =>
    have hr := hf.run h
    rw [hs] at hr
    generalize hs' : f s' = r' at hr
    cases hr with
    | error =>
      rw [bind_error hs, bind_error hs']
      exact .error

lemma cursorHere_bind {g : Cursor → Lex β} (hg : ∀ c, Blind exact (g c)) :
    Blind exact (cursorHere >>= g) := by
  refine ⟨fun {s s'} h => ?_⟩
  rw [run_cursorHere, run_cursorHere, h.cursor]
  exact (hg _).run h

lemma skip (n : Nat) : Blind exact (skip n) :=
  ⟨fun h => .ok ⟨congrArg (Cursor.forward n) h.cursor, h.groups, h.spaced⟩⟩

lemma ite {c : Prop} [Decidable c] {f' : Lex α} (hf : Blind exact f) (hf' : Blind exact f') :
    Blind exact (if c then f else f') := by
  split
  · exact hf
  · exact hf'

end Blind

/-! ### Strings -/

lemma blind_segment (form : SegmentForm Token) (c : Cursor) : Blind exact (segment form c) :=
  .cursorHere_bind fun _ => .pure _

lemma blind_plainRun : Blind exact plainRun :=
  .cursorHere_bind fun _ => (Blind.skip _).bind fun _ => blind_segment _ _

lemma blind_unicodeEscape (c : Cursor) : Blind exact (unicodeEscape c) := by
  refine (Blind.skip 1).bind fun _ => .cursorHere_bind fun d => ?_
  dsimp only
  split
  · exact (Blind.skip _).bind fun _ => .pure _
  · exact .fail _

lemma blind_octalEscape (c : Cursor) : Blind exact (octalEscape c) :=
  .cursorHere_bind fun _ => (Blind.skip _).bind fun _ =>
    .ite (.pure _) (.cursorHere_bind fun _ => .fail _)

variable {snippet : Lex (List Token)}

lemma blind_escape (hs : Blind exact snippet) : Blind exact (escape snippet) := by
  refine .cursorHere_bind fun c => (Blind.skip 1).bind fun _ => .cursorHere_bind fun d => ?_
  cases d.rest with
  | nil => exact .fail _
  | cons x k =>
    refine Blind.bind ?_ fun form => blind_segment form c
    exact .ite ((Blind.skip 1).bind fun _ => .pure _) <| .ite (blind_unicodeEscape c) <|
      .ite (blind_octalEscape c) <|
      .ite ((Blind.skip 1).bind fun _ => hs.bind fun _ => .pure _) <| .ite (.fail _) (.fail _)

lemma blind_stringSegments (hs : Blind exact snippet) (bound : Nat) :
    Blind exact (stringSegments snippet bound) := by
  induction bound with
  | zero => exact .cursorHere_bind fun _ => .fail _
  | succ bound ih =>
    refine .cursorHere_bind fun c => ?_
    split
    · exact .fail _
    · exact (Blind.skip 1).bind fun _ => .pure _
    · exact (blind_escape hs).bind fun _ => ih.bind fun _ => .pure _
    · exact blind_plainRun.bind fun _ => ih.bind fun _ => .pure _

/-! ### Tokens -/

/-- Two results agree on the token that was read, but for the white space before
it unless `exact`. -/
inductive AgreeToken (exact : Bool) :
    EStateM.Result Error Lexer Token → EStateM.Result Error Lexer Token → Prop
  | ok {u : Token} {t t' : Lexer} (b : Bool) (hb : exact = true → b = u.spaced)
      (h : Even true t t') : AgreeToken exact (.ok u t) (.ok { u with spaced := b } t')
  | error {e : Error} {t t' : Lexer} : AgreeToken exact (.error e t) (.error e t')

lemma Even.pastBlanks (h : Even exact s s') (inSnippet : Bool) :
    Even exact (pastBlanks inSnippet s) (pastBlanks inSnippet s') := by
  have hempty : s'.groups.isEmpty = s.groups.isEmpty := by
    rw [← List.isEmpty_map (f := Token.unspaced), h.groups, List.isEmpty_map]
  have hgap : gap inSnippet s'.groups s'.cursor = gap inSnippet s.groups s.cursor := by
    simp only [gap, hempty, h.cursor]
  refine ⟨?_, h.groups, fun he => ?_⟩
  · show s'.cursor.forward (gap inSnippet s'.groups s'.cursor) = _
    rw [hgap, h.cursor]
    rfl
  · simp only [StpLang.pastBlanks, hgap, h.spaced he]

/-- The groups behind a token do not depend on white space. -/
lemma map_groupsAfter {u u' : Token} {gs gs' : List Token} (hu : u'.unspaced = u.unspaced)
    (h : gs'.map Token.unspaced = gs.map Token.unspaced) :
    (groupsAfter u' gs').map Token.unspaced = (groupsAfter u gs).map Token.unspaced := by
  have hkind : u'.kind = u.kind := (Token.fields_of_unspaced hu).1
  unfold groupsAfter
  rw [hkind]
  split
  · rw [List.map_cons, List.map_cons, hu, h]
  · cases gs with
    | nil =>
      obtain rfl : gs' = [] := by simpa using h
      rfl
    | cons g gs =>
      obtain ⟨g', gs', rfl⟩ : ∃ g' l, gs' = g' :: l := by
        cases gs' with
        | nil => cases h
        | cons g' l => exact ⟨g', l, rfl⟩
      rw [List.map_cons, List.map_cons, List.cons.injEq] at h
      have hg : g'.kind = g.kind := (Token.fields_of_unspaced h.1).1
      simp only [hg]
      split
      · exact h.2
      · rw [List.map_cons, List.map_cons, h.1, h.2]

/-- A step that reads a token does not look at the log, and unless `exact` passes
the white space right behind on to the token. -/
structure BlindToken (exact : Bool) (f : Lex Token) : Prop where
  run : ∀ {s s'}, Even exact s s' → AgreeToken exact (f s) (f s')

namespace BlindToken

variable {p : α → Lex Token}

lemma bind (hf : Blind exact f) (hp : ∀ a, BlindToken exact (p a)) :
    BlindToken exact (f >>= p) := by
  refine ⟨fun {s s'} h => ?_⟩
  have hr := hf.run h
  generalize hs : f s = r at hr
  generalize hs' : f s' = r' at hr
  cases hr with
  | ok ht =>
    rw [bind_ok hs, bind_ok hs']
    exact (hp _).run ht
  | error =>
    rw [bind_error hs, bind_error hs']
    exact .error

lemma cursorHere_bind {p : Cursor → Lex Token} (hp : ∀ c, BlindToken exact (p c)) :
    BlindToken exact (cursorHere >>= p) := by
  refine ⟨fun {s s'} h => ?_⟩
  rw [run_cursorHere, run_cursorHere, h.cursor]
  exact (hp _).run h

lemma fail (e : Error) : BlindToken exact (throw e) := ⟨fun _ => .error⟩

lemma emit (kind : TokenKind) (value : String) (c : Cursor) (segs : List (Segment Token)) :
    BlindToken exact (emit kind value c segs) := by
  refine ⟨fun {s s'} h => ?_⟩
  rw [run_emit, run_emit, h.cursor]
  exact .ok s'.spaced h.spaced ⟨rfl, h.groups, fun _ => rfl⟩

end BlindToken

lemma blind_operator (x : Char) : BlindToken exact (operator x) := by
  refine ⟨fun {s s'} h => ?_⟩
  rw [run_operator, run_operator, h.cursor]
  cases Scan.operator? s.cursor.rest with
  | none => exact .error
  | some o =>
    exact .ok s'.spaced h.spaced ⟨rfl, map_groupsAfter rfl h.groups, fun _ => rfl⟩

lemma blind_snippetClose (inSnippet : Bool) : BlindToken exact (snippetClose inSnippet) := by
  cases inSnippet with
  | false => exact ⟨fun {s s'} h => by
      show AgreeToken exact (.error _ _) (.error ⟨.strayClose, s'.cursor.here 2⟩ _)
      rw [h.cursor]
      exact .error⟩
  | true =>
    refine ⟨fun {s s'} h => ?_⟩
    obtain ⟨cursor, groups, spaced, trace⟩ := s
    obtain ⟨cursor', groups', spaced', trace'⟩ := s'
    obtain ⟨hc, hg, hs⟩ := h
    simp only at hc hg hs
    subst hc
    cases groups with
    | nil =>
      obtain rfl : groups' = [] := by simpa using hg
      exact .ok spaced' hs ⟨rfl, rfl, fun _ => rfl⟩
    | cons g gs =>
      cases groups' with
      | nil => cases hg
      | cons g' gs' =>
        rw [List.map_cons, List.map_cons, List.cons.injEq] at hg
        obtain ⟨-, hvalue, hspan⟩ := Token.fields_of_unspaced hg.1
        show AgreeToken exact (.error ⟨.groupOpenAtClose g.value, g.span⟩ _)
          (.error ⟨.groupOpenAtClose g'.value, g'.span⟩ _)
        rw [hvalue, hspan]
        exact .error

lemma blind_nextToken (inSnippet : Bool) (hs : Blind exact snippet) :
    BlindToken exact (nextToken inSnippet snippet) := by
  refine ⟨fun {s s'} h => ?_⟩
  have hp := h.pastBlanks inSnippet
  rw [run_nextToken, run_nextToken, hp.cursor]
  refine BlindToken.run ?_ hp
  split
  · refine .cursorHere_bind fun c => ?_
    split
    · exact .fail _
    · exact .emit _ _ _ _
  · exact .bind (.skip 1) fun _ => .emit _ _ _ _
  · exact .bind (.cursorHere_bind fun _ => (Blind.skip _).bind fun _ => .pure _) fun _ =>
      .emit _ _ _ _
  · exact blind_snippetClose inSnippet
  · exact .cursorHere_bind fun _ => .bind (.skip _) fun _ => .cursorHere_bind fun _ =>
      .emit _ _ _ _
  · exact .cursorHere_bind fun _ => .bind (.skip _) fun _ => .cursorHere_bind fun _ =>
      .emit _ _ _ _
  · exact .cursorHere_bind fun _ => .bind (.skip 1) fun _ =>
      .bind (blind_stringSegments hs _) fun _ => .cursorHere_bind fun _ => .emit _ _ _ _
  · exact blind_operator _

/-! ### Snippets -/

lemma BlindToken.blind {p : Lex Token} (h : BlindToken true p) : Blind true p := by
  refine ⟨fun {s s'} he => ?_⟩
  have hr := h.run he
  generalize p s = r at hr ⊢
  generalize p s' = r' at hr ⊢
  cases hr with
  | @ok u _ _ b hb ht =>
    cases u
    obtain rfl := hb rfl
    exact .ok ht
  | error => exact .error

lemma blind_snippetTokens {next : Lex Token} (h : Blind true next) (bound : Nat) :
    Blind true (snippetTokens next bound) := by
  induction bound with
  | zero => exact h.bind fun _ => .pure _
  | succ bound ih =>
    exact h.bind fun _ => .ite (.pure _) (ih.bind fun _ => .pure _)

lemma blind_within {g : Lex α} (h : Blind true g) : Blind exact (within g) := by
  refine ⟨fun {s s'} he => ?_⟩
  have hstart : Even true { cursor := s.cursor, trace := s.trace }
      { cursor := s'.cursor, trace := s'.trace } := ⟨he.cursor, rfl, fun _ => rfl⟩
  have hr := h.run hstart
  unfold within
  generalize g { cursor := s.cursor, trace := s.trace } = r at hr ⊢
  generalize g { cursor := s'.cursor, trace := s'.trace } = r' at hr ⊢
  cases hr with
  | ok ht => exact .ok ⟨ht.cursor, he.groups, he.spaced⟩
  | error => exact .error

lemma blind_readSnippet (limit : Int) (allowance : Nat) (exact : Bool) :
    Blind exact (readSnippet limit allowance) := by
  induction allowance generalizing exact with
  | zero =>
    refine ⟨fun {s s'} h => ?_⟩
    show Agree exact (.error _ _) (.error ⟨.snippetsTooDeep limit, s'.cursor.here⟩ _)
    rw [h.cursor]
    exact .error
  | succ n ih =>
    refine ⟨fun {s s'} h => ?_⟩
    rw [run_readSnippet, run_readSnippet, h.cursor]
    exact (blind_within (blind_snippetTokens (blind_nextToken true (ih true)).blind _)).run
      ⟨rfl, h.groups, h.spaced⟩

/-! ### Whole texts -/

/-- Two ways of cutting a text agree, but for the white space before the first
token. -/
structure AgreeLexed (exact : Bool) (l l' : Lexed) : Prop where
  tokens : if exact then l'.tokens = l.tokens else
    ∃ u us b, l.tokens = u :: us ∧ l'.tokens = { u with spaced := b } :: us
  fault : l'.fault = l.fault

/-- Reading on from one place. -/
theorem lexFrom_even (limit : Int) {s s' : Lexer} (h : Even exact s s') :
    AgreeLexed exact (lexFrom limit s) (lexFrom limit s') := by
  induction hlen : s.cursor.rest.length using Nat.strongRecOn generalizing s s' exact with
  | _ k ih =>
    have hr := (blind_nextToken false (blind_readSnippet limit limit.toNat exact)).run h
    change AgreeToken exact (textToken limit s) (textToken limit s') at hr
    generalize hs : textToken limit s = r at hr
    generalize hs' : textToken limit s' = r' at hr
    cases hr with
    | error =>
      rw [lexFrom_error hs, lexFrom_error hs', h.cursor]
      refine ⟨?_, rfl⟩
      split
      · rfl
      · exact ⟨_, _, false, rfl, rfl⟩
    | @ok u t t' b hb ht =>
      have hu : exact = true → { u with spaced := b } = u := fun he => by
        rw [hb he]
        cases u
        rfl
      by_cases hk : u.kind = .eof
      · rw [lexFrom_eof hs hk, lexFrom_eof hs' hk]
        refine ⟨?_, rfl⟩
        split
        · rename_i he
          rw [hu he]
        · exact ⟨u, [], b, rfl, rfl⟩
      · have hlt := textToken_lt hs hk
        obtain ⟨htokens, hfault⟩ := ih _ (hlen ▸ hlt) ht rfl
        rw [if_pos rfl] at htokens
        rw [lexFrom_cons hs hk, lexFrom_cons hs' hk]
        refine ⟨?_, hfault⟩
        split
        · rename_i he
          rw [Lexed.cons, Lexed.cons, hu he, htokens]
        · exact ⟨u, (lexFrom limit t).tokens, b, rfl, by rw [Lexed.cons, htokens]⟩

end

end StpLang
