import StpLang.Proofs.Lex.Tiled

/-!
Where the errors of the lexer lie.

The lexer blames a range of the text that it has before it: the character or the escape
at which it stands, an open group, or the end of the text. Each range names the line and
the column of its start, since the cursor does so wherever the lexer gets to.

* `Span.In` says that a range lies in a text and names its place, and `Error.Points` that
  an error does.
* `Blames` says that a step fails with such errors only, and `Blames.bind` puts steps in
  sequence.
* `Lexer.Sound` is the invariant of the lexer; `sound_nextToken` is the step that keeps it.
* `lexed_cases` is the result for whole texts.
-/

namespace StpLang

open Lexer

/-! ### Ranges in a text -/

/-- The range lies in the text and names the line and the column of its start. -/
def Span.In (cs : List Char) (r : Span) : Prop := Located cs r.start r.stop r.line r.col

/-- The range of the error lies in the text and names its place. It is the empty range at
the end of the text when the text ends within a string. -/
structure Error.Points (cs : List Char) (e : Error) : Prop where
  span : e.span.In cs
  atEnd : e.category = .unterminatedString →
    e.span.start = cs.length ∧ e.span.stop = cs.length

section

variable {cs : List Char} {c d : Cursor} {n : Nat} {r : Span} {cause : Cause}

lemma Located.span {start stop line col : Nat} (h : Located cs start stop line col) :
    (Span.of start stop line col).In cs := by
  have hstop : max stop start = stop := Nat.max_eq_left h.order
  exact ⟨(Span.of ..).start_le_stop, by rw [Span.of_stop, hstop]; exact h.inside, h.line, h.col⟩

/-- The range between two places of the text. -/
lemma Cursor.Ahead.span (h : c.Ahead d) (hc : c.In cs) :
    (Span.of c.pos d.pos c.line c.col).In cs := (h.located hc).span

/-- The range of the characters ahead. -/
lemma Cursor.In.here (hc : c.In cs) (hn : n ≤ c.rest.length) : (c.here n).In cs := by
  have h := (Cursor.ahead_forward hn).span hc
  rwa [Cursor.pos_forward hn] at h

/-- An error that does not concern the end of the text. -/
lemma points_within (hc : (cause.category == .unterminatedString) = false) (hr : r.In cs) :
    Error.Points cs ⟨cause, r⟩ :=
  ⟨hr, fun h => absurd h (beq_eq_false_iff_ne.mp hc)⟩

/-- An error at the end of the text. -/
lemma points_end (cause : Cause) (hc : c.In cs) (hnil : c.rest = []) :
    Error.Points cs ⟨cause, c.here⟩ := by
  have hpos : c.pos = cs.length := by
    have hlen := hc.length
    rwa [hnil, List.length_nil, Nat.add_zero] at hlen
  exact ⟨hc.here (Nat.zero_le _), fun _ => ⟨hpos, by simp [Cursor.here, hpos]⟩⟩

end

/-! ### Steps that fail -/

/-- From this state the step fails only with errors that point into the text. -/
structure Blames {α : Type} (cs : List Char) (f : Lex α) (s : Lexer) : Prop where
  points : ∀ {e t}, f s = .error e t → e.Points cs

namespace Blames

variable {α β : Type} {cs : List Char} {f g : Lex α} {k : α → Lex β} {s : Lexer}

lemma throw {e : Error} (h : e.Points cs) : Blames cs (throw e : Lex α) s :=
  ⟨fun he => by cases he; exact h⟩

/-- A step that does not fail here. -/
lemma total {a : α} {t : Lexer} (h : f s = .ok a t) : Blames cs f s :=
  ⟨fun he => by cases h.symm.trans he⟩

lemma pure (a : α) : Blames cs (pure a : Lex α) s := total rfl

lemma bind (hf : Blames cs f s) (hk : ∀ a t, f s = .ok a t → Blames cs (k a) t) :
    Blames cs (f >>= k) s := by
  refine ⟨fun {e t} h => ?_⟩
  cases hr : f s with
  | ok a u =>
    rw [bind_ok hr] at h
    exact (hk a u hr).points h
  | error e' u =>
    rw [bind_error hr] at h
    cases h
    exact hf.points hr

lemma ite {c : Prop} [Decidable c] (hf : c → Blames cs f s) (hg : ¬c → Blames cs g s) :
    Blames cs (if c then f else g) s := by
  split
  · exact hf ‹c›
  · exact hg ‹¬c›

end Blames

/-! ### Strings -/

/-- A reader of snippets fails only with errors that point into the text, wherever in the
text it begins. -/
def BlamesSnippet (cs : List Char) (f : Lex (List Token)) : Prop :=
  ∀ s : Lexer, s.cursor.In cs → Blames cs f s

section

variable {cs : List Char} {c : Cursor} {s : Lexer} {f : Lex (List Token)} {R : SnippetRel}
  {x : Char} {k : List Char}

lemma blames_unicodeEscape (hc : c.In cs) (hs : s.cursor = c.forward 1)
    (hk : c.rest = '\\' :: x :: k) : Blames cs (unicodeEscape c) s := by
  have hd : s.cursor.forward 1 = c.forward 2 := by rw [hs, ← Cursor.forward_add]
  have hrest : (c.forward 2).rest = k := by rw [Cursor.rest_forward, hk]; rfl
  refine ⟨fun {e t} h => ?_⟩
  unfold unicodeEscape at h
  rw [run_skip, run_cursorHere, hd, hrest] at h
  cases hn : Scan.escapeDigits? (Scan.hexLength k) with
  | some n =>
    rw [hn] at h
    cases h
  | none =>
    rw [hn] at h
    cases h
    have hle : Scan.hexLength k ≤ (k.take 8).length := (List.takeWhile_sublist _).length_le
    rw [List.length_take] at hle
    have hreach : 2 + Scan.hexLength k ≤ c.rest.length := by simp [hk]; omega
    have hspan := (Cursor.ahead_forward hreach).span hc
    rw [Cursor.pos_forward hreach, ← Nat.add_assoc,
      ← Cursor.pos_forward (show 2 ≤ c.rest.length by simp [hk])] at hspan
    exact points_within rfl hspan

lemma blames_octalEscape (hc : c.In cs) (hs : s.cursor = c.forward 1)
    (hk : c.rest = '\\' :: k) : Blames cs (octalEscape c) s := by
  have hrest : s.cursor.rest = k := by rw [hs, Cursor.rest_forward, hk]; rfl
  refine ⟨fun {e t} h => ?_⟩
  unfold octalEscape at h
  rw [run_cursorHere, hrest, run_skip] at h
  split at h
  · cases h
  · cases h
    have hle : Scan.octalLength k ≤ (k.take 3).length := (List.takeWhile_sublist _).length_le
    rw [List.length_take] at hle
    refine points_within rfl (Cursor.Ahead.span ?_ hc)
    change c.Ahead (s.cursor.forward _)
    rw [hs, ← Cursor.forward_add]
    exact Cursor.ahead_forward (by simp [hk]; omega)

lemma blames_escapeForm (hf : BlamesSnippet cs f) (hc : c.In cs)
    (hs : s.cursor = c.forward 1) (hk : c.rest = '\\' :: x :: k) :
    Blames cs (escapeForm f c x) s := by
  have htwo : (c.here 2).In cs := hc.here (by simp [hk])
  refine .ite (fun _ => .total rfl) fun _ => .ite (fun _ => blames_unicodeEscape hc hs hk)
    fun _ => .ite (fun _ => blames_octalEscape hc hs hk) fun _ => .ite (fun _ => ?_) fun _ =>
      .ite (fun _ => .throw (points_within rfl htwo)) fun _ => .throw (points_within rfl htwo)
  refine .bind (.total rfl) fun _ t ht => (hf t ?_).bind fun _ _ _ => .pure _
  cases ht
  exact (hs ▸ hc.forward 1).forward 1

lemma blames_escape (hf : BlamesSnippet cs f) (hc : s.cursor.In cs)
    (hk : s.cursor.rest = '\\' :: k) : Blames cs (escape f) s := by
  refine ⟨fun {e t} h => ?_⟩
  unfold escape at h
  rw [run_cursorHere, run_skip, run_cursorHere] at h
  have hrest : (s.cursor.forward 1).rest = k := by rw [Cursor.rest_forward, hk]; rfl
  cases k with
  | nil =>
    rw [hrest] at h
    cases h
    exact points_end _ (hc.forward 1) hrest
  | cons x k =>
    simp only [hrest] at h
    exact ((blames_escapeForm hf hc rfl hk).bind fun _ _ _ => .total rfl).points h

/-- The inside of a string is read to its end: the count of characters does not run out
before the text does. -/
lemma blames_stringSegments (hR : R.Moves) (hf : ReadsSnippets f R) (hb : BlamesSnippet cs f)
    {bound : Nat} (hc : s.cursor.In cs) (hbound : s.cursor.rest.length ≤ bound) :
    Blames cs (stringSegments f bound) s := by
  induction bound generalizing s with
  | zero =>
    have hnil : s.cursor.rest = [] := List.length_eq_zero_iff.mp (Nat.le_zero.mp hbound)
    exact .bind (.total rfl) fun _ t ht => by cases ht; exact .throw (points_end _ hc hnil)
  | succ bound ih =>
    cases hr : s.cursor.rest with
    | nil =>
      refine ⟨fun {e t} h => ?_⟩
      rw [stringSegments, run_cursorHere, hr] at h
      cases h
      exact points_end _ hc hr
    | cons x k =>
      by_cases hquote : x = '"'
      · subst hquote
        refine ⟨fun {e t} h => ?_⟩
        rw [stringSegments, run_cursorHere, hr] at h
        cases h
      by_cases hback : x = '\\'
      · subst hback
        refine ⟨fun {e t} h => ?_⟩
        rw [stringSegments, run_cursorHere, hr] at h
        refine Blames.points (.bind (blames_escape hb hc hr) fun seg t ht => ?_) h
        obtain ⟨form, hform, -⟩ := escape_inv hf hr ht
        have hahead := hform.before hR
        refine (ih (hahead.ahead.in_ hc) ?_).bind fun _ _ _ => .pure _
        exact Nat.le_of_lt_succ (Nat.lt_of_lt_of_le hahead.rest_lt hbound)
      · have hx : Scan.isPlain x = true := by
          simp only [Scan.isPlain, Bool.and_eq_true, bne_iff_ne]
          exact ⟨hquote, hback⟩
        have hahead := before_plain hr hx
        refine ⟨fun {e t} h => ?_⟩
        rw [stringSegments_plain hr hx] at h
        refine Blames.points (.bind (.total rfl) fun seg t ht => ?_) h
        cases ht
        refine (ih (hahead.ahead.in_ hc) ?_).bind fun _ _ _ => .pure _
        exact Nat.le_of_lt_succ (Nat.lt_of_lt_of_le hahead.rest_lt hbound)

end

/-! ### Tokens -/

/-- The lexer stands in the text, and so do the groups that it holds open. -/
structure Lexer.Sound (cs : List Char) (s : Lexer) : Prop where
  cursor : s.cursor.In cs
  groups : ∀ g ∈ s.groups, g.span.In cs

section

variable {cs : List Char} {s t : Lexer} {f : Lex (List Token)} {R : SnippetRel}
  {inSnippet : Bool} {u : Token}

lemma Cut.span (hR : R.Moves) {groups : List Token} {spaced : Bool} {c d : Cursor}
    (h : Cut R inSnippet groups spaced c u d) (hc : c.In cs) : u.span.In cs := by
  obtain ⟨h⟩ := h
  exact (h.before hR).ahead.span (hc.forward _)

lemma span_groupsAfter {groups : List Token} (hu : u.span.In cs) (h : ∀ g ∈ groups, g.span.In cs) :
    ∀ g ∈ groupsAfter u groups, g.span.In cs := by
  unfold groupsAfter
  split
  · exact List.forall_mem_cons.mpr ⟨hu, h⟩
  · cases groups with
    | nil => exact h
    | cons g gs =>
      dsimp only
      split
      · exact (List.forall_mem_cons.mp h).2
      · exact h

/-- Reading a token before the end keeps the lexer in the text. -/
lemma sound_nextToken (hR : R.Moves) (hf : ReadsSnippets f R) (hs : s.Sound cs)
    (h : nextToken inSnippet f s = .ok u t) (heof : inSnippet = false → u.kind ≠ .eof)
    (hclose : inSnippet = true → u.kind ≠ .snippetClose) : t.Sound cs := by
  cases nextToken_inv hf h with
  | token hcut hg =>
    have hspan := hcut.span hR hs.cursor
    exact ⟨(hcut.before hR).ahead.in_ hs.cursor, hg ▸ span_groupsAfter hspan hs.groups⟩
  | text hb _ _ he => exact absurd (by rw [he]; rfl) (heof hb)
  | snippet hb _ _ _ he => exact absurd (by rw [he]; rfl) (hclose hb)

lemma blames_snippetClose {k : List Char} (hs : s.Sound cs)
    (hk : s.cursor.rest = '\\' :: '}' :: k) : Blames cs (snippetClose inSnippet) s := by
  have htwo : (s.cursor.here 2).In cs := hs.cursor.here (by simp [hk])
  refine .bind (.total rfl) fun _ t ht => ?_
  cases ht
  refine .ite (fun _ => .bind (.throw (points_within rfl htwo)) fun _ _ h => by cases h)
    fun _ => ?_
  cases hg : s.groups with
  | nil => exact .total rfl
  | cons g gs => exact .throw (points_within rfl (hs.groups g (hg ▸ List.mem_cons_self)))

/-- A sign stands where an operator is looked for. -/
lemma Scan.Opening.of_symbol {k : List Char} {x : Char} (h : Opening.of k = .symbol x) :
    ∃ w, k = x :: w := by
  revert h
  fun_cases Opening.of k with
  | case8 y w =>
    intro h
    cases h
    exact ⟨w, rfl⟩
  | _ => exact fun h => by cases h

lemma blames_operator {x y : Char} {k : List Char} (hc : s.cursor.In cs)
    (hk : s.cursor.rest = y :: k) : Blames cs (operator x) s := by
  refine ⟨fun {e t} h => ?_⟩
  rw [run_operator] at h
  cases ho : Scan.operator? s.cursor.rest with
  | some o =>
    rw [ho] at h
    cases h
  | none =>
    rw [ho] at h
    cases h
    exact points_within rfl (hc.here (by simp [hk]))

lemma blames_nextToken (hR : R.Moves) (hf : ReadsSnippets f R) (hb : BlamesSnippet cs f)
    (hs : s.Sound cs) : Blames cs (nextToken inSnippet f) s := by
  have hblanks : (pastBlanks inSnippet s).Sound cs := ⟨hs.cursor.forward _, hs.groups⟩
  have hinv := Scan.Opening.of_inv (pastBlanks inSnippet s).cursor.rest
  refine ⟨fun {e t} h => ?_⟩
  unfold nextToken at h
  rw [run_skipBlanks, run_cursorHere] at h
  cases ho : Scan.Opening.of (pastBlanks inSnippet s).cursor.rest with
  | nothing =>
    rw [ho] at h hinv
    refine Blames.points (.bind (.total rfl) fun c t ht => ?_) h
    cases ht
    exact .ite (fun _ => .throw (points_end _ hblanks.cursor hinv)) fun _ => .total rfl
  | lineEnd | comment | word | digit =>
    rw [ho] at h
    cases h
  | snippetClose =>
    rw [ho] at h hinv
    obtain ⟨k, hk⟩ := hinv
    exact (blames_snippetClose hblanks hk).points h
  | quote =>
    rw [ho] at h hinv
    obtain ⟨k, hk⟩ := hinv
    change string f _ = _ at h
    rw [run_string] at h
    refine Blames.points (.bind ?_ fun _ _ _ => .total rfl) h
    exact blames_stringSegments hR hf hb (hblanks.cursor.forward 1)
      (Nat.le_of_eq (by rw [Cursor.rest_forward, List.length_drop]))
  | symbol x =>
    rw [ho] at h
    obtain ⟨k, hk⟩ := Scan.Opening.of_symbol ho
    exact (blames_operator hblanks.cursor hk).points h

/-! ### Snippets -/

lemma blames_snippetTokens (hR : R.Moves) (hf : ReadsSnippets f R) (hb : BlamesSnippet cs f)
    (bound : Nat) (hs : s.Sound cs) : Blames cs (snippetTokens (nextToken true f) bound) s := by
  induction bound generalizing s with
  | zero => exact (blames_nextToken hR hf hb hs).bind fun _ _ _ => .pure _
  | succ bound ih =>
    refine (blames_nextToken hR hf hb hs).bind fun u t h => .ite (fun _ => .pure _) fun hu => ?_
    have hclose : u.kind ≠ .snippetClose := fun hk => hu (by rw [hk]; rfl)
    exact (ih (sound_nextToken hR hf hs h (by rintro ⟨⟩) fun _ => hclose)).bind
      fun _ _ _ => .pure _

lemma blames_within {α : Type} {inner : Lex α}
    (h : ∀ s : Lexer, s.Sound cs → Blames cs inner s) (hc : s.cursor.In cs) :
    Blames cs (within inner) s := by
  refine ⟨fun {e t} he => ?_⟩
  unfold within at he
  cases hr : inner { cursor := s.cursor, trace := s.trace } with
  | ok a u =>
    rw [hr] at he
    cases he
  | error e' u =>
    rw [hr] at he
    cases he
    exact (h { cursor := s.cursor, trace := s.trace } ⟨hc, List.forall_mem_nil _⟩).points hr

/-- However many snippets may still be entered, their readers point into the text. -/
lemma blames_readSnippet (limit : Int) (allowance : Nat) :
    BlamesSnippet cs (readSnippet limit allowance) := by
  induction allowance with
  | zero =>
    refine fun s hc => ⟨fun {e t} h => ?_⟩
    cases h
    exact points_within rfl (hc.here (Nat.zero_le _))
  | succ n ih =>
    refine fun s hc => ⟨fun {e t} h => ?_⟩
    rw [run_readSnippet] at h
    refine (blames_within (fun s hs => ?_) ?_).points h
    · exact blames_snippetTokens (SnippetAt.moves n) (readsSnippets limit n) ih _ hs
    · exact hc

end

/-! ### Whole texts -/

section

variable {cs : List Char} {limit : Int} {s t : Lexer} {e : Error}

lemma blames_textToken (hs : s.Sound cs) : Blames cs (textToken limit) s :=
  blames_nextToken (SnippetAt.moves _) (readsSnippets limit _) (blames_readSnippet limit _) hs

lemma Lexes.sound {us : List Token} (h : Lexes limit s us t) (hs : s.Sound cs) : t.Sound cs := by
  induction h with
  | nil => exact hs
  | cons h hu _ ih =>
    exact ih (sound_nextToken (SnippetAt.moves _) (readsSnippets limit _) hs h (fun _ => hu)
      (by rintro ⟨⟩))

/-- The lexer has its text before it from the beginning. -/
lemma sound_ofText (source : String) :
    Lexer.Sound source.toList { cursor := .ofText source } :=
  ⟨Cursor.in_ofText source, List.forall_mem_nil _⟩

/-- A text is cut into leading tokens, and then either its end follows or an error that
points into the text; the lexer keeps the place where it stood before that error. -/
lemma lexed_cases (source : String) (limit : Int) :
    ∃ us t, Lexes limit { cursor := .ofText source } us t ∧
      ((∃ u v, textToken limit t = .ok u v ∧ u.kind = .eof
          ∧ (Lexed.run limit (.ofText source)).tokens = us ++ [u]
          ∧ (Lexed.run limit (.ofText source)).fault = none)
        ∨ ∃ e, e.Points source.toList
          ∧ (Lexed.run limit (.ofText source)).tokens
            = us ++ [.eofAt t.cursor.line t.cursor.col t.cursor.pos]
          ∧ (Lexed.run limit (.ofText source)).fault = some ⟨e, t.cursor⟩) := by
  obtain ⟨us, t, hus, hend⟩ := exists_lexes limit { cursor := .ofText source }
  obtain ⟨htokens, hfault⟩ := hus.lexFrom_eq
  rw [← run_eq_lexFrom] at htokens hfault
  refine ⟨us, t, hus, ?_⟩
  rw [htokens, hfault]
  rcases hend with ⟨e, v, he⟩ | ⟨u, v, hu, hk⟩
  · refine .inr ⟨e, (blames_textToken (hus.sound (sound_ofText source))).points he, ?_⟩
    rw [lexFrom_error he]
    exact ⟨rfl, rfl⟩
  · refine .inl ⟨u, v, hu, hk, ?_⟩
    rw [lexFrom_eof hu hk]
    exact ⟨rfl, rfl⟩

end

end StpLang
