import StpLang.Proofs.Delimiters.Fair
import StpLang.Proofs.Lex.Faults

/-!
Readers that point into the text.

An error of the grammar blames a token that the reader has before it, a piece of a
string, or the end mark. So it points into the text as long as those do, and they do
wherever the reader gets to.

* `Token.Ranges` says that a token, its pieces and the tokens of its snippets lie in the
  text, and `Parser.Ranges` says so of what a reader has before it.
* `Aims` says that a step keeps this and fails only with errors that point into the text;
  `Aims.bind` and its kin put such steps in sequence.
* `ranges_of_lexed` begins with the tokens of a text.
-/

namespace StpLang

open Parse Lexer StpLang.Parser

/-! ### Tokens in a text -/

/-- The token lies in the text, and so do its pieces and the tokens of its snippets, which
are closed by an end mark. An end mark is empty. -/
inductive Token.Ranges (cs : List Char) : Token → Prop
  | mk {t : Token} (span : t.span.In cs) (empty : t.kind = .eof → t.start = t.stop)
      (pieces : ∀ seg ∈ t.segments, seg.span.In cs)
      (ended : ∀ us ∈ t.snippets, Ended us)
      (tokens : ∀ us ∈ t.snippets, ∀ u ∈ us, Token.Ranges cs u) : Token.Ranges cs t

section

variable {cs : List Char} {t : Token} {ts us : List Token} {lo hi : Nat}

lemma Token.Ranges.span (h : t.Ranges cs) : t.span.In cs := by
  cases h with
  | mk hspan => exact hspan

lemma Token.Ranges.identifier (h : t.Ranges cs) :
    Token.Ranges cs { t with kind := .identifier } := by
  cases h with
  | mk hspan _ hpieces hended htokens =>
    exact .mk hspan (fun h => by cases h) hpieces hended htokens

/-- An end mark at a place of the text. -/
lemma ranges_eofAt {c : Cursor} (hc : c.In cs) (spaced : Bool) :
    Token.Ranges cs { Token.eofAt c.line c.col c.pos with spaced } :=
  .mk (hc.here (Nat.zero_le _)) (fun _ => rfl) (List.forall_mem_nil _) (List.forall_mem_nil _)
    (List.forall_mem_nil _)

lemma Ended.snippets (h : Ended ts) : ∀ t ∈ ts, ∀ us ∈ t.snippets, Ended us := by
  induction h with
  | eof he hsegs =>
    rw [List.forall_mem_singleton, Token.snippets, hsegs]
    exact List.forall_mem_nil _
  | cons _ _ hsnippets _ _ ih => exact List.forall_mem_cons.mpr ⟨hsnippets, ih⟩

lemma Ended.getLast? (h : Ended ts) : ∃ e ∈ ts, ts.getLast? = some e ∧ e.kind = .eof := by
  induction h with
  | eof he => exact ⟨_, List.mem_singleton_self _, rfl, he⟩
  | @cons t ts _ _ _ _ _ ih =>
    obtain ⟨e, hmem, hlast, he⟩ := ih
    refine ⟨e, List.mem_cons_of_mem _ hmem, ?_, he⟩
    rw [List.getLast?_cons, hlast]
    rfl

lemma Pieced.spans {segs : List (Segment Token)} (h : Pieced cs lo segs hi) :
    ∀ seg ∈ segs, seg.span.In cs := by
  induction h with
  | nil => exact List.forall_mem_nil _
  | cons _ hplace _ _ _ _ _ ih => exact List.forall_mem_cons.mpr ⟨hplace.span, ih⟩

/-- Tokens that tile a part of the text lie in it. -/
lemma Tiled.ranges {inSnippet : Bool} {groups : List Token} {last : Option TokenKind}
    (h : Tiled cs inSnippet groups last lo ts hi)
    (he : ∀ t ∈ ts, ∀ us ∈ t.snippets, Ended us) : ∀ t ∈ ts, t.Ranges cs := by
  induction h with
  | nil => exact List.forall_mem_nil _
  | @cons _ _ _ _ _ t ts _ _ hstands _ _ _ ihs ih =>
    rw [List.forall_mem_cons] at he ⊢
    refine ⟨.mk hstands.place.span hstands.empty.mp ?_ he.1 fun us hus => ?_, ih he.2⟩
    · by_cases hk : t.kind = .string
      · exact (hstands.pieces hk).spans
      · rw [hstands.plain hk]
        exact List.forall_mem_nil _
    · obtain ⟨seg, hseg, hform⟩ := List.mem_filterMap.mp hus
      refine ihs seg hseg us ?_ (he.1 us hus).snippets
      unfold Segment.snippet? at hform
      cases hf : seg.form with
      | snippet tokens =>
        rw [hf] at hform
        cases hform
        rfl
      | _ =>
        rw [hf] at hform
        cases hform

/-- Setting comments aside and renaming `mod` keeps the tokens in the text. -/
lemma ranges_settle (h : ∀ t ∈ ts, t.Ranges cs) (depth : Nat) (last : Option TokenKind) :
    ∀ t ∈ (settle depth last ts).1, t.Ranges cs := by
  induction ts generalizing depth last with
  | nil => exact List.forall_mem_nil _
  | cons t ts ih =>
    rw [List.forall_mem_cons] at h
    rw [settle_cons]
    cases hk : keptToken? depth last t with
    | none => exact ih h.2 _ _
    | some u =>
      refine List.forall_mem_cons.mpr ⟨?_, ih h.2 _ _⟩
      rcases keptToken?_some hk with rfl | ⟨-, rfl⟩
      · exact h.1
      · exact h.1.identifier

end

/-! ### Readers in a text -/

/-- What the reader has before it lies in the text, and the errors from which it has
recovered point into the text. -/
structure Parser.Ranges (cs : List Char) (s : Parser) : Prop where
  tokens : ∀ t ∈ s.rest, t.Ranges cs
  eof : s.eof.span.In cs
  errors : ∀ e ∈ s.errors, e.Points cs

section

variable {cs : List Char} {s : Parser} {ts : List Token}

/-- A reader at the beginning of tokens that lie in the text. -/
lemma ranges_ofTokens (he : Ended ts) (h : ∀ t ∈ ts, t.Ranges cs) :
    (Parser.ofTokens ts).Ranges cs := by
  have htokens := ranges_settle h 0 none
  obtain ⟨e, hmem, hlast, hk⟩ := (ended_settle he 0 none).getLast?
  refine ⟨htokens, ?_, List.forall_mem_nil _⟩
  have heof : (Parser.ofTokens ts).eof = .eofAt e.line e.col e.stop := by
    have hrest : (Parser.ofTokens ts).rest.getLast? = some e := hlast
    rw [Parser.eof, hrest]
    rfl
  cases htokens e hmem with
  | mk hspan hempty =>
    rw [heof, ← hempty hk]
    exact Located.span ⟨Nat.le_refl _, Nat.le_trans hspan.order hspan.inside, hspan.line, hspan.col⟩

namespace Parser.Ranges

lemma eof_ranges (h : s.Ranges cs) : s.eof.Ranges cs := by
  have heof : s.eof.segments = [] ∧ s.eof.start = s.eof.stop := by
    unfold Parser.eof
    split <;> exact ⟨rfl, rfl⟩
  have hnone : s.eof.snippets = [] := by rw [Token.snippets, heof.1]; rfl
  exact .mk h.eof (fun _ => heof.2) (heof.1 ▸ List.forall_mem_nil _)
    (hnone ▸ List.forall_mem_nil _) (hnone ▸ List.forall_mem_nil _)

/-- The token ahead lies in the text, also behind the last one. -/
lemma current (h : s.Ranges cs) : s.current.Ranges cs := by
  unfold Parser.current
  cases hs : s.rest with
  | nil => exact h.eof_ranges
  | cons t ts => exact h.tokens t (hs ▸ List.mem_cons_self)

lemma step (h : s.Ranges cs) : s.step.Ranges cs := by
  cases hs : s.rest with
  | nil => rwa [Parser.step, hs]
  | cons t ts =>
    have hm := Moves.step hs
    refine ⟨fun u hu => h.tokens u ?_, hm.eof ▸ h.eof, fun e he => h.errors e ?_⟩
    · rw [hm.rest]
      exact List.mem_append_right _ hu
    · rwa [hm.errors, List.append_nil] at he

lemma forward (h : s.Ranges cs) (n : Nat) : (s.forward n).Ranges cs := by
  induction n generalizing s with
  | zero => exact h
  | succ n ih => exact ih h.step

/-- Recovering from an error that points into the text. -/
lemma recover (h : s.Ranges cs) {e : Error} (he : e.Points cs) (inBlock : Bool) (first : Token)
    (position : Nat) : (Grammar.recover inBlock first position e s).2.Ranges cs := by
  have hnoted : Parser.Ranges cs
      { s with errors := s.errors ++ [e], trace := .recovering e :: s.trace } :=
    ⟨h.tokens, h.eof, List.forall_mem_append.mpr ⟨h.errors, List.forall_mem_singleton.mpr he⟩⟩
  unfold Grammar.recover
  dsimp only
  split
  · exact (hnoted.forward _).step
  · exact hnoted.forward _

end Parser.Ranges

end

/-! ### Steps -/

/-- What the step leaves before the reader lies in the text, and an error points into the
text. -/
inductive Aimed {α : Type} (cs : List Char) : EStateM.Result Error Parser α → Prop
  | ok {a : α} {t : Parser} (h : t.Ranges cs) : Aimed cs (.ok a t)
  | error {e : Error} {t : Parser} (h : t.Ranges cs) (he : e.Points cs) : Aimed cs (.error e t)

/-- Among tokens that lie in the text the step fails only with errors that point into it. -/
structure Aims {α : Type} (cs : List Char) (p : Parse α) : Prop where
  run : ∀ s, s.Ranges cs → Aimed cs (p s)

namespace Aims

variable {α β : Type} {cs : List Char} {p q : Parse α} {f : α → Parse β} {cause : Cause} {r : Span}

lemma pure (a : α) : Aims cs (pure a : Parse α) := ⟨fun _ h => .ok h⟩

/-- An error that does not concern the end of the text. -/
lemma fail (hr : r.In cs) (hc : (cause.category == .unterminatedString) = false) :
    Aims cs (fail cause r : Parse α) := ⟨fun _ h => .error h (points_within hc hr)⟩

lemma bind (hp : Aims cs p) (hf : ∀ a, Aims cs (f a)) : Aims cs (p >>= f) := by
  refine ⟨fun s h => ?_⟩
  have hs := hp.run s h
  cases hr : p s with
  | ok a t =>
    rw [hr] at hs
    rw [bind_ok hr]
    cases hs with
    | ok ht => exact (hf a).run t ht
  | error e t =>
    rw [hr] at hs
    rw [bind_error hr]
    cases hs with
    | error ht he => exact .error ht he

lemma ite {c : Prop} [Decidable c] (hp : c → Aims cs p) (hq : ¬c → Aims cs q) :
    Aims cs (if c then p else q) := by
  split
  · exact hp ‹c›
  · exact hq ‹¬c›

lemma map (g : α → β) (hp : Aims cs p) : Aims cs (g <$> p) := by
  rw [map_eq_bind]
  exact hp.bind fun _ => .pure _

lemma discard (hp : Aims cs p) : Aims cs (discard p) := hp.map _

lemma discard_bind {f : PUnit → Parse β} (hp : Aims cs p) (hf : Aims cs (f ⟨⟩)) :
    Aims cs (Functor.discard p >>= f) := hp.discard.bind fun _ => hf

lemma get_bind {f : Parser → Parse β} (h : ∀ s, s.Ranges cs → Aims cs (f s)) :
    Aims cs (get >>= f) := ⟨fun s hs => (h s hs).run s hs⟩

lemma set_bind {s : Parser} {f : PUnit → Parse β} (hs : s.Ranges cs) (h : Aims cs (f ⟨⟩)) :
    Aims cs ((set s : Parse PUnit) >>= f) := ⟨fun _ _ => h.run s hs⟩

lemma note (x : Event) : Aims cs (note x) := ⟨fun _ h => .ok ⟨h.tokens, h.eof, h.errors⟩⟩

lemma tokensLeft : Aims cs tokensLeft := ⟨fun _ h => .ok h⟩

lemma node (kind : Kind) (place : Place) (ns : List Node) (fields : FieldTable)
    (value : Option String) : Aims cs (node kind place ns fields value) := ⟨fun _ h => .ok h⟩

/-! ### Tokens read -/

lemma current_bind {g : Token → Parse β} (hg : ∀ t, t.Ranges cs → Aims cs (g t)) :
    Aims cs (current >>= g) := .get_bind fun s hs => hg s.current hs.current

lemma advance_bind {g : Token → Parse β} (hg : ∀ t, t.Ranges cs → Aims cs (g t)) :
    Aims cs (advance >>= g) := ⟨fun s hs => (hg s.current hs.current).run s.step hs.step⟩

lemma advance : Aims cs advance := ⟨fun _ hs => .ok hs.step⟩

lemma expect_bind {kinds : List TokenKind} {g : Token → Parse β}
    (hg : ∀ t, t.Ranges cs → Aims cs (g t)) : Aims cs (expect kinds >>= g) := by
  refine ⟨fun s hs => ?_⟩
  by_cases hc : kinds.contains s.current.kind = true
  · rw [bind_ok (run_expect hc)]
    exact (hg s.current hs.current).run s.step hs.step
  · rw [bind_error (run_expect_other hc)]
    exact .error hs (points_within rfl hs.current.span)

lemma expect (kinds : List TokenKind) : Aims cs (expect kinds) := by
  rw [← bind_pure (Parse.expect kinds)]
  exact .expect_bind fun _ _ => .pure _

lemma accept (kinds : List TokenKind) : Aims cs (accept kinds) :=
  .current_bind fun _ _ => .ite (fun _ => advance.map _) fun _ => .pure _

lemma leafOf (tokenKind : TokenKind) (kind : Kind) : Aims cs (leafOf tokenKind kind) :=
  .expect_bind fun _ _ => .pure _

/-- The delimiter to blame lies in the text as the token in the way does. -/
lemma close {opener : Token} (ho : opener.Ranges cs) : Aims cs (close opener) :=
  .current_bind fun _ ht => .ite (fun _ => advance) fun _ =>
    .ite (fun _ => .fail ho.span rfl) fun _ => .fail ht.span rfl

end Aims

/-! ### The tokens of a text -/

/-- A text is cut into tokens that lie in it, up to an end mark. -/
lemma ranges_of_lexed (source : String) (limit : Int) :
    (Parser.ofTokens (Lexed.run limit (.ofText source)).tokens).Ranges source.toList := by
  obtain ⟨us, t, hus, hend⟩ := lexed_cases source limit
  have hstart := Cursor.in_ofText source
  have hin := hus.ahead.in_ hstart
  obtain ⟨c, b, hc, htokens⟩ : ∃ (c : Cursor) (b : Bool), c.In source.toList
      ∧ (Lexed.run limit (.ofText source)).tokens
        = us ++ [{ Token.eofAt c.line c.col c.pos with spaced := b }] := by
    rcases hend with ⟨u, v, hu, hk, htokens, -⟩ | ⟨e, -, htokens, -⟩
    · obtain ⟨d, hd, -, rfl⟩ := textToken_eof hu hk hin
      exact ⟨d, _, hd ▸ hin.forward _, htokens⟩
    · exact ⟨t.cursor, false, hin, htokens⟩
  have hended := hus.ended (.eof (e := { Token.eofAt c.line c.col c.pos with spaced := b }) rfl rfl)
  have htiled : Tiled source.toList false [] none 0 us t.cursor.pos := by
    rw [← List.append_nil us]
    exact hus.tiled hstart beginsLine_none fun _ => .nil
  rw [htokens]
  refine ranges_ofTokens hended (List.forall_mem_append.mpr ⟨htiled.ranges fun u hu => ?_, ?_⟩)
  · exact hended.snippets u (List.mem_append_left _ hu)
  · exact List.forall_mem_singleton.mpr (ranges_eofAt hc b)

end StpLang
