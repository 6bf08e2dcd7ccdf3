import StpLang.Edit
import StpLang.Proofs.Grammar.Settle

/-!
The place behind a statement and its separator.

An edit leaves alone the statements that end, with their separators, before it.
At the place behind such a separator no group is open, and the tokens before
it are those of the text before the edit.

* `Cutting` describes such a place.
* `Cutting.carry` finds it again in a text that agrees so far.
* `exists_cutting` finds it behind a statement.
-/

namespace StpLang

open Lexer StpLang.Parser

/-- The lexer at the beginning of a text. -/
abbrev lexerOf (source : String) : Lexer := { cursor := .ofText source }

/-- The tokens `as` and the separator `x` lead to the state `t` of the lexer, in
which no group is open. -/
structure Cutting (limit : Int) (source : String) (as : List Token) (x : Token) (t : Lexer) :
    Prop where
  lexes : Lexes limit (lexerOf source) (as ++ [x]) t
  separator : x.kind.isSeparator = true
  groups : t.groups = []

section

variable {limit : Int} {source : String} {as : List Token} {x : Token} {s t : Lexer}

lemma Lexes.cursor_in {cs : List Char} {us : List Token} (h : Lexes limit s us t)
    (hs : s.cursor.In cs) : t.cursor.In cs := by
  obtain ⟨n, -, hn⟩ := h.ahead
  rw [← hn]
  exact hs.forward n

/-! ### In another text -/

lemma Cursor.In.take {cs : List Char} {c : Cursor} (h : c.In cs) :
    cs.take c.pos = c.past.reverse := by
  rw [← h.text, List.take_left' (by rw [List.length_reverse, h.pos])]

/-- The text up to the place ends with the mark of the separator. -/
lemma Cutting.mark (h : Cutting limit source as x t) :
    ∃ w y, IsMark y ∧ source.toList.take t.cursor.pos = w ++ [y]
      ∧ t.cursor.pos = w.length + 1 := by
  obtain ⟨v, hlead, hlast⟩ := h.lexes.split
  cases hlast with
  | cons hlast hne hnil =>
    cases hnil
    have hin := h.lexes.cursor_in (Cursor.in_ofText source)
    obtain ⟨y, k, hy, hk, hd, -⟩ := (textToken_cut hlast hne).1.mark h.separator
    rw [Cursor.forward_add] at hd
    have hpast : t.cursor.past = y :: (v.cursor.forward (gap false v.groups v.cursor)).past := by
      rw [hd, Cursor.forward_succ, Cursor.forward_zero, Cursor.step, hk]
    refine ⟨(v.cursor.forward (gap false v.groups v.cursor)).past.reverse, y, hy, ?_, ?_⟩
    · rw [hin.take, hpast, List.reverse_cons]
    · rw [hin.pos, hpast, List.length_cons, List.length_reverse]

/-- The same place in a text that agrees so far. -/
lemma Cutting.carry {edited : String} (h : Cutting limit source as x t)
    (hsame : edited.toList.take t.cursor.pos = source.toList.take t.cursor.pos) :
    ∃ t', Cutting limit edited as x t' ∧ t'.cursor.pos = t.cursor.pos := by
  obtain ⟨w, y, hy, htake, hpos⟩ := h.mark
  have hsplit {cs : List Char} (hcs : cs.take t.cursor.pos = w ++ [y]) : ∃ k, cs = w ++ y :: k := by
    have hall := List.take_append_drop t.cursor.pos cs
    rw [hcs, List.append_assoc] at hall
    exact ⟨_, hall.symm⟩
  have htwin : Twin w y (lexerOf source).cursor (lexerOf edited).cursor :=
    ⟨rfl, rfl, rfl, rfl, hsplit htake, hsplit (hsame.trans htake)⟩
  obtain ⟨t', ht', hg, hpos'⟩ := h.lexes.twin_mark hy h.separator htwin rfl rfl (by
    rw [hpos]
    show _ = 0 + _ + 1
    omega)
  exact ⟨t', ⟨ht', h.separator, hg.trans h.groups⟩, hpos'⟩

/-- Reading on from the place, with the lexer's memory or without it. -/
lemma Cutting.agree_rest (h : Cutting limit source as x t) :
    AgreeLexed false (lexFrom limit t)
      (Lexed.run limit (.atOffset source t.cursor.pos
        (Text.lineAt source.toList t.cursor.pos) (Text.colAt source.toList t.cursor.pos))) := by
  have hin := h.lexes.cursor_in (Cursor.in_ofText source)
  have hle : t.cursor.pos ≤ source.toList.length := hin.length ▸ Nat.le_add_right _ _
  have hcur := (Cursor.in_atOffset source hle).ext hin rfl
  rw [hcur, run_eq_lexFrom]
  exact lexFrom_even limit ⟨rfl, by rw [h.groups], fun he => by cases he⟩

/-! ### Behind a statement -/

/-- A text ends with an end mark, and nowhere before. -/
lemma lexFrom_last (limit : Int) (s : Lexer) :
    ∃ us e, (lexFrom limit s).tokens = us ++ [e] ∧ e.kind = .eof ∧ (∀ u ∈ us, u.kind ≠ .eof)
      ∧ ((lexFrom limit s).fault = none → e.stop = s.cursor.pos + s.cursor.rest.length) := by
  refine lexFrom_induction (P := fun s l => ∃ us e, l.tokens = us ++ [e] ∧ e.kind = .eof
    ∧ (∀ u ∈ us, u.kind ≠ .eof) ∧ (l.fault = none → e.stop = s.cursor.pos + s.cursor.rest.length))
    ?_ ?_ ?_ s
  · intro s e t h
    rw [lexFrom_error h]
    exact ⟨[], _, rfl, rfl, by simp, fun hf => by cases hf⟩
  · intro s u t h hu
    rw [lexFrom_eof h hu]
    refine ⟨[], u, rfl, hu, by simp, fun _ => ?_⟩
    cases textToken_inv h with
    | token hcut =>
      obtain ⟨hl⟩ := hcut
      exact absurd hu hl.plain.1
    | text _ hrest hcur hu =>
      have hlen := (ahead_gap false s.groups s.cursor).length_eq
      change (pastBlanks false s).cursor.pos + (pastBlanks false s).cursor.rest.length = _ at hlen
      rw [hrest, List.length_nil, Nat.add_zero] at hlen
      rw [hu, ← hlen, ← hcur]
      rfl
    | snippet h => cases h
  · rintro s u t h hu ⟨us, e, htokens, he, hus, hstop⟩
    refine ⟨u :: us, e, ?_, he, List.forall_mem_cons.mpr ⟨hu, hus⟩, fun hf => ?_⟩
    · rw [Lexed.cons, htokens]
      rfl
    · rw [hstop hf, ((textToken_cut h hu).1.before (SnippetAt.moves _)).ahead.length_eq]

/-- White space and a mark ahead. -/
lemma blankLength_gap {w k : List Char} {y : Char} (hw : ∀ z ∈ w, isGap z = true)
    (hy : IsMark y) : Scan.blankLength false (w ++ y :: k) = w.length := by
  induction w with
  | nil => rcases hy with rfl | rfl <;> rfl
  | cons z w ih =>
    rw [List.forall_mem_cons] at hw
    have hz : z = ' ' ∨ z = '\t' ∨ z = '\r' := by
      have := hw.1
      simpa [isGap, or_assoc] using this
    rcases hz with rfl | rfl | rfl
    all_goals
      rw [List.cons_append, Scan.blankLength, ih hw.2, List.length_cons]

/-- Before white space and a mark, the lexer reads the mark. -/
lemma exists_mark (limit : Int) (hg : s.groups = []) {w k : List Char} {y : Char}
    (hr : s.cursor.rest = w ++ y :: k) (hw : ∀ z ∈ w, isGap z = true) (hy : IsMark y) :
    ∃ x t, textToken limit s = .ok x t ∧ x.kind.isSeparator = true
      ∧ t.cursor.pos = s.cursor.pos + w.length + 1 ∧ t.groups = [] := by
  have hgap : gap false s.groups s.cursor = w.length := by
    rw [gap, hg, hr]
    exact blankLength_gap hw hy
  have hrest : (s.cursor.forward (gap false s.groups s.cursor)).rest = y :: k := by
    rw [hgap, (Cursor.forward_append hr).1]
  obtain ⟨x, hx, hcut⟩ : ∃ x, x.kind.isSeparator = true
      ∧ Cut (TextSnippet limit) false s.groups s.spaced s.cursor x
        ((s.cursor.forward (gap false s.groups s.cursor)).forward 1) := by
    rcases hy with rfl | rfl
    · exact ⟨_, rfl, .mk (.lineEnd hrest)⟩
    · have hlex : Lexeme (TextSnippet limit) (s.cursor.forward (gap false s.groups s.cursor))
          .semicolon ";" [] ((s.cursor.forward (gap false s.groups s.cursor)).forward ";".length) :=
        .operator (by rw [hrest, operator?_semicolon])
      exact ⟨_, rfl, .mk hlex⟩
  obtain ⟨t, ht, -, hcur, hgt, -⟩ := textToken_of_cut hcut
  refine ⟨x, t, ht, hx, ?_, ?_⟩
  · rw [hcur, ← Cursor.forward_add, hgap, Cursor.pos_forward]
    · omega
    · rw [hr, List.length_append, List.length_cons]
      omega
  · have hin := (x.kind.isInner_iff.mp (TokenKind.isInner_of_isSeparator hx))
    rw [hgt, hg]
    simp [groupsAfter, hin.1]

/-- The offset behind the separator of a statement. -/
lemma separatorEnd?_inv {cs : List Char} {n : Node} {r : Nat} (h : separatorEnd? cs n = some r) :
    (n.value = some ";" ∧ r = n.stop)
      ∨ ∃ w y k, cs.drop n.stop = w ++ y :: k ∧ (∀ z ∈ w, isGap z = true) ∧ IsMark y
        ∧ r = n.stop + w.length + 1 := by
  unfold separatorEnd? at h
  split at h
  · rename_i hv
    cases h
    exact .inl ⟨eq_of_beq hv, rfl⟩
  · dsimp only at h
    generalize cs.drop n.stop = ahead at h ⊢
    have hall : ahead.takeWhile isGap ++ ahead.dropWhile isGap = ahead :=
      List.takeWhile_append_dropWhile
    have hdrop : ahead.drop (ahead.takeWhile isGap).length = ahead.dropWhile isGap := by
      have hleft : (ahead.takeWhile isGap ++ ahead.dropWhile isGap).drop
          (ahead.takeWhile isGap).length = ahead.dropWhile isGap := List.drop_left
      rwa [hall] at hleft
    have hgap : ∀ z ∈ ahead.takeWhile isGap, isGap z = true := fun z hz => by
      have := List.all_takeWhile (p := isGap) (l := ahead)
      exact List.all_eq_true.mp this z hz
    rw [hdrop] at h
    split at h
    · rename_i k hk
      cases h
      exact .inr ⟨_, _, k, by rw [← hk, hall], hgap, .inl rfl, rfl⟩
    · rename_i k hk
      cases h
      exact .inr ⟨_, _, k, by rw [← hk, hall], hgap, .inr rfl, rfl⟩
    · cases h

lemma keptToken?_separator {depth : Nat} {last : Option TokenKind}
    (hx : x.kind.isSeparator = true) : keptToken? depth last x = some x := by
  have hk : (x.kind == .comment) = false ∧ (x.kind == .mod) = false := by
    constructor <;> rw [beq_eq_false_iff_ne] <;> rintro hk <;> rw [hk] at hx <;> cases hx
  simp [keptToken?, hk]

/-- A token that is kept ends where it ended. -/
lemma keptToken?_stop {depth : Nat} {last : Option TokenKind} {y z : Token}
    (h : keptToken? depth last y = some z) : z.stop = y.stop := by
  rcases keptToken?_some h with rfl | ⟨-, rfl⟩ <;> rfl

/-- The place behind a statement and its separator. -/
theorem exists_cutting {a loops r : Nat} {us ws k : List Token} {n : Node}
    (hS : (settle 0 none (lexFrom limit (lexerOf source)).tokens).1 = us ++ (ws ++ k))
    (hus : Balanced us) (hn : Derives a (.statement loops) ws k [n])
    (hr : separatorEnd? source.toList n = some r) :
    ∃ ms l as x t, k = ms ++ l ∧ Cutting limit source as x t ∧ t.cursor.pos = r
      ∧ (settle 0 none (as ++ [x])).1 = us ++ (ws ++ ms)
      ∧ ((ms = [] ∧ (∃ vs, ws = vs ++ [x]) ∧ ∀ l, Derives a (.statement loops) ws l [n])
        ∨ ms = [x]) := by
  -- the last token of the statement, and the token of the text that became it
  obtain ⟨ws', z, rfl⟩ : ∃ ws' z, ws = ws' ++ [z] := by
    obtain ⟨t, ts, rfl, -⟩ := hn.first rfl
    exact ⟨_, _, (List.dropLast_concat_getLast (List.cons_ne_nil t ts)).symm⟩
  rw [List.append_assoc, ← List.append_assoc us, List.singleton_append] at hS
  obtain ⟨as, y, bs, htokens, has, hy⟩ := settle_split hS
  rw [← List.singleton_append, List.append_assoc us, ← List.append_assoc ws'] at hS
  have hbalanced := hus.append hn.balanced
  have hsettle : (settle 0 none (as ++ [y])).1 = us ++ (ws' ++ [z]) := by
    rw [settle_append, settle_cons, has, hy]
    simp [settle]
  -- it is not the end mark, so something follows
  have hbs : bs ≠ [] := by
    rintro rfl
    obtain ⟨ts, e, hts, he, -⟩ := lexFrom_last limit (lexerOf source)
    rw [htokens] at hts
    obtain rfl : y = e := by simpa using (List.append_inj' hts rfl).2
    have hz : z.kind = .eof := by
      rcases keptToken?_some hy with rfl | ⟨hmod, -⟩
      · exact he
      · rw [he] at hmod
        cases hmod
    exact hbalanced.ne_eof z (by simp) hz
  rw [List.append_cons] at htokens
  obtain ⟨s, hlexes, hrest⟩ := lexFrom_split htokens hbs
  have hgroups : s.groups = [] := by
    rw [hlexes.groups]
    have := groups_settle 0 none (as ++ [y]) []
    rw [hsettle, hbalanced.groups (by simp)] at this
    exact this.symm
  have hpos : s.cursor.pos = n.stop := by
    rw [← hlexes.stop (u := y) (by simp), ← keptToken?_stop hy, hn.statement_stop]
    simp [lastStop]
  rcases separatorEnd?_inv hr with ⟨hv, rfl⟩ | ⟨w, m, l, hw, hgap, hm, rfl⟩
  · have hplaced := placed_settle (placed_lexFrom limit (lexerOf source)) 0 none
    rw [hS] at hplaced
    obtain ⟨⟨vs, x, hvs, hx⟩, hall⟩ :=
      hn.statement_marked
        (fun t ht => hplaced t (List.mem_append_right _ (List.mem_append_left _ ht))) hv
    obtain rfl : z = x := by simpa using (List.append_inj' hvs rfl).2
    obtain rfl : z = y := by
      rcases keptToken?_some hy with h | ⟨-, h⟩
      · exact h
      · rw [h] at hx
        cases hx
    exact ⟨[], k, as, z, s, rfl, ⟨hlexes, hx, hgroups⟩, hpos, by simpa using hsettle,
      .inl ⟨rfl, ⟨ws', rfl⟩, hall⟩⟩
  · have hin := hlexes.cursor_in (Cursor.in_ofText source)
    have hahead : s.cursor.rest = w ++ m :: l := by
      rw [← hw, ← hpos, ← hin.text, hin.pos, ← List.length_reverse, List.drop_left]
    obtain ⟨x, t, ht, hx, htpos, htg⟩ := exists_mark limit hgroups hahead hgap hm
    have hne : x.kind ≠ .eof :=
      (x.kind.isInner_iff.mp (TokenKind.isInner_of_isSeparator hx)).2.2
    have hcut : Cutting limit source (as ++ [y]) x t :=
      ⟨hlexes.trans (.cons ht hne (.nil t)), hx, htg⟩
    have hsettle' : (settle 0 none ((as ++ [y]) ++ [x])).1 = us ++ ((ws' ++ [z]) ++ [x]) := by
      rw [settle_append, settle_cons, keptToken?_separator hx, hsettle]
      simp [settle]
    -- the separator is the next of the prepared tokens
    have hk : ∃ l, k = [x] ++ l := by
      rw [(hcut.lexes.lexFrom_eq).1, settle_append, hsettle'] at hS
      simp only [List.append_assoc] at hS
      have := List.append_cancel_left (List.append_cancel_left (List.append_cancel_left hS))
      exact ⟨_, this.symm⟩
    obtain ⟨l, rfl⟩ := hk
    exact ⟨[x], l, as ++ [y], x, t, rfl, hcut, by rw [htpos, hpos], hsettle', .inr rfl⟩

end

end StpLang
