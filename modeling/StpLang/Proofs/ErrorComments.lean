import StpLang.Proofs.Layout
import StpLang.Proofs.Layout.Recovered
import StpLang.Proofs.Recovery
import StpLang.Proofs.Render
import StpLang.Proofs.Schema

/-!
Errors as comments.

The text of a program that was read with recovery has a comment for each error, with the
message of the error. The message stands there as it is, so that the comment is one only
if the message has no line end in it and no carriage return behind it.

* `Charts.of_items`: tokens that count the same have the same lines.
* `charts_of_enters` cuts the text of a program whose statements have their lines.
* `Charts.isRemark` is the other direction: what is shown by comments can be.
* `error_comments_iff` states the main result and `error_comment_broken` the exception.
-/

namespace StpLang

open Source Grammar

/-! ### Lines that count the same -/

section

variable {α β : Type} {p : α → Bool} {l xs : List α} {x : α}

lemma mem_of_mem_splitOnP (hl : l ∈ xs.splitOnP p) (hx : x ∈ l) : x ∈ xs := by
  induction xs generalizing l with
  | nil =>
    rw [List.splitOnP_nil, List.mem_singleton] at hl
    rw [hl] at hx
    cases hx
  | cons y ys ih =>
    rw [List.splitOnP_cons_eq_if_modifyHead] at hl
    split at hl
    · rcases List.mem_cons.mp hl with rfl | hl
      · cases hx
      · exact List.mem_cons_of_mem _ (ih hl hx)
    · obtain ⟨m, ms, hms⟩ := List.exists_cons_of_ne_nil (List.splitOnP_ne_nil p ys)
      rw [hms, List.modifyHead_cons, List.mem_cons] at hl
      rw [hms] at ih
      rcases hl with rfl | hl
      · exact List.mem_cons.mpr ((List.mem_cons.mp hx).imp_right (ih List.mem_cons_self))
      · exact List.mem_cons_of_mem _ (ih (List.mem_cons_of_mem _ hl) hx)

/-- Splitting what things are mapped to. -/
lemma splitOnP_map (f : α → β) (q : β → Bool) (xs : List α) :
    (xs.map f).splitOnP q = (xs.splitOnP fun x => q (f x)).map (List.map f) := by
  induction xs with
  | nil => simp
  | cons y ys ih =>
    obtain ⟨m, ms, hms⟩ := List.exists_cons_of_ne_nil
      (List.splitOnP_ne_nil (fun x => q (f x)) ys)
    rw [List.map_cons, List.splitOnP_cons_eq_if_modifyHead, List.splitOnP_cons_eq_if_modifyHead,
      ih, hms]
    split <;> rfl

end

section

variable {n : Nat} {limit : Int} {es : List Node} {e : Node} {t u : Token}
  {l m us xs : List Token}

/-- Names and the word that can become one aside, tokens count as what they are. -/
lemma Token.kind_eq_of_item (hi : u.item = t.item) (ht : t.kind ≠ .mod ∧ t.kind ≠ .identifier) :
    u.kind = t.kind := by
  have hplain : u.kind.plain = t.kind := by
    rw [← item_kind, hi, item_kind, TokenKind.plain_eq ht.1]
  rcases u.kind.plain_or with hu | ⟨-, hu⟩
  · exact hu.symm.trans hplain
  · exact absurd (hplain.symm.trans hu) ht.2

lemma Token.item_kind_beq (kind : TokenKind) (hk : kind ≠ .mod ∧ kind ≠ .identifier) :
    (t.item.kind == kind) = (t.kind == kind) := by
  rw [Bool.eq_iff_iff, beq_iff_eq, beq_iff_eq, item_kind]
  constructor
  · intro h
    rcases t.kind.plain_or with hp | ⟨-, hp⟩
    · exact hp.symm.trans h
    · exact absurd (h.symm.trans hp) hk.2
  · rintro rfl
    exact TokenKind.plain_eq hk.1

/-- Tokens that count the same are split into lines that count the same. -/
lemma Token.entryLines_items (h : items us = items xs) :
    (entryLines us).map items = (entryLines xs).map items := by
  have hlines (ts : List Token) : (entryLines ts).map items
      = ((items ts).splitOnP (·.kind == .newline)).filter fun l =>
        l.head?.any fun i => i.kind != .rightBrace && i.kind != .eof := by
    have hitems : items = List.map item := funext fun _ => items_eq_map
    rw [hitems, splitOnP_map, List.filter_map, entryLines]
    simp only [item_kind_beq .newline (by decide)]
    congr 1
    refine List.filter_congr fun l _ => ?_
    cases l with
    | nil => rfl
    | cons t l =>
      simp only [opensEntry, Function.comp_apply, List.map_cons, List.head?_cons, Option.any_some,
        bne, item_kind_beq .rightBrace (by decide),
        item_kind_beq .eof (by decide)]
  rw [hlines, hlines, h]

/-- A line that counts the same shows the same statement. -/
lemma Node.ShownOn.of_items (h : e.ShownOn l) (hi : Token.items m = Token.items l) :
    e.ShownOn m := by
  rw [Token.items_eq_map, Token.items_eq_map] at hi
  have hcomment {c : Token} (hl : l = [c]) (hc : c.kind = .comment) :
      ∃ d, m = [d] ∧ d.kind = .comment ∧ d.value = c.value := by
    subst hl
    obtain ⟨d, ds, rfl, hd, hds⟩ := List.map_eq_cons_iff.mp hi
    rw [List.map_eq_nil_iff.mp hds]
    have hk : d.kind = .comment := (Token.kind_eq_of_item hd (by rw [hc]; decide)).trans hc
    have hwords : d.item.words = c.item.words := by rw [hd]
    rw [Token.item_words (by rw [hk]; decide), Token.item_words (by rw [hc]; decide)] at hwords
    exact ⟨d, rfl, hk, (List.cons.inj hwords).1⟩
  unfold Node.ShownOn at h ⊢
  split at h
  · obtain ⟨c, hl, hc, hv⟩ := h
    obtain ⟨d, hm, hd, hsame⟩ := hcomment hl hc
    exact ⟨d, hm, hd, hsame.trans hv⟩
  · obtain ⟨c, hl, hc, hv⟩ := h
    obtain ⟨d, hm, hd, hsame⟩ := hcomment hl hc
    exact ⟨d, hm, hd, by rw [hv, hsame]⟩
  · refine ⟨fun t ht hk => ?_, fun word hword => ?_⟩
    · obtain ⟨u, hu, heq⟩ := List.mem_map.mp (hi ▸ List.mem_map_of_mem ht)
      exact h.1 u hu ((Token.kind_eq_of_item heq (by rw [hk]; decide)).trans hk)
    · have hproper : word ≠ .eof ∧ word ≠ .mod ∧ word ≠ .identifier := by
        generalize e.kind = kind at hword
        cases kind <;> cases hword <;> decide
      have hhead := h.2 word hword
      cases l with
      | nil => exact absurd hhead.symm hproper.1
      | cons t l =>
        obtain ⟨u, ms, rfl, hu, -⟩ := List.map_eq_cons_iff.mp hi
        rw [headKind_cons] at hhead
        exact (Token.kind_eq_of_item hu (hhead ▸ hproper.2)).trans hhead

lemma Charts.of_items (h : Charts es xs) (hi : Token.items us = Token.items xs) :
    Charts es us := by
  have hlines := Token.entryLines_items hi
  unfold Charts at h ⊢
  generalize Token.entryLines xs = ms at h hlines
  generalize Token.entryLines us = ls at hlines ⊢
  induction h generalizing ls with
  | nil =>
    rw [List.map_eq_nil_iff.mp hlines]
    exact .nil
  | cons he _ ih =>
    obtain ⟨l, ls, rfl, hl, hls⟩ := List.map_eq_cons_iff.mp hlines
    exact .cons (he.of_items hl) (ih ls hls)

end

/-! ### Showing errors -/

section

variable {limit : Int} {strict : Bool} {c : Cursor} {us : List Token} {es : List Node} {e : Node}
  {text : String} {t : Tree}

/-- When the errors of a program can be shown as comments, what is written for its
statements has their lines. -/
lemma enters_of_readTokens {s v : Lexer} {e : Token} {trace : List Event}
    (hlex : Lexes limit s us v) (he : e.kind = .eof)
    (h : (readTokens limit false (us ++ [e]) trace).result = .ok t)
    (hf : ∀ n ∈ t.root.children, n.Formed) (hr : ∀ n ∈ t.root.children, n.Remarked) :
    ∀ n ∈ t.root.children, n.Enters limit.toNat := by
  rw [readTokens_result] at h
  cases hs : program (level limit false limit.toNat) 0 (startAt (us ++ [e]) trace) with
  | error e s => rw [hs] at h; cases h
  | ok root s =>
    rw [hs] at h
    cases h
    obtain ⟨⟨ts, hruns, hmends⟩, -, -⟩ := mends_of_program hs
    have hspelled := spelled_of_settle hlex he
    rw [show (Parser.settle 0 none (us ++ [e])).1 = ts ++ s.rest from hruns.rest,
      List.forall_mem_append] at hspelled
    exact hmends.enters hspelled.1 hf hr

/-- The text behind the last token becomes one more error. -/
lemma enters_of_readFrom (h : (readFrom limit strict c).result = .ok t) (hr : t.root.Remarked) :
    ∀ n ∈ t.root.children, n.Enters limit.toNat := by
  have hf := (Node.formed_iff.mp (formed_of_readFrom h).2).2
  have hbelow := ((Node.remarked_iff _).mp hr).2
  obtain ⟨us, v, hlex, ⟨e, w, trace, -, he, ht⟩ | ⟨-, error, trace, t', ht, rfl⟩⟩ :=
    readFrom_cases h
  · exact enters_of_readTokens hlex he ht hf hbelow
  · rw [Tree.withUnreadable] at hf hbelow ⊢
    dsimp only at hf hbelow ⊢
    rw [List.forall_mem_append] at hf hbelow ⊢
    refine ⟨enters_of_readTokens hlex rfl ht hf.1 hbelow.1, List.forall_mem_singleton.mpr ?_⟩
    exact enters_error (((Node.remarked_iff _).mp (List.forall_mem_singleton.mp hbelow.2)).1 rfl)

/-- The text of a program whose statements have their lines is cut into these lines. -/
lemma charts_of_enters (hk : t.root.kind = .sourceFile)
    (h : ∀ n ∈ t.root.children, n.Enters limit.toNat) :
    ∃ text us, Target.stp.render t = .ok text ∧ tokenize text limit = .ok us
      ∧ Charts t.root.entries us := by
  obtain ⟨sheet, d, xs, hrun, hprints, hd, hcharts⟩ := enters_statements h {}
  obtain ⟨ys, hys, hspread⟩ := hprints.output
  obtain ⟨us, e, htokens, he, hitems⟩ := tokenize_of_spread hspread
  have hentries : t.root.entries = t.root.children.flatMap Node.entries := by
    rw [Node.entries_eq, hk]
    rfl
  refine ⟨_, _, render_of_statements hk hrun, htokens, ?_⟩
  have hlast : Charts [] (lineEndToken :: [e]) := by
    have hopens : Token.opensEntry [e] = false := by simp [Token.opensEntry, he]
    have hline : ∀ u ∈ [e], u.kind ≠ .newline := by simp [he]
    rw [charts_lineEnd, Charts, Token.entryLines_line hline, hopens]
    exact .nil
  have hwhole : Charts t.root.entries (ys ++ [e]) := by
    have hall := hcharts.append hlast (.inr ⟨_, rfl⟩)
    rwa [List.append_cons, hys, List.cons_append, charts_lineEnd, List.append_nil,
      ← hentries] at hall
  exact hwhole.of_items (by rw [Token.items_append, Token.items_append, hitems])

/-- An error for which a comment stands in a text can be shown as a comment. -/
lemma Charts.isRemark (h : Charts es us) (htokens : tokenize text limit = .ok us) (he : e ∈ es)
    (hk : e.kind = .error) : isRemark e.remark = true := by
  obtain ⟨line, hline, hshown⟩ : ∃ line ∈ Token.entryLines us, e.ShownOn line := by
    obtain ⟨i, rfl⟩ := List.get_of_mem he
    have hi : i < (Token.entryLines us).length := by
      rw [← List.Forall₂.length_eq h]
      exact i.2
    exact ⟨_, List.get_mem _ ⟨i, hi⟩, List.Forall₂.get h i.2 hi⟩
  unfold Node.ShownOn at hshown
  rw [hk] at hshown
  obtain ⟨c, rfl, hc, hv⟩ := hshown
  have hmem : c ∈ us := mem_of_mem_splitOnP (List.mem_of_mem_filter hline) List.mem_cons_self
  obtain ⟨ts, eof, _, _, rfl, hlexes, -, heof⟩ := lexes_of_tokenize htokens
  rcases List.mem_append.mp hmem with hts | hlast
  · have hspelled := hlexes.spelled c hts
    rw [Token.Spelled, hc] at hspelled
    exact hv ▸ hspelled.isRemark
  · rw [List.mem_singleton.mp hlast, heof] at hc
    cases hc

end

/-- **Errors become comments unless a line ends in them.** Reading with recovery gives a
tree for every text, and the tree has a text. This text can be cut into tokens such that
the lines on which statements begin are those of the statements and errors of the tree,
one after another, and each error has as its line a single comment with its message, if
and only if the comment for no error has a line end in it or a carriage return behind
it. -/
theorem error_comments_iff (source : String) (limit : Int) :
    ∃ t text, parse source false limit = .ok t ∧ Target.stp.render t = .ok text
      ∧ ((∃ us, tokenize text limit = .ok us
          ∧ List.Forall₂ Node.ShownOn t.root.entries (Token.entryLines us))
        ↔ ∀ n ∈ t.root.walk, n.kind = .error → isRemark n.remark = true) := by
  obtain ⟨t, h⟩ := readFrom_ok limit (.ofText source)
  obtain ⟨hk, hformed⟩ := formed_of_readFrom h
  obtain ⟨text, hrender⟩ := Target.render_ok hk hformed .stp
  refine ⟨t, text, h, hrender, ?_, fun hr => ?_⟩
  · rintro ⟨us, htokens, hcharts⟩ n hn herror
    exact Charts.isRemark hcharts htokens (Node.mem_entries.mpr ⟨hn, by rw [herror]; rfl⟩) herror
  · obtain ⟨text', us, hrender', htokens, hcharts⟩ :=
      charts_of_enters hk (enters_of_readFrom h hr)
    obtain rfl : text' = text := Except.ok.inj (hrender'.symm.trans hrender)
    exact ⟨us, htokens, hcharts⟩

/-- A text over two lines where a name belongs. -/
def twoLineName : String := "sym \"a\nb\""

/-- The message of an error quotes what stands in place of the name. The line end in the
quote ends the comment for the error, and what follows cannot be cut into tokens. -/
theorem error_comment_broken :
    ∃ t text e, parse twoLineName false 100 = .ok t ∧ Target.stp.render t = .ok text
      ∧ t.root.entries.map (fun n => (n.kind, n.remark))
        = [(.error, "# error: Expected identifier, got '\"a\nb\"'")]
      ∧ text = "# error: Expected identifier, got '\"a\nb\"'\n"
      ∧ tokenize text 100 = .error e ∧ e.cause = .unterminatedString := by
  obtain ⟨t, h, hshown⟩ := exists_of_map_toOption (show (parse twoLineName false 100).toOption.map
    (fun t => (t.root.entries.map fun n => (n.kind, n.remark), (Target.stp.render t).toOption))
      = some ([(.error, "# error: Expected identifier, got '\"a\nb\"'")],
        some "# error: Expected identifier, got '\"a\nb\"'\n") by decide +kernel)
  obtain ⟨hentries, htext⟩ := Prod.mk.inj hshown
  obtain ⟨text, hrender, htext⟩ : ∃ text, Target.stp.render t = .ok text
      ∧ text = "# error: Expected identifier, got '\"a\nb\"'\n" :=
    exists_of_map_toOption (f := id) (by rw [htext]; rfl)
  obtain ⟨e, he, hcause⟩ := exists_of_map_thrown? (show
    (thrown? (tokenize "# error: Expected identifier, got '\"a\nb\"'\n" 100)).map (·.cause)
      = some .unterminatedString by decide +kernel)
  exact ⟨t, text, e, h, hrender, hentries, htext, htext ▸ he, hcause⟩

end StpLang
