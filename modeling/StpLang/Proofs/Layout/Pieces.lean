import StpLang.Proofs.Layout.Written

/-!
The pieces of a string, written anew.

The pieces of a string keep their spelling; only what stands in a snippet is laid
out anew. So a piece of the new string ends where the old one ended.

* `Restrung` says that characters are read as pieces that count the same as given
  ones.
* `Restrung.chars`, `Restrung.escape`, `Restrung.unicode`, `Restrung.octal` and
  `Restrung.snippet` put a piece before others.
* `Restrung.readsAs` reads the string.
-/

namespace StpLang

open Lexer

/-- The characters `v`, which end with a closing quote, are read as pieces that
count the same as `segs`, and up to the next quote or backslash they are those of
the spelling `w`. -/
structure Restrung (n : Nat) (segs : List (Segment Token)) (w v : List Char) : Prop where
  pieces : ∀ (c : Cursor) (k : List Char), c.rest = v ++ k → ∃ segs',
    Pieces (SnippetAt n) c segs' (c.forward v.length) ∧ pieceWords segs' = pieceWords segs
  same : ∀ p : Char → Bool, p '\\' = false → p '"' = false → v.takeWhile p = w.takeWhile p
  quote : ∃ u, v = u ++ ['"']

namespace Restrung

variable {n : Nat} {seg : Segment Token} {segs : List (Segment Token)} {w v u : List Char}

lemma close : Restrung n [] ['"'] ['"'] :=
  ⟨fun _ _ hc => ⟨[], .close hc, rfl⟩, fun _ _ _ => rfl, [], rfl⟩

/-- The new spelling ends a run of characters where the old one does. -/
lemma head_plain (hs : Restrung n segs w v) (ends : ∀ x ∈ w.head?, Scan.isPlain x = false) :
    ∀ x ∈ v.head?, Scan.isPlain x = false := by
  have hw : w.takeWhile Scan.isPlain = [] := by
    cases w with
    | nil => rfl
    | cons y w => exact List.takeWhile_cons_of_neg (by simp [ends y rfl])
  have hv := (hs.same Scan.isPlain rfl rfl).trans hw
  intro x hx
  cases v with
  | nil => cases hx
  | cons y v =>
    cases hx
    cases hp : Scan.isPlain x with
    | false => rfl
    | true =>
      rw [List.takeWhile_cons_of_pos hp] at hv
      cases hv

/-- A run of characters before other pieces. -/
lemma chars (hs : Restrung n segs w v) (form : seg.form = .chars) (hne : seg.text.toList ≠ [])
    (plain : ∀ x ∈ seg.text.toList, Scan.isPlain x = true)
    (ends : ∀ x ∈ w.head?, Scan.isPlain x = false) :
    Restrung n (seg :: segs) (seg.text.toList ++ w) (seg.text.toList ++ v) := by
  obtain ⟨u, hu⟩ := hs.quote
  refine ⟨fun c k hc => ?_, fun p hb hq => ?_, seg.text.toList ++ u, by rw [hu, List.append_assoc]⟩
  · rw [List.append_assoc] at hc
    obtain ⟨x, text, htext⟩ := List.exists_cons_of_ne_nil hne
    have hends : ∀ x ∈ (v ++ k).head?, Scan.isPlain x = false := by
      have hv := hs.head_plain ends
      rw [hu] at hv ⊢
      cases u <;> exact hv
    have hrun : c.rest.takeWhile Scan.isPlain = seg.text.toList := by
      rw [hc, Scan.takeWhile_append_of plain hends]
    have hrest : (c.forward seg.text.toList.length).rest = v ++ k := by
      rw [Cursor.rest_forward, hc, List.drop_left]
    obtain ⟨segs', hpieces, hwords⟩ := hs.pieces _ _ hrest
    have hplain := Pieces.plain (R := SnippetAt n) (c := c) (x := x) (k := text ++ (v ++ k))
      (by rw [hc, htext]; rfl) (plain x (by rw [htext]; exact List.mem_cons_self))
      (by rw [hrun]; exact hpieces)
    rw [hrun, ← Cursor.forward_add, ← List.length_append] at hplain
    refine ⟨_, hplain, ?_⟩
    rw [pieceWords_cons, pieceWords_cons, hwords, Segment.between, Cursor.textTo_forward hc,
      String.ofList_toList, form]
  · rw [List.takeWhile_append, List.takeWhile_append, hs.same p hb hq]

/-- A piece that begins with a backslash before other pieces. -/
lemma cons (hs : Restrung n segs w v) {text : List Char} (htext : seg.text.toList = '\\' :: text)
    (h : ∀ (c : Cursor) (k : List Char), c.rest = '\\' :: u ++ (v ++ k) → ∃ form,
      Escape (SnippetAt n) c form (c.forward ('\\' :: u).length)
        ∧ formWords (String.ofList ('\\' :: u)) form = formWords seg.text seg.form) :
    Restrung n (seg :: segs) (seg.text.toList ++ w) ('\\' :: u ++ v) := by
  obtain ⟨u', hu'⟩ := hs.quote
  refine ⟨fun c k hc => ?_, fun p hb hq => ?_, '\\' :: u ++ u', by rw [hu', List.append_assoc]⟩
  · rw [List.append_assoc] at hc
    obtain ⟨form, hescape, hform⟩ := h c k hc
    have hrest : (c.forward ('\\' :: u).length).rest = v ++ k := by
      rw [Cursor.rest_forward, hc, List.drop_left]
    obtain ⟨segs', hpieces, hwords⟩ := hs.pieces _ _ hrest
    rw [← Cursor.forward_add, ← List.length_append] at hpieces
    refine ⟨_, .escape hescape hpieces, ?_⟩
    rw [pieceWords_cons, pieceWords_cons, hwords, Segment.between, Cursor.textTo_forward hc, hform]
  · rw [htext, List.cons_append, List.cons_append, List.takeWhile_cons_of_neg (by simp [hb]),
      List.takeWhile_cons_of_neg (by simp [hb])]

/-- A piece that keeps its spelling, which begins with a backslash. -/
lemma kept (hs : Restrung n segs w v) (htext : seg.text.toList = '\\' :: u)
    (hform : ∀ ts, seg.form ≠ .snippet ts)
    (h : ∀ (c : Cursor) (k : List Char), c.rest = '\\' :: u ++ (v ++ k) → ∃ form,
      Escape (SnippetAt n) c form (c.forward ('\\' :: u).length) ∧ ∀ ts, form ≠ .snippet ts) :
    Restrung n (seg :: segs) (seg.text.toList ++ w) (seg.text.toList ++ v) := by
  have hcons := hs.cons (u := u) htext fun c k hc => by
    obtain ⟨form, hescape, hplain⟩ := h c k hc
    refine ⟨form, hescape, ?_⟩
    rw [formWords_plain hplain, formWords_plain hform, ← htext, String.ofList_toList]
  rwa [← htext] at hcons

/-- A backslash and a letter before other pieces. -/
lemma escape (hs : Restrung n segs w v) {x : Char} (form : seg.form = .escape)
    (text : seg.text.toList = ['\\', x]) (hx : Scan.isSimpleEscape x = true) :
    Restrung n (seg :: segs) (seg.text.toList ++ w) (seg.text.toList ++ v) :=
  hs.kept text (by rw [form]; rintro _ ⟨⟩) fun _ _ hc => ⟨_, .simple hc hx, by rintro _ ⟨⟩⟩

/-- An escape of hexadecimal digits takes as many of them as before. -/
lemma unicode (hs : Restrung n segs w v) {digits : String} (form : seg.form = .unicode digits)
    (text : seg.text.toList = '\\' :: 'x' :: u)
    (hu : Scan.escapeDigits? (Scan.hexLength (u ++ w)) = some u.length) :
    Restrung n (seg :: segs) (seg.text.toList ++ w) (seg.text.toList ++ v) := by
  refine hs.kept text (by rw [form]; rintro _ ⟨⟩) fun c k hc => ?_
  have hhex : Scan.hexLength (u ++ (v ++ k)) = Scan.hexLength (u ++ w) := by
    obtain ⟨v', hv'⟩ := hs.quote
    calc Scan.hexLength (u ++ (v ++ k))
        = Scan.hexLength ((u ++ v') ++ '"' :: k) := by rw [hv']; simp
      _ = Scan.hexLength (u ++ v) := by rw [Scan.hexLength_quote, hv', List.append_assoc]
      _ = Scan.hexLength (u ++ w) := by
        rw [Scan.hexLength_eq, Scan.hexLength_eq, List.takeWhile_append, List.takeWhile_append,
          hs.same Scan.isHexDigit rfl rfl]
  refine ⟨_, .unicode (k := u ++ (v ++ k)) (n := u.length) hc (by rw [hhex, hu]), ?_⟩
  rintro _ ⟨⟩

/-- An escape of octal digits before other pieces. -/
lemma octal (hs : Restrung n segs w v) (form : seg.form = .octal)
    (text : seg.text.toList = '\\' :: u) (hu : u.length = 3)
    (digits : ∀ x ∈ u, Scan.isOctalDigit x = true) :
    Restrung n (seg :: segs) (seg.text.toList ++ w) (seg.text.toList ++ v) := by
  refine hs.kept text (by rw [form]; rintro _ ⟨⟩) fun c k hc => ?_
  have hoctal : Scan.octalLength (u ++ (v ++ k)) = 3 := by
    have hall := Scan.takeWhile_append_of (k := []) digits (by simp)
    rw [List.append_nil] at hall
    rw [Scan.octalLength, ← hu, List.take_left, hall]
  have hescape := Escape.octal (R := SnippetAt n) hc hoctal
  rw [List.length_cons, hu]
  exact ⟨_, hescape, by rintro _ ⟨⟩⟩

/-- A snippet before other pieces, where its tokens are written anew. -/
lemma snippet (hs : Restrung (n + 1) segs w v) {ts xs : List Token} {text : List Char}
    (form : seg.form = .snippet ts) (htext : seg.text.toList = '\\' :: text)
    (hxs : ∀ k, Scan.EndsToken k → Written n xs u k) (hb : Balanced xs)
    (hwords : lexemes true [] false (Token.items xs) = lexemes true [] false (Token.items ts)) :
    Restrung (n + 1) (seg :: segs) (seg.text.toList ++ w)
      ('\\' :: ('\x7b' :: (u ++ ['\\', '\x7d'])) ++ v) := by
  refine hs.cons htext fun c k hc => ?_
  have hinner : (c.forward 2).rest = u ++ '\\' :: '\x7d' :: (v ++ k) := by
    rw [Cursor.rest_forward, hc]
    simp
  obtain ⟨us, hcuts, hitems⟩ :=
    (hxs ('\\' :: '\x7d' :: (v ++ k)) (Scan.endsToken_cons rfl rfl)).cuts true true [] hinner
  have hgroups : groupsBehind [] us = [] := (hb.of_items hitems).groups (by simp)
  have hclose : ((c.forward 2).forward u.length).rest = '\\' :: '\x7d' :: (v ++ k) := by
    rw [Cursor.rest_forward, hinner, List.drop_left]
  obtain ⟨e, he, htokens⟩ := hcuts.snippetTokens hgroups hclose
  refine ⟨.snippet (us ++ [e]), ?_, ?_⟩
  · have hlen : ('\\' :: '\x7b' :: (u ++ ['\\', '\x7d'])).length = 2 + (u.length + 2) := by
      simp
      omega
    rw [hlen, Cursor.forward_add, Cursor.forward_add]
    exact .snippet hc htokens
  · rw [form, formWords_snippet, formWords_snippet, Token.items_append, hitems, ← hwords,
      Token.items_cons, Token.items_nil, lexemes_append_eof he]

/-- The string is read, whatever follows. -/
lemma readsAs {t : Token} {k : List Char} (h : Restrung n t.segments w v)
    (hk : t.kind = .string) : ReadsAs n t ('"' :: v) k := by
  refine ⟨⟨'"', v, rfl, by decide⟩, fun c hc => ?_⟩
  have hrest : (c.forward 1).rest = v ++ k := by
    rw [Cursor.rest_forward, hc]
    rfl
  obtain ⟨segs, hpieces, hwords⟩ := h.pieces _ _ hrest
  rw [← Cursor.forward_add, Nat.add_comm] at hpieces
  refine ⟨_, _, _, .string hc hpieces, ?_⟩
  rw [Token.item_string hk, hwords]
  rfl

end Restrung

end StpLang
