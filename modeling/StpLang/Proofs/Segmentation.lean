import StpLang.Proofs.Adjacency.Text

/-!
The pieces of a string.

A string falls into runs of characters, escapes and snippets in exactly one way, which
its text alone determines.

* `Segment.Exact` says what each sort of piece looks like, `Segmentation` that a part of
  the text falls into such pieces.
* `FirstQuote` says where the first quote stands that no backslash escapes.
* `Segmentation.firstQuote`: pieces without snippets reach up to the first such quote.
* `Pieces.segmentation` and `Segmentation.pieces` show that the lexer cuts a string into
  these pieces, and into no others.
* `stringSegments_exact` is the result for all strings of a text.
-/

namespace StpLang

open Lexer

/-! ### Pieces and quotes -/

/-- The number of hexadecimal digits that stand at an offset. -/
def hexAhead (cs : List Char) (i : Nat) : Nat :=
  ((cs.drop i).takeWhile Scan.isHexDigit).length

/-- How many digits a unicode escape takes of those that are there. -/
def digitsTaken (available : Nat) : Nat :=
  if 8 ≤ available then 8 else if 4 ≤ available then 4 else 2

/-- The tokens end with their only end mark, which stands at an offset. -/
def EndsAt (stop : Nat) (ts : List Token) : Prop :=
  ∃ us e, ts = us ++ [e] ∧ (∀ u ∈ us, u.kind ≠ .eof)
    ∧ e.kind = .eof ∧ e.start = stop ∧ e.stop = stop

/-- A piece is spelled as its sort demands. -/
inductive Segment.Exact (cs : List Char) (seg : Segment Token) : Prop
  | chars (form : seg.form = .chars) (nonempty : seg.text.toList ≠ [])
      (plain : ∀ x ∈ seg.text.toList, x ≠ '"' ∧ x ≠ '\\')
  | escape {x : Char} (form : seg.form = .escape) (text : seg.text.toList = ['\\', x])
      (letter : x ∈ "rntbf\"\\".toList)
  | unicode {w : List Char} (form : seg.form = .unicode (String.ofList w))
      (text : seg.text.toList = '\\' :: 'x' :: w) (digits : ∀ x ∈ w, Scan.isHexDigit x = true)
      (enough : 2 ≤ hexAhead cs (seg.start + 2))
      (taken : w.length = digitsTaken (hexAhead cs (seg.start + 2)))
  | octal {x y z : Char} (form : seg.form = .octal) (text : seg.text.toList = ['\\', x, y, z])
      (digits : ∀ d ∈ [x, y, z], Scan.isOctalDigit d = true)
  | snippet {ts : List Token} {w : List Char} (form : seg.form = .snippet ts)
      (text : seg.text.toList = '\\' :: '{' :: (w ++ ['\\', '}']))
      (tokens : EndsAt (seg.stop - 2) ts)

/-- The text between two offsets falls into pieces. -/
structure Segmentation (cs : List Char) (lo : Nat) (segs : List (Segment Token)) (hi : Nat) :
    Prop where
  /-- The pieces follow each other without a gap and are spelled as the text there. -/
  pieced : Pieced cs lo segs hi
  exact : ∀ seg ∈ segs, seg.Exact cs
  /-- A run of characters is not cut in two. -/
  maximal : segs.IsChain fun a b => ¬(a.form = .chars ∧ b.form = .chars)

/-- The pieces of a string fill it, up to its quotes. -/
structure Token.Segmented (cs : List Char) (t : Token) : Prop where
  segmentation : Segmentation cs (t.start + 1) t.segments (t.stop - 1)
  value : t.value.toList = '"' :: (t.segments.flatMap (·.text.toList) ++ ['"'])

/-- No piece is a snippet. -/
def SnippetFree (segs : List (Segment Token)) : Prop :=
  ∀ seg ∈ segs, ∀ ts, seg.form ≠ .snippet ts

/-- The number of backslashes with which a text ends. -/
def backslashes (w : List Char) : Nat := (w.reverse.takeWhile (· == '\\')).length

/-- From the offset `lo` on, the first quote that is not escaped stands at `p`: behind
`lo` an even number of backslashes stands right before it, and an odd number before
each earlier quote. -/
structure FirstQuote (cs : List Char) (lo p : Nat) : Prop where
  order : lo ≤ p
  quote : cs[p]? = some '"'
  unescaped : backslashes (Text.slice cs lo p) % 2 = 0
  first : ∀ q, lo ≤ q → q < p → cs[q]? = some '"' →
    backslashes (Text.slice cs lo q) % 2 = 1

/-! ### Escaped quotes -/

lemma backslashes_concat (v : List Char) (x : Char) :
    backslashes (v ++ [x]) = if x = '\\' then backslashes v + 1 else 0 := by
  rw [backslashes, List.reverse_append, List.reverse_singleton, List.singleton_append,
    List.takeWhile_cons]
  by_cases hx : x = '\\' <;> simp [hx, backslashes]

/-- Wherever the text stands behind an even number of backslashes, it ends with an even
number of them, and each of its quotes is escaped. -/
def Guarded (w : List Char) : Prop :=
  ∀ v, backslashes v % 2 = 0 → backslashes (v ++ w) % 2 = 0
    ∧ ∀ u k, w = u ++ '"' :: k → backslashes (v ++ u) % 2 = 1

lemma Guarded.nil : Guarded [] :=
  fun v hv => ⟨by rwa [List.append_nil], fun u k h => by simp at h⟩

lemma Guarded.append {w w' : List Char} (h : Guarded w) (h' : Guarded w') : Guarded (w ++ w') := by
  intro v hv
  obtain ⟨heven, hodd⟩ := h v hv
  obtain ⟨heven', hodd'⟩ := h' (v ++ w) heven
  refine ⟨by rwa [← List.append_assoc], fun u k hk => ?_⟩
  rcases List.append_eq_append_iff.mp hk with ⟨m, rfl, hm⟩ | ⟨m, rfl, hm⟩
  · rw [← List.append_assoc]
    exact hodd' m k hm
  · cases m with
    | nil =>
      rw [List.append_nil] at hodd'
      have := hodd' [] k (by simpa using hm.symm)
      simpa using this
    | cons x m =>
      rw [List.cons_append] at hm
      obtain ⟨rfl, -⟩ := List.cons.inj hm
      exact hodd u m rfl

/-- Characters that stand for themselves. -/
lemma Guarded.plain {w : List Char} (h : ∀ x ∈ w, x ≠ '"' ∧ x ≠ '\\') : Guarded w := by
  induction w with
  | nil => exact .nil
  | cons x w ih =>
    obtain ⟨⟨hquote, hback⟩, hw⟩ := List.forall_mem_cons.mp h
    refine Guarded.append (w := [x]) (fun v hv => ⟨?_, fun u k hk => ?_⟩) (ih hw)
    · rw [backslashes_concat, if_neg hback]
    · cases u with
      | nil => exact absurd (List.cons.inj hk).1 hquote
      | cons y u => simp at hk

/-- A backslash and any character. -/
lemma Guarded.escape (x : Char) : Guarded ['\\', x] := by
  intro v hv
  have hone : backslashes (v ++ ['\\']) % 2 = 1 := by
    rw [backslashes_concat, if_pos rfl]
    omega
  have hsplit : v ++ ['\\', x] = (v ++ ['\\']) ++ [x] := by simp
  refine ⟨?_, fun u k hk => ?_⟩
  · rw [hsplit, backslashes_concat]
    split
    · omega
    · rfl
  · match u with
    | [] => simp at hk
    | [y] =>
      obtain ⟨rfl, -⟩ := List.cons.inj hk
      exact hone
    | y :: z :: u => simp at hk

lemma Scan.ne_of_isHexDigit {x : Char} (h : isHexDigit x = true) : x ≠ '"' ∧ x ≠ '\\' := by
  have hplain := isPlain_of_isHexDigit h
  simpa only [isPlain, Bool.and_eq_true, bne_iff_ne] using hplain

/-- A piece that is no snippet leaves no quote without its backslash. -/
lemma Segment.Exact.guarded {cs : List Char} {seg : Segment Token} (h : seg.Exact cs)
    (hs : ∀ ts, seg.form ≠ .snippet ts) : Guarded seg.text.toList := by
  cases h with
  | chars form nonempty plain => exact .plain plain
  | @escape x form text letter =>
    rw [text]
    exact .escape x
  | @unicode w form text digits =>
    rw [text]
    exact (Guarded.escape 'x').append (.plain fun x hx => Scan.ne_of_isHexDigit (digits x hx))
  | @octal x y z form text digits =>
    have hplain : Guarded [y, z] := .plain fun d hd => Scan.ne_of_isHexDigit
      (Scan.isHexDigit_of_isOctalDigit (digits d (List.mem_cons_of_mem _ hd)))
    rw [text]
    exact (Guarded.escape x).append hplain
  | snippet form => exact absurd form (hs _)

section

variable {cs : List Char} {lo hi p : Nat} {seg : Segment Token} {segs : List (Segment Token)}

lemma Pieced.order (h : Pieced cs lo segs hi) : lo ≤ hi := by
  induction h with
  | nil => exact Nat.le_refl _
  | cons first _ extent _ _ _ _ ih => omega

/-- Pieces spell the text that they fill. -/
lemma Pieced.text_eq (h : Pieced cs lo segs hi) :
    segs.flatMap (·.text.toList) = Text.slice cs lo hi := by
  induction h with
  | nil =>
    symm
    rw [Text.slice, List.flatMap_nil, List.drop_eq_nil_iff, List.length_take]
    omega
  | @cons lo hi seg segs first place extent text _ _ more ih =>
    rw [List.flatMap_cons, ih, text, first, slice_append (by omega) more.order]

/-- The pieces behind the first one. -/
lemma Segmentation.tail (h : Segmentation cs lo (seg :: segs) hi) :
    Segmentation cs seg.stop segs hi := by
  obtain ⟨hpieced, hexact, hmax⟩ := h
  cases hpieced with
  | cons _ _ _ _ _ _ more => exact ⟨more, (List.forall_mem_cons.mp hexact).2, hmax.tail⟩

/-- Pieces without snippets leave no quote without its backslash. -/
lemma Segmentation.guarded (h : Segmentation cs lo segs hi) (hs : SnippetFree segs) :
    Guarded (Text.slice cs lo hi) := by
  rw [← h.pieced.text_eq]
  have hexact := h.exact
  clear h
  induction segs with
  | nil => exact .nil
  | cons seg segs ih =>
    rw [List.forall_mem_cons] at hexact
    rw [SnippetFree, List.forall_mem_cons] at hs
    exact (hexact.1.guarded hs.1).append (ih hs.2 hexact.2)

/-- A quote behind pieces without snippets is the first that is not escaped. -/
lemma Segmentation.firstQuote (h : Segmentation cs lo segs p) (hs : SnippetFree segs)
    (hq : cs[p]? = some '"') : FirstQuote cs lo p := by
  obtain ⟨heven, hodd⟩ := h.guarded hs [] rfl
  refine ⟨h.pieced.order, hq, heven, fun q hlo hqp hquote => ?_⟩
  refine hodd (Text.slice cs lo q) (Text.slice cs (q + 1) p) ?_
  rw [← slice_append hlo (Nat.le_of_lt hqp), slice_eq_cons hquote hqp]

end

/-! ### What the lexer reads -/

/-- The tokens of a snippet end with an end mark at its closing mark. -/
def SnippetRel.Closes (R : SnippetRel) : Prop :=
  ∀ ⦃c ts d⦄, R c ts d →
    ∃ e : Cursor, c.Ahead e ∧ (∃ k, e.rest = '\\' :: '}' :: k) ∧ e.forward 2 = d ∧ EndsAt e.pos ts

section

variable {R : SnippetRel} {cs : List Char} {c d : Cursor} {segs : List (Segment Token)}

lemma SnippetTokens.closes (hR : R.Moves) {groups ts : List Token} {spaced : Bool}
    (h : SnippetTokens R groups spaced c ts d) :
    ∃ e : Cursor, c.Ahead e ∧ (∃ k, e.rest = '\\' :: '}' :: k) ∧ e.forward 2 = d
      ∧ EndsAt e.pos ts := by
  induction h with
  | @close spaced c d k hd h =>
    exact ⟨d, hd ▸ ahead_gap true [] c, ⟨k, h⟩, rfl, [], _, rfl, by simp, rfl, rfl, rfl⟩
  | @more groups spaced c d e t ts h _ ih =>
    obtain ⟨f, hf, hk, hd, us, u, rfl, hus, hu⟩ := ih
    have hne : t.kind ≠ .eof := by
      obtain ⟨h⟩ := h
      exact h.plain.1
    exact ⟨f, (h.before hR).ahead.trans hf, hk, hd, t :: us, u, rfl,
      List.forall_mem_cons.mpr ⟨hne, hus⟩, hu⟩

lemma SnippetAt.closes (allowance : Nat) : SnippetRel.Closes (SnippetAt allowance) := by
  cases allowance with
  | zero => exact fun _ _ _ h => h.elim
  | succ n => exact fun _ _ _ h => SnippetTokens.closes (SnippetAt.moves n) h

/-- The digits that an escape takes, of those that are there. -/
lemma Scan.escapeDigits?_eq {k : List Char} {n : Nat} :
    escapeDigits? (hexLength k) = some n ↔
      2 ≤ (k.takeWhile isHexDigit).length ∧ n = digitsTaken (k.takeWhile isHexDigit).length := by
  rw [hexLength_eq]
  generalize (k.takeWhile isHexDigit).length = available
  simp only [escapeDigits?, digitsTaken, List.find?_cons, List.find?_nil, Nat.le_min]
  by_cases h8 : 8 ≤ available
  · simp [h8]
    omega
  by_cases h4 : 4 ≤ available
  · simp [h8, h4]
    omega
  by_cases h2 : 2 ≤ available
  · simp [h8, h4, h2]
    omega
  · simp [h8, h4, h2]

/-- An escape that is read is spelled as its sort demands. -/
lemma Escape.exact (hC : R.Closes) (hc : c.In cs) {form : SegmentForm Token}
    (h : Escape R c form d) : (Segment.between form c d).Exact cs := by
  cases h with
  | @simple x k h hx =>
    have htext : (c.textTo (c.forward 2)).toList = ['\\', x] :=
      Cursor.textTo_eq (w := ['\\', x]) h
    exact .escape rfl htext (List.contains_iff_mem.mp hx)
  | @unicode k n h hn =>
    have hk : cs.drop (c.pos + 2) = k := by rw [← List.drop_drop, hc.drop, h]; rfl
    have hle : n ≤ k.length := Scan.escapeDigits?_le hn
    have htext : (c.textTo (c.forward (n + 2))).toList = '\\' :: 'x' :: k.take n := by
      rw [Cursor.textTo_forward_take (by rw [h]; simp [hle]), h, String.toList_ofList]
      rfl
    obtain ⟨henough, htaken⟩ := Scan.escapeDigits?_eq.mp hn
    refine .unicode rfl htext (Scan.hex_take hn) ?_ ?_
    · rwa [hexAhead, Segment.between, hk]
    · rw [List.length_take, Nat.min_eq_left hle, hexAhead, Segment.between, hk]
      exact htaken
  | @octal k h hn =>
    obtain ⟨hlen, hall⟩ := Scan.octal_take hn
    obtain ⟨x, y, z, hxyz⟩ := List.length_eq_three.mp hlen
    have htext : (c.textTo (c.forward 4)).toList = ['\\', x, y, z] := by
      refine Cursor.textTo_eq (w := ['\\', x, y, z]) (k := k.drop 3) ?_
      rw [h, ← hxyz, List.cons_append, List.take_append_drop]
    exact .octal rfl htext (hxyz ▸ hall)
  | @snippet k ts d h hs =>
    obtain ⟨e, he, ⟨k', hk'⟩, rfl, hend⟩ := hC hs
    have h2 : 2 ≤ c.rest.length := by rw [h]; simp
    have hce := (Cursor.ahead_forward h2).trans he
    have h2' : 2 ≤ e.rest.length := by rw [hk']; simp
    have hpos : (e.forward 2).pos = e.pos + 2 := Cursor.pos_forward h2'
    have htext : (c.textTo (e.forward 2)).toList
        = '\\' :: '{' :: (((c.forward 2).textTo e).toList ++ ['\\', '}']) := by
      have hsplit := (hce.trans (Cursor.ahead_forward h2')).rest_eq
      have hinner := he.rest_eq
      rw [Cursor.rest_forward 2 e, hk'] at hsplit
      rw [Cursor.rest_forward, h, hk'] at hinner
      have hall : (c.textTo (e.forward 2)).toList ++ k'
          = ('\\' :: '{' :: (((c.forward 2).textTo e).toList ++ ['\\', '}'])) ++ k' := by
        calc (c.textTo (e.forward 2)).toList ++ k'
            = '\\' :: '{' :: k := by rw [← h]; exact hsplit.symm
          _ = '\\' :: '{' :: (((c.forward 2).textTo e).toList ++ '\\' :: '}' :: k') := by
            rw [← hinner]
            rfl
          _ = _ := by simp
      exact List.append_cancel_right hall
    refine .snippet rfl htext ?_
    rwa [Segment.between, hpos, Nat.add_sub_cancel]

/-- A run of characters that is read is not empty and holds neither mark. -/
lemma exact_plain {x : Char} {k : List Char} (h : c.rest = x :: k)
    (hx : Scan.isPlain x = true) :
    (Segment.between .chars c (c.forward (c.rest.takeWhile Scan.isPlain).length)).Exact cs := by
  have htext : (c.textTo (c.forward (c.rest.takeWhile Scan.isPlain).length)).toList
      = c.rest.takeWhile Scan.isPlain :=
    Cursor.textTo_eq List.takeWhile_append_dropWhile.symm
  refine .chars rfl ?_ ?_
  · rw [Segment.between, htext, h]
    simp [hx]
  · rw [Segment.between, htext]
    intro y hy
    have hplain := Scan.forall_mem_takeWhile Scan.isPlain c.rest y hy
    simpa only [Scan.isPlain, Bool.and_eq_true, bne_iff_ne] using hplain

/-- Pieces that begin where a run of characters has ended begin with no other run. -/
lemma Pieces.head?_form (h : Pieces R c segs d) (hc : ∀ x ∈ c.rest.head?, Scan.isPlain x = false) :
    ∀ seg ∈ segs.head?, seg.form ≠ .chars := by
  cases h with
  | close => simp
  | plain h hx =>
    have := hc _ (by rw [h]; rfl)
    rw [hx] at this
    cases this
  | escape h =>
    simp only [List.head?_cons, Option.mem_some_iff, forall_eq']
    cases h <;> simp [Segment.between]

/-- What the lexer reads is a segmentation, up to the closing quote. -/
lemma Pieces.segmentation (hR : R.Moves) (hT : R.Tiles cs) (hC : R.Closes)
    (h : Pieces R c segs d) (hc : c.In cs) : Segmentation cs c.pos segs (d.pos - 1) := by
  suffices hexact : (∀ seg ∈ segs, seg.Exact cs)
      ∧ segs.IsChain fun a b => ¬(a.form = .chars ∧ b.form = .chars) from
    ⟨(h.pieced hR hT hc).1, hexact.1, hexact.2⟩
  induction h with
  | close => exact ⟨by simp, .nil⟩
  | @plain c d segs x k h hx hs ih =>
    obtain ⟨hexact, hmax⟩ := ih (hc.forward _)
    refine ⟨List.forall_mem_cons.mpr ⟨exact_plain h hx, hexact⟩, ?_⟩
    have hhead := hs.head?_form (by
      rw [Cursor.rest_forward, Scan.drop_takeWhile]
      exact Scan.head?_dropWhile _ _)
    exact hmax.cons fun b hb hboth => hhead b hb hboth.2
  | @escape c d e form segs h hs ih =>
    obtain ⟨hexact, hmax⟩ := ih ((h.before hR).ahead.in_ hc)
    refine ⟨List.forall_mem_cons.mpr ⟨h.exact hC hc, hexact⟩, ?_⟩
    exact hmax.cons fun b hb hboth => by cases h <;> cases hboth.1

/-- The pieces of a string end with its closing quote. -/
lemma Pieces.quote_at (hR : R.Moves) (h : Pieces R c segs d) (hc : c.In cs) :
    0 < d.pos ∧ cs[d.pos - 1]? = some '"' := by
  induction h with
  | @close c k h =>
    rw [Cursor.pos_forward (by rw [h]; simp)]
    refine ⟨by omega, ?_⟩
    rw [Nat.add_sub_cancel, ← List.head?_drop, hc.drop, h]
    rfl
  | plain h hx _ ih => exact ih (hc.forward _)
  | escape h _ ih => exact ih ((h.before hR).ahead.in_ hc)

/-! ### What can be read -/

/-- A piece that is no run of characters begins with a backslash. -/
lemma Segment.Exact.backslash {seg : Segment Token} (h : seg.Exact cs) (hne : seg.form ≠ .chars) :
    ∃ w, seg.text.toList = '\\' :: w := by
  cases h with
  | chars form => exact absurd form hne
  | escape _ text | unicode _ text | octal _ text | snippet _ text => exact ⟨_, text⟩

variable {lo hi p : Nat} {seg : Segment Token}

/-- The first piece at a cursor is the text ahead of it. -/
lemma Pieced.first (h : Pieced cs c.pos (seg :: segs) hi) (hc : c.In cs) :
    c.rest = seg.text.toList ++ cs.drop seg.stop
      ∧ (c.forward seg.text.toList.length).pos = seg.stop
      ∧ seg = .between seg.form c (c.forward seg.text.toList.length) := by
  obtain ⟨form, w, line, col, start, stop⟩ := seg
  cases h with
  | cons first place extent text _ _ _ =>
    obtain ⟨horder, hinside, hline, hcol⟩ := place
    dsimp only at first text extent horder hinside hline hcol ⊢
    subst first
    have hrest : c.rest = w.toList ++ cs.drop stop := by
      rw [text, ← hc.drop, drop_eq_slice_append horder]
    have hlen : w.toList.length = stop - c.pos := by
      rw [text, Text.slice, List.length_drop, List.length_take, Nat.min_eq_left hinside]
    have hpos : (c.forward w.toList.length).pos = stop := by
      rw [(Cursor.forward_append hrest).2.2, hlen]
      omega
    refine ⟨hrest, hpos, ?_⟩
    rw [Segment.between, Cursor.textTo_forward hrest, String.ofList_toList, hpos, hc.line,
      hc.col, hline, hcol]

/-- Behind a run of characters stands a quote or a backslash. -/
lemma Segmentation.head_plain (h : Segmentation cs lo segs p) (hq : cs[p]? = some '"')
    (hs : ∀ seg ∈ segs.head?, seg.form ≠ .chars) :
    ∀ x ∈ (cs.drop lo).head?, Scan.isPlain x = false := by
  obtain ⟨hpieced, hexact, -⟩ := h
  cases hpieced with
  | nil =>
    rw [List.head?_drop, hq]
    simp [Scan.isPlain]
  | @cons _ _ seg segs first place extent text _ _ _ =>
    obtain ⟨w, hw⟩ := (hexact seg List.mem_cons_self).backslash (hs seg rfl)
    rw [← first, drop_eq_slice_append place.order, ← text, hw]
    simp [Scan.isPlain]

/-- The lexer reads every segmentation without snippets, up to a quote. -/
lemma Segmentation.pieces (h : Segmentation cs c.pos segs p) (hs : SnippetFree segs)
    (hc : c.In cs) (hq : cs[p]? = some '"') : ∃ d, Pieces R c segs d ∧ d.pos = p + 1 := by
  induction segs generalizing c with
  | nil =>
    have hp : p = c.pos := by
      cases h.pieced
      rfl
    obtain ⟨k, hk⟩ : ∃ k, c.rest = '"' :: k := by
      rw [hp, ← List.head?_drop, hc.drop] at hq
      exact List.head?_eq_some_iff.mp hq
    exact ⟨c.forward 1, .close hk, by rw [Cursor.pos_forward (by rw [hk]; simp), hp]⟩
  | cons seg segs ih =>
    obtain ⟨hrest, hpos, hseg⟩ := h.pieced.first hc
    rw [SnippetFree, List.forall_mem_cons] at hs
    have htail := h.tail
    rw [← hpos] at htail
    obtain ⟨d, hd, hdp⟩ := ih htail hs.2 (hc.forward _)
    refine ⟨d, ?_, hdp⟩
    have hexact := h.exact seg List.mem_cons_self
    clear ih htail
    rw [hseg]
    cases hexact with
    | chars form nonempty plain =>
      have hhead := h.tail.head_plain hq fun b hb hform => by
        cases segs with
        | nil => cases hb
        | cons b' segs =>
          cases hb
          exact (List.isChain_cons_cons.mp h.maximal).1 ⟨form, hform⟩
      have hplain : ∀ x ∈ seg.text.toList, Scan.isPlain x = true := fun x hx => by
        simp [Scan.isPlain, plain x hx]
      have hrun : c.rest.takeWhile Scan.isPlain = seg.text.toList := by
        rw [hrest, List.takeWhile_append_of_pos hplain]
        cases hk : cs.drop seg.stop with
        | nil => simp
        | cons x k =>
          rw [hk] at hhead
          simp [hhead x rfl]
      obtain ⟨x, w, hw⟩ := List.exists_cons_of_ne_nil nonempty
      rw [form, ← hrun]
      refine .plain (x := x) (k := w ++ cs.drop seg.stop) (by rw [hrest, hw]; rfl)
        (hplain x (by rw [hw]; exact List.mem_cons_self)) ?_
      rwa [hrun]
    | @escape x form text letter =>
      rw [form, text]
      rw [text] at hrest hd
      exact .escape (.simple hrest (List.contains_iff_mem.mpr letter)) hd
    | @unicode w form text digits enough taken =>
      have hstart : seg.start = c.pos := by rw [hseg]; rfl
      have hk : cs.drop (seg.start + 2) = w ++ cs.drop seg.stop := by
        rw [hstart, ← List.drop_drop, hc.drop, hrest, text]
        rfl
      have hn : Scan.escapeDigits? (Scan.hexLength (w ++ cs.drop seg.stop)) = some w.length :=
        Scan.escapeDigits?_eq.mpr (by rw [← hk]; exact ⟨enough, taken⟩)
      have hform := Escape.unicode (R := R) (c := c) (by rw [hrest, text]; rfl) hn
      rw [List.take_left, ← form] at hform
      rw [text] at hd ⊢
      exact .escape hform hd
    | @octal x y z form text digits =>
      rw [form, text]
      rw [text] at hrest hd
      refine .escape (.octal hrest ?_) hd
      simp only [List.forall_mem_cons] at digits
      simp [Scan.octalLength, digits]
    | snippet form => exact absurd form (hs.1 _)

/-! ### Strings -/

/-- A string that is cut off falls into its pieces. -/
lemma Lexeme.segmented (hR : R.Moves) (hT : R.Tiles cs) (hC : R.Closes) {value : String}
    (h : Lexeme R c .string value segs d) (hc : c.In cs) (spaced : Bool) :
    (Token.between .string value spaced segs c d).Segmented cs := by
  have hb := h.before hR
  obtain ⟨k, hq, hs, rfl⟩ := h.string_inv
  have hstart : (c.forward 1).pos = c.pos + 1 := Cursor.pos_forward (by rw [hq]; simp)
  have hseg := hs.segmentation hR hT hC (hc.forward 1)
  have hle := (hs.before hR).lt
  obtain ⟨-, hclose⟩ := hs.quote_at hR (hc.forward 1)
  rw [hstart] at hseg hle
  refine ⟨hseg, ?_⟩
  have hopen : cs[c.pos]? = some '"' := by
    rw [← List.head?_drop, hc.drop, hq]
    rfl
  have hlast : Text.slice cs (d.pos - 1) d.pos = ['"'] := by
    rw [slice_eq_cons hclose (by omega), Nat.sub_add_cancel (by omega), Text.slice,
      List.drop_eq_nil_of_le (by rw [List.length_take]; omega)]
  calc (c.textTo d).toList
      = '"' :: Text.slice cs (c.pos + 1) d.pos := by
        rw [hb.ahead.textTo hc, slice_eq_cons hopen hb.lt]
    _ = '"' :: (Text.slice cs (c.pos + 1) (d.pos - 1) ++ ['"']) := by
        rw [← hlast, slice_append (by omega) (by omega)]
    _ = '"' :: (segs.flatMap (·.text.toList) ++ ['"']) := by rw [hseg.pieced.text_eq]

/-- In any text every string that is cut off falls into its pieces. -/
lemma lexical_segmented (cs : List Char) :
    Lexical cs fun u => u.kind = .string → u.Segmented cs where
  lexeme spaced h hc hk := by
    have hk : _ = TokenKind.string := hk
    subst hk
    exact h.segmented (SnippetAt.moves _) (SnippetAt.tiles _ cs) (SnippetAt.closes _) hc spaced
  eof _ _ hk := by cases hk

/-- Without snippets the lexer reads exactly the segmentations up to the first quote that
is not escaped. -/
lemma stringSegments_iff {s : Lexer} (hc : s.cursor.In cs) (limit : Int) (allowance : Nat)
    {p : Nat} (hs : SnippetFree segs) :
    (∃ t, stringSegments (readSnippet limit allowance) s.cursor.rest.length s = .ok segs t
        ∧ t.cursor.pos = p + 1) ↔
      Segmentation cs s.cursor.pos segs p ∧ FirstQuote cs s.cursor.pos p := by
  have hf := readsSnippets limit allowance
  have hR := SnippetAt.moves allowance
  constructor
  · rintro ⟨t, ht, hp⟩
    obtain ⟨hpieces, -, -⟩ := stringSegments_inv hf ht
    have hseg := hpieces.segmentation hR (SnippetAt.tiles _ cs) (SnippetAt.closes _) hc
    obtain ⟨-, hq⟩ := hpieces.quote_at hR hc
    rw [hp, Nat.add_sub_cancel] at hseg hq
    exact ⟨hseg, hseg.firstQuote hs hq⟩
  · rintro ⟨hseg, hfirst⟩
    obtain ⟨d, hpieces, hd⟩ := hseg.pieces hs hc hfirst.quote
    obtain ⟨t, ht, rfl, -, -⟩ := stringSegments_of hf hR (Nat.le_refl _) hpieces
    exact ⟨t, ht, hd⟩

end

/-- **Strings fall into their pieces in one way**: the pieces of each string of a text, in
snippets too, fill it up to its quotes and are spelled as their sorts demand; and from any
place the inside of a string without snippets is read up to the quote at `p` exactly when
the text up to `p` falls into those pieces and the quote is the first that is not
escaped. -/
theorem stringSegments_exact (source : String) (limit : Int) :
    (∀ ts, tokenize source limit = .ok ts →
      ∀ u ∈ ts.flatMap Token.walk, u.kind = .string → u.Segmented source.toList)
    ∧ ∀ (s : Lexer) (allowance p : Nat) (segs : List (Segment Token)),
      s.cursor.In source.toList →
      ((SnippetFree segs ∧ ∃ t,
          stringSegments (readSnippet limit allowance) s.cursor.rest.length s = .ok segs t
            ∧ t.cursor.pos = p + 1) ↔
        SnippetFree segs ∧ Segmentation source.toList s.cursor.pos segs p
          ∧ FirstQuote source.toList s.cursor.pos p) :=
  ⟨fun _ h => (lexical_segmented source.toList).tokenize h,
    fun _ allowance _ _ hc => and_congr_right fun hs => stringSegments_iff hc limit allowance hs⟩

/-- A string with all sorts of pieces and a string in its snippet; and a text whose first
quote is escaped. -/
theorem stringSegments_exact_escapes :
    (∃ ts, tokenize "\"a\\\"\\x41f\\101\\\x7b\"c\"\\\x7d\"" 1 = .ok ts
      ∧ (ts.flatMap Token.walk).countP (·.kind == .string) = 2
      ∧ ∀ u ∈ ts.flatMap Token.walk, u.kind = .string →
        u.Segmented "\"a\\\"\\x41f\\101\\\x7b\"c\"\\\x7d\"".toList)
    ∧ ∃ segs, segs.length = 2 ∧ Segmentation "a\\\"\" b".toList 0 segs 3
      ∧ FirstQuote "a\\\"\" b".toList 0 3 := by
  constructor
  · have hcount : ((tokenize "\"a\\\"\\x41f\\101\\\x7b\"c\"\\\x7d\"" 1).toOption.map
        fun ts => (ts.flatMap Token.walk).countP (·.kind == .string)) = some 2 := by
      decide +kernel
    cases h : tokenize "\"a\\\"\\x41f\\101\\\x7b\"c\"\\\x7d\"" 1 with
    | error e =>
      rw [h] at hcount
      cases hcount
    | ok ts =>
      rw [h] at hcount
      exact ⟨ts, rfl, Option.some.inj hcount, (stringSegments_exact _ 1).1 ts h⟩
  · refine ⟨[.between .chars (.ofText "a\\\"\" b") ((Cursor.ofText "a\\\"\" b").forward 1),
      .between .escape ((Cursor.ofText "a\\\"\" b").forward 1)
        ((Cursor.ofText "a\\\"\" b").forward 3)], rfl, ?_⟩
    have hfree : SnippetFree [.between .chars (.ofText "a\\\"\" b")
        ((Cursor.ofText "a\\\"\" b").forward 1), .between .escape
        ((Cursor.ofText "a\\\"\" b").forward 1) ((Cursor.ofText "a\\\"\" b").forward 3)] := by
      simp [SnippetFree, Segment.between]
    exact (((stringSegments_exact "a\\\"\" b" 0).2 { cursor := .ofText "a\\\"\" b" } 0 3 _
      (Cursor.in_ofText _)).mp ⟨hfree, _, rfl, rfl⟩).2

end StpLang
