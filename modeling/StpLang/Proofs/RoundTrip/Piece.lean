import StpLang.Proofs.RoundTrip.Speaks

/-!
Strings are read as they are written.

The pieces of a string are found again in its text because each of them ends where
the lexer would end it. A snippet holds the text of an expression, which is read on
its own.

* `Strung` says that the pieces of a string are read from their text.
* `Strung.chars`, `Strung.kept` and `Strung.snippet` put a piece before others.
* `Strung.speaks` reads the string.
-/

namespace StpLang

open Lexer Source
open Grammar (segmentKind segmentPlace)

/-- The texts of the pieces `ns` are read as these pieces, up to and including the
closing quote. -/
structure Strung (n : Nat) (ns : List Node) (ps : List String) : Prop where
  texts : segmentTexts ns = ps.map .ok
  lead : ∀ k, ((String.join ps).toList ++ '"' :: k).takeWhile Scan.isPlain = Node.leadingChars ns
  pieces : ∀ (c : Cursor) (k : List Char), c.rest = (String.join ps).toList ++ '"' :: k →
    ∃ segs ms, Pieces (SnippetAt n) c segs (c.forward ((String.join ps).toList.length + 1))
      ∧ Node.allAgree false ns ms = true
      ∧ ∀ {a : Nat}, Node.toll ns ≤ a + 1 → Derives a (.segments segs) [] [] ms

section

variable {n : Nat} {e x y : Node} {ns : List Node} {ps : List String} {s : String} {w : List Char}

lemma Strung.nil : Strung n [] [] := by
  refine ⟨by simp [segmentTexts], fun k => ?_, fun c k hc => ?_⟩
  · exact List.takeWhile_cons_of_neg (by decide)
  · exact ⟨[], [], .close hc, Node.allAgree_nil _, fun _ => .segmentsNil⟩

lemma join_cons_toList (s : String) (ps : List String) :
    (String.join (s :: ps)).toList = s.toList ++ (String.join ps).toList := by
  rw [String.join_cons, String.toList_append]

/-- A run of characters before other pieces. -/
lemma Strung.chars (h : Strung n ns ps) (hx : x.Has .chars [] (some s)) (hne : s.toList ≠ [])
    (hplain : ∀ y ∈ s.toList, Scan.isPlain y = true) (hends : Node.leadingChars ns = []) :
    Strung n (x :: ns) (s :: ps) := by
  have hrun (k : List Char) :
      (s.toList ++ ((String.join ps).toList ++ '"' :: k)).takeWhile Scan.isPlain = s.toList := by
    rw [List.takeWhile_append_of_pos hplain, h.lead k, hends, List.append_nil]
  refine ⟨?_, fun k => ?_, fun c k hc => ?_⟩
  · rw [segmentTexts_cons hx.value (by rw [hx.kind]; decide), h.texts]
    rfl
  · rw [join_cons_toList, List.append_assoc, hrun, Node.leadingChars, if_pos hx.kind, hx.value]
    rfl
  · rw [join_cons_toList, List.append_assoc] at hc
    have hrest : (c.forward s.toList.length).rest = (String.join ps).toList ++ '"' :: k := by
      rw [Cursor.rest_forward, hc, List.drop_left]
    obtain ⟨segs, ms, hpieces, hsame, hms⟩ := h.pieces _ k hrest
    obtain ⟨z, v, hzv⟩ := List.exists_cons_of_ne_nil hne
    have hfirst := Pieces.plain (R := SnippetAt n) (c := c) (x := z)
      (k := v ++ ((String.join ps).toList ++ '"' :: k)) (by rw [hc, hzv]; rfl)
      (hplain z (by rw [hzv]; exact List.mem_cons_self)) (by rw [hc, hrun]; exact hpieces)
    rw [hc, hrun, ← Cursor.forward_add, ← Nat.add_assoc] at hfirst
    refine ⟨.between .chars c (c.forward s.toList.length) :: segs,
      plainSegment (.between .chars c (c.forward s.toList.length)) :: ms, ?_, ?_,
      fun {a} ha => .segmentsPlain (by rintro _ ⟨⟩) (hms ?_)⟩
    · rw [join_cons_toList, List.length_append]
      exact hfirst
    · rw [Node.allAgree_cons, Bool.and_eq_true]
      refine ⟨?_, hsame⟩
      rw [plainSegment, Segment.between, Cursor.textTo_forward hc, String.ofList_toList]
      exact hx.same rfl (Node.allAgree_nil _)
    · rw [Node.toll_cons] at ha
      omega

/-- A piece that begins with a backslash before other pieces. -/
lemma Strung.cons (h : Strung n ns ps) {w : List Char} (hs : s.toList = '\\' :: w)
    (htext : segmentTexts (x :: ns) = .ok s :: segmentTexts ns) (hk : x.kind ≠ .chars)
    (hpiece : ∀ (c : Cursor) (k : List Char),
      c.rest = '\\' :: w ++ ((String.join ps).toList ++ '"' :: k) →
        ∃ form x', Escape (SnippetAt n) c form (c.forward s.toList.length)
          ∧ x.sameStructure x' = true ∧ ∀ {a : Nat} {segs : List (Segment Token)} {ms : List Node},
            x.demand ≤ a → Derives a (.segments segs) [] [] ms →
              Derives a (.segments (.between form c (c.forward s.toList.length) :: segs)) [] []
                (x' :: ms)) : Strung n (x :: ns) (s :: ps) := by
  refine ⟨?_, fun k => ?_, fun c k hc => ?_⟩
  · rw [htext, h.texts]
    rfl
  · rw [join_cons_toList, hs, Node.leadingChars, if_neg hk]
    exact List.takeWhile_cons_of_neg (by decide)
  · rw [join_cons_toList, List.append_assoc] at hc
    have hrest : (c.forward s.toList.length).rest = (String.join ps).toList ++ '"' :: k := by
      rw [Cursor.rest_forward, hc, List.drop_left]
    obtain ⟨segs, ms, hpieces, hsame, hms⟩ := h.pieces _ k hrest
    obtain ⟨form, x', hescape, hx', hderives⟩ := hpiece c k (by rw [hc, hs])
    refine ⟨.between form c (c.forward s.toList.length) :: segs, x' :: ms, .escape hescape ?_, ?_,
      fun {a} ha => ?_⟩
    · rw [join_cons_toList, List.length_append, Nat.add_assoc, Cursor.forward_add]
      exact hpieces
    · rw [Node.allAgree_cons, Bool.and_eq_true]
      exact ⟨hx', hsame⟩
    · rw [Node.toll_cons] at ha
      exact hderives (by omega) (hms (by omega))

/-- An escape that stands for a character before other pieces. -/
lemma Strung.kept {cs : List Node} {f : SegmentForm Token} (h : Strung n ns ps)
    (hx : x.Has (segmentKind f) cs (some s)) (hs : s.toList = '\\' :: w)
    (hf : ∀ ts, f ≠ .snippet ts) (hchars : segmentKind f ≠ .chars)
    (hsnippet : segmentKind f ≠ .snippet)
    (hescape : ∀ (c : Cursor) (k : List Char),
      c.rest = '\\' :: w ++ ((String.join ps).toList ++ '"' :: k) →
        Escape (SnippetAt n) c f (c.forward s.toList.length))
    (hsame : ∀ seg : Segment Token, seg.form = f → seg.text = s →
      x.sameStructure (plainSegment seg) = true) : Strung n (x :: ns) (s :: ps) := by
  refine h.cons hs (segmentTexts_cons hx.value (by rwa [hx.kind])) (by rwa [hx.kind])
    fun c k hc => ?_
  refine ⟨f, plainSegment (.between f c (c.forward s.toList.length)), hescape c k hc,
    hsame _ rfl ?_, fun _ hms => .segmentsPlain hf hms⟩
  rw [← hs] at hc
  rw [Segment.between, Cursor.textTo_forward hc, String.ofList_toList]

lemma Strung.escape {z : Char} (h : Strung n ns ps) (hx : x.Has .escape [] (some s))
    (hs : s.toList = ['\\', z]) (hz : Scan.isSimpleEscape z = true) :
    Strung n (x :: ns) (s :: ps) := by
  refine h.kept (f := .escape) hx hs (by rintro _ ⟨⟩) (by decide) (by decide)
    (fun c k hc => ?_) fun seg hf ht => ?_
  · rw [hs]
    exact .simple hc hz
  · rw [plainSegment, hf, ht]
    exact hx.same rfl (Node.allAgree_nil _)

lemma Strung.octal (h : Strung n ns ps) (hx : x.Has .octalEscape [] (some s))
    (hs : s.toList = '\\' :: w) (hlen : w.length = 3)
    (hdigits : ∀ z ∈ w, Scan.isOctalDigit z = true) : Strung n (x :: ns) (s :: ps) := by
  refine h.kept (f := .octal) hx hs (by rintro _ ⟨⟩) (by decide) (by decide)
    (fun c k hc => ?_) fun seg hf ht => ?_
  · have hoctal : Scan.octalLength (w ++ ((String.join ps).toList ++ '"' :: k)) = 3 := by
      have hall := Scan.takeWhile_append_of (k := []) hdigits (by simp)
      rw [List.append_nil] at hall
      rw [Scan.octalLength, ← hlen, List.take_left, hall]
    rw [hs, List.length_cons, hlen]
    exact .octal hc hoctal
  · rw [plainSegment, hf, ht]
    exact hx.same rfl (Node.allAgree_nil _)

/-- A run that ends early does so within a longer one. -/
lemma takeWhile_takeWhile_of {p q : Char → Bool} (h : ∀ x, p x = true → q x = true)
    (l : List Char) : (l.takeWhile q).takeWhile p = l.takeWhile p := by
  induction l with
  | nil => rfl
  | cons x l ih =>
    by_cases hp : p x = true
    · rw [List.takeWhile_cons_of_pos (h x hp), List.takeWhile_cons_of_pos hp,
        List.takeWhile_cons_of_pos hp, ih]
    · rw [List.takeWhile_cons_of_neg hp]
      by_cases hq : q x = true
      · rw [List.takeWhile_cons_of_pos hq, List.takeWhile_cons_of_neg hp]
      · rw [List.takeWhile_cons_of_neg hq]
        rfl

/-- The digits of an escape are counted within the run of characters behind it. -/
lemma hexLength_of_lead {v k : List Char} (h : v.takeWhile Scan.isPlain = k) (w : List Char) :
    Scan.hexLength (w ++ v) = Scan.hexLength (w ++ k) := by
  have hrun : v.takeWhile Scan.isHexDigit = k.takeWhile Scan.isHexDigit := by
    rw [← h, takeWhile_takeWhile_of fun _ => Scan.isPlain_of_isHexDigit]
  rw [Scan.hexLength_eq, Scan.hexLength_eq, List.takeWhile_append, List.takeWhile_append, hrun]

lemma Strung.unicode (h : Strung n ns ps) (hx : x.Has .unicodeEscape [y] (some s))
    (hy : y.Has .hexDigits [] (some (String.ofList w))) (hs : s.toList = '\\' :: 'x' :: w)
    (hw : Scan.escapeDigits? (Scan.hexLength (w ++ Node.leadingChars ns)) = some w.length) :
    Strung n (x :: ns) (s :: ps) := by
  refine h.kept (f := .unicode (String.ofList w)) hx hs (by rintro _ ⟨⟩) Kind.noConfusion
    Kind.noConfusion (fun c k hc => ?_) fun seg hf ht => ?_
  · have hdigits := hw
    rw [← hexLength_of_lead (h.lead k)] at hdigits
    have hescape := Escape.unicode (R := SnippetAt n) (n := w.length)
      (k := w ++ ((String.join ps).toList ++ '"' :: k)) hc hdigits
    rw [List.take_left] at hescape
    rw [hs]
    exact hescape
  · rw [plainSegment, hf, ht]
    refine hx.same rfl ?_
    rw [Node.allAgree_cons, Node.allAgree_nil, Bool.and_true]
    exact hy.same (p := ⟨seg.line, seg.col + 2, seg.stop - (String.ofList w).length⟩)
      (q := seg.stop) rfl (Node.allAgree_nil _)

/-! ### Snippets -/

/-- A snippet before other pieces. -/
lemma Strung.snippet (h : Strung (n + 1) ns ps) (hx : x.Has .snippet [y] none)
    (hy : Speaks n y s) : Strung (n + 1) (x :: ns) (("\\\x7b" ++ s ++ "\\\x7d") :: ps) := by
  have htext : ("\\\x7b" ++ s ++ "\\\x7d").toList
      = '\\' :: '\x7b' :: (s.toList ++ ['\\', '\x7d']) := by
    simp
  refine h.cons htext (segmentTexts_snippet_cons hx hy.text) (by rw [hx.kind]; decide)
    fun c k hc => ?_
  generalize (String.join ps).toList ++ '"' :: k = k at hc
  have hinner : (c.forward 2).rest = s.toList ++ '\\' :: '\x7d' :: k := by
    rw [Cursor.rest_forward, hc]
    simp
  obtain ⟨us, hus, -, hheld⟩ := hy.tells ⟨c.forward 2, true, none⟩ _ (fun _ => rfl) hinner
    (Scan.endsToken_cons rfl rfl)
  obtain ⟨vs, hcuts, hsettle⟩ := hheld.cuts true []
  obtain ⟨y', hsame, hderives⟩ := hus.phrase.expression
  have hphrase {a : Nat} {k : List Token} (ha : x.demand ≤ a) (hk : headKind k = .eof) :
      Derives a (.expression 1 false) us k [y'] := by
    rw [show x.demand = Node.toll [y] from hx.demand_eq, Node.toll_cons] at ha
    obtain ⟨b, rfl⟩ : ∃ b, a = b + 1 := ⟨a - 1, by omega⟩
    exact hderives (by omega) y.one_le_level (ends_of_headKind (by rw [hk]; rfl))
  have hgroups : groupsBehind [] vs = [] := by
    rw [← groups_settle 0 none, hsettle]
    exact (hphrase (Nat.le_refl _) (k := []) rfl).balanced.groups (by simp)
  have hclose : ((c.forward 2).forward s.toList.length).rest = '\\' :: '\x7d' :: k := by
    rw [Cursor.rest_forward, hinner, List.drop_left]
  obtain ⟨e, he, htokens⟩ := hcuts.snippetTokens hgroups hclose
  have hlen : ("\\\x7b" ++ s ++ "\\\x7d").toList.length = 2 + (s.toList.length + 2) := by
    rw [htext]
    simp
    omega
  refine ⟨.snippet (vs ++ [e]),
    snippetNode (.between (.snippet (vs ++ [e])) c
      (c.forward ("\\\x7b" ++ s ++ "\\\x7d").toList.length)) y', ?_, ?_, fun ha hms => ?_⟩
  · rw [hlen, Cursor.forward_add, Cursor.forward_add]
    exact .snippet hc htokens
  · refine hx.same rfl ?_
    rw [Node.allAgree_cons, Node.allAgree_nil, Bool.and_true]
    exact hsame
  · refine .segmentsSnippet rfl ?_ (hphrase ha (k := [e]) he) he hms
    rw [settle_append, hsettle, settle_cons]
    simp [keptToken?, he, Parser.settle]

/-! ### Whole strings -/

lemma Strung.speaks (h : Strung n ns ps) (he : e.Has .string ns none) :
    Speaks n e ("\"" ++ String.join ps ++ "\"") := by
  have htext : ("\"" ++ String.join ps ++ "\"").toList
      = '"' :: ((String.join ps).toList ++ ['"']) := by
    simp
  refine ⟨?_, ?_, ?_⟩
  · exact he.expression_string h.texts
  · rw [htext]
    exact opens_cons rfl
  · rw [htext]
    refine tells_of_lexeme ⟨'"', _, rfl, by decide⟩ fun c last k _ hc _ => ?_
    have hrest : (c.forward 1).rest = (String.join ps).toList ++ '"' :: k := by
      rw [Cursor.rest_forward, hc]
      simp
    obtain ⟨segs, ms, hpieces, hsame, hms⟩ := h.pieces _ k hrest
    have hlen : ('"' :: ((String.join ps).toList ++ ['"'])).length
        = 1 + ((String.join ps).toList.length + 1) := by
      simp
      omega
    rw [← Cursor.forward_add, ← hlen] at hpieces
    refine ⟨_, _, segs, .string hc hpieces, rfl, fun b => ?_⟩
    rw [TokenKind.settled_eq (by decide)]
    generalize htoken : Token.between .string _ b segs c _ = t
    obtain ⟨hk, rfl, rfl⟩ : t.kind = .string ∧ t.spaced = b ∧ t.segments = segs := by
      rw [← htoken]
      exact ⟨rfl, rfl, rfl⟩
    refine .of_operand (begins_of_kind (by rw [hk]; rfl) (by rw [hk]; decide))
      (fun l => by simp [lastKind, hk, TokenKind.endsOperand]) ?_
    refine operandOf (x := stringNode t ms) ?_ fun {a m k} ha _ _ => .string hk (hms ?_)
    · refine he.same ?_ hsame
      rw [Node.length_of_allAgree hsame]
      rfl
    · rw [show e.demand = Node.toll ns - 1 from he.demand_eq] at ha
      omega

end

end StpLang
