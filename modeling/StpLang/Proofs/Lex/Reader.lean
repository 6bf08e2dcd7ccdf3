import StpLang.Proofs.Lex.Lexeme
import StpLang.Proofs.Sequence

/-!
The lexer reads the tokens of the relation.

* `nextToken_inv` and `nextToken_of_cut` show that the lexer cuts off exactly the
  tokens of `Cut`.
* `readsSnippets` shows the same of snippets, for every number of snippets that
  may still be entered.
-/

namespace StpLang

open Lexer

/-! ### Running the lexer -/

section

variable {α β : Type} {s t : Lexer}

lemma run_cursorHere (f : Cursor → Lex β) (s : Lexer) : (cursorHere >>= f) s = f s.cursor s := rfl

lemma run_skip (n : Nat) (f : Unit → Lex β) (s : Lexer) :
    (skip n >>= f) s = f () { s with cursor := s.cursor.forward n } := rfl

lemma run_emit (kind : TokenKind) (value : String) (c : Cursor)
    (segments : List (Segment Token)) (s : Lexer) :
    emit kind value c segments s
      = .ok (.between kind value s.spaced segments c s.cursor)
          { s with spaced := kind.endsLine } := rfl

lemma run_segment (form : SegmentForm Token) (c : Cursor) (s : Lexer) :
    segment form c s = .ok (.between form c s.cursor) s := rfl

/-- A reader of snippets reads the snippets of a relation, and minds neither
groups nor white space. -/
structure ReadsSnippets (f : Lex (List Token)) (R : SnippetRel) : Prop where
  sound : ∀ {s ts t}, f s = .ok ts t →
    R s.cursor ts t.cursor ∧ t.groups = s.groups ∧ t.spaced = s.spaced
  complete : ∀ {s ts d}, R s.cursor ts d →
    ∃ t, f s = .ok ts t ∧ t.cursor = d ∧ t.groups = s.groups ∧ t.spaced = s.spaced

variable {f : Lex (List Token)} {R : SnippetRel}

/-! ### Strings -/

lemma unicodeEscape_inv {c : Cursor} {form : SegmentForm Token} {k : List Char}
    (hc : s.cursor = c.forward 1) (hk : c.rest = '\\' :: 'x' :: k)
    (h : unicodeEscape c s = .ok form t) :
    Escape R c form t.cursor ∧ t.groups = s.groups ∧ t.spaced = s.spaced := by
  unfold unicodeEscape at h
  rw [run_skip, run_cursorHere] at h
  have hrest : (s.cursor.forward 1).rest = k := by
    rw [hc, ← Cursor.forward_add, Cursor.rest_forward, hk]
    rfl
  simp only [hrest] at h
  cases hn : Scan.escapeDigits? (Scan.hexLength k) with
  | none => rw [hn] at h; cases h
  | some n =>
    rw [hn] at h
    cases h
    refine ⟨?_, rfl, rfl⟩
    have hcur : (s.cursor.forward 1).forward n = c.forward (n + 2) := by
      rw [hc, ← Cursor.forward_add, ← Cursor.forward_add]
      congr 1
      omega
    show Escape R c _ ((s.cursor.forward 1).forward n)
    rw [hcur]
    exact .unicode hk hn

lemma octalEscape_inv {c : Cursor} {form : SegmentForm Token} {k : List Char}
    (hc : s.cursor = c.forward 1) (hk : c.rest = '\\' :: k)
    (h : octalEscape c s = .ok form t) :
    Escape R c form t.cursor ∧ t.groups = s.groups ∧ t.spaced = s.spaced := by
  unfold octalEscape at h
  rw [run_cursorHere] at h
  have hrest : s.cursor.rest = k := by
    rw [hc, Cursor.rest_forward, hk]
    rfl
  rw [hrest, run_skip] at h
  split at h
  · rename_i hn
    cases h
    refine ⟨?_, rfl, rfl⟩
    show Escape R c _ (s.cursor.forward _)
    rw [hc, hn, ← Cursor.forward_add]
    exact .octal hk hn
  · cases h

lemma escape_inv (hf : ReadsSnippets f R) {seg : Segment Token} {k : List Char}
    (hk : s.cursor.rest = '\\' :: k) (h : escape f s = .ok seg t) :
    ∃ form, Escape R s.cursor form t.cursor ∧ seg = .between form s.cursor t.cursor
      ∧ t.groups = s.groups ∧ t.spaced = s.spaced := by
  unfold escape at h
  rw [run_cursorHere, run_skip, run_cursorHere] at h
  have hrest : (s.cursor.forward 1).rest = k := by
    rw [Cursor.rest_forward, hk]
    rfl
  cases k with
  | nil => rw [hrest] at h; cases h
  | cons x k =>
    simp only [hrest] at h
    obtain ⟨form, u, hu, h⟩ := bind_eq_ok.mp h
    rw [run_segment] at h
    cases h
    suffices hform : Escape R s.cursor form t.cursor ∧ t.groups = s.groups ∧ t.spaced = s.spaced from
      ⟨form, hform.1, rfl, hform.2⟩
    unfold escapeForm at hu
    split at hu
    · rename_i hx
      cases hu
      exact ⟨.simple hk hx, rfl, rfl⟩
    split at hu
    · rename_i hx
      subst hx
      exact unicodeEscape_inv (s := { s with cursor := s.cursor.forward 1 }) rfl hk hu
    split at hu
    · exact octalEscape_inv (s := { s with cursor := s.cursor.forward 1 }) rfl hk hu
    split at hu
    · rename_i hx
      subst hx
      rw [run_skip] at hu
      obtain ⟨ts, v, hv, hu⟩ := bind_eq_ok.mp hu
      cases hu
      obtain ⟨hR, hg, hsp⟩ := hf.sound hv
      refine ⟨.snippet hk ?_, hg, hsp⟩
      rwa [← Cursor.forward_add] at hR
    split at hu
    · cases hu
    · cases hu

lemma stringSegments_plain {x : Char} {k : List Char} (hr : s.cursor.rest = x :: k)
    (hx : Scan.isPlain x = true) (n : Nat) :
    stringSegments f (n + 1) s
      = (do return (← plainRun) :: (← stringSegments f n) : Lex (List (Segment Token))) s := by
  simp only [Scan.isPlain, Bool.and_eq_true, bne_iff_ne] at hx
  rw [stringSegments, run_cursorHere, hr]
  refine congrFun ?_ s
  split
  · contradiction
  · simp_all
  · simp_all
  · rfl

lemma stringSegments_inv (hf : ReadsSnippets f R) {bound : Nat} {segs : List (Segment Token)}
    (h : stringSegments f bound s = .ok segs t) :
    Pieces R s.cursor segs t.cursor ∧ t.groups = s.groups ∧ t.spaced = s.spaced := by
  induction bound generalizing s segs with
  | zero => cases h
  | succ bound ih =>
    cases hr : s.cursor.rest with
    | nil => rw [stringSegments, run_cursorHere, hr] at h; cases h
    | cons x k =>
      by_cases hquote : x = '"'
      · subst hquote
        rw [stringSegments, run_cursorHere, hr] at h
        cases h
        exact ⟨.close hr, rfl, rfl⟩
      by_cases hback : x = '\\'
      · subst hback
        rw [stringSegments, run_cursorHere, hr] at h
        obtain ⟨seg, u, hseg, h⟩ := bind_eq_ok.mp h
        obtain ⟨form, hform, rfl, hg, hsp⟩ := escape_inv hf hr hseg
        obtain ⟨more, v, hmore, h⟩ := bind_eq_ok.mp h
        cases h
        obtain ⟨hp, hg', hsp'⟩ := ih hmore
        exact ⟨.escape hform hp, hg'.trans hg, hsp'.trans hsp⟩
      · have hx : Scan.isPlain x = true := by
          simp only [Scan.isPlain, Bool.and_eq_true, bne_iff_ne]
          exact ⟨hquote, hback⟩
        rw [stringSegments_plain hr hx] at h
        obtain ⟨seg, u, hseg, h⟩ := bind_eq_ok.mp h
        obtain ⟨more, v, hmore, h⟩ := bind_eq_ok.mp h
        cases h
        unfold plainRun at hseg
        rw [run_cursorHere, run_skip, run_segment] at hseg
        cases hseg
        obtain ⟨hp, hg', hsp'⟩ := ih hmore
        exact ⟨.plain hr hx hp, hg', hsp'⟩

/-! ### Tokens -/

/-- The state behind the white space ahead. -/
def pastBlanks (inSnippet : Bool) (s : Lexer) : Lexer :=
  { s with
    cursor := s.cursor.forward (gap inSnippet s.groups s.cursor)
    spaced := s.spaced || gap inSnippet s.groups s.cursor != 0 }

lemma run_skipBlanks (inSnippet : Bool) (g : Unit → Lex β) (s : Lexer) :
    (skipBlanks inSnippet >>= g) s = g () (pastBlanks inSnippet s) := by
  show g () (if gap inSnippet s.groups s.cursor = 0 then s else _) = _
  congr 1
  unfold pastBlanks
  split
  · rename_i h
    rw [h]
    simp [Cursor.forward_zero]
  · rename_i h
    have hb : (gap inSnippet s.groups s.cursor != 0) = true := by simpa using h
    rw [hb, Bool.or_true]
    rfl

/-- What the lexer reads: a token, the end of the text, or the end of a
snippet. -/
inductive Next (R : SnippetRel) (inSnippet : Bool) (s : Lexer) (u : Token) (t : Lexer) : Prop
  | token (h : Cut R inSnippet s.groups s.spaced s.cursor u t.cursor)
      (hg : t.groups = groupsAfter u s.groups) (hs : t.spaced = u.kind.endsLine)
  | text (hb : inSnippet = false) (h : (pastBlanks false s).cursor.rest = [])
      (ht : t.cursor = (pastBlanks false s).cursor)
      (hu : u = .between .eof "" (pastBlanks false s).spaced [] t.cursor t.cursor)
  | snippet {k : List Char} (hb : inSnippet = true)
      (h : (pastBlanks true s).cursor.rest = '\\' :: '}' :: k) (hg : s.groups = [])
      (ht : t.cursor = (pastBlanks true s).cursor.forward 2)
      (hu : u = .between .snippetClose "\\\x7d" (pastBlanks true s).spaced []
        (pastBlanks true s).cursor t.cursor)

lemma next_of_lexeme {inSnippet : Bool} {u : Token} {kind : TokenKind} {value : String}
    {segs : List (Segment Token)}
    (h : Lexeme R (pastBlanks inSnippet s).cursor kind value segs t.cursor)
    (hu : u = .between kind value (pastBlanks inSnippet s).spaced segs
      (pastBlanks inSnippet s).cursor t.cursor)
    (hk : kind.opensGroup = false ∧ kind.isCloser = false) (hg : t.groups = s.groups)
    (hs : t.spaced = kind.endsLine) : Next R inSnippet s u t := by
  subst hu
  refine .token (.mk h) ?_ hs
  rw [groupsAfter_eq hk.1 hk.2, hg]

lemma run_word (s : Lexer) :
    word s
      = .ok (.between (wordKind s.cursor.past
            (String.ofList (s.cursor.rest.take (Scan.wordLength s.cursor.rest)))
            (s.cursor.rest.drop (Scan.wordLength s.cursor.rest)))
          (String.ofList (s.cursor.rest.take (Scan.wordLength s.cursor.rest))) s.spaced []
          s.cursor (s.cursor.forward (Scan.wordLength s.cursor.rest)))
        { s with
          cursor := s.cursor.forward (Scan.wordLength s.cursor.rest)
          spaced := false } := by
  unfold word
  rw [run_cursorHere, run_skip, run_cursorHere, run_emit]
  simp only [Cursor.textTo_forward_take Scan.wordLength_le, Cursor.rest_forward,
    (wordKind_plain _ _ _).2.2.2.2]

lemma run_number (s : Lexer) :
    number s
      = .ok (.between .number
          (String.ofList (s.cursor.rest.take (Scan.numberLength s.cursor.rest))) s.spaced []
          s.cursor (s.cursor.forward (Scan.numberLength s.cursor.rest)))
        { s with
          cursor := s.cursor.forward (Scan.numberLength s.cursor.rest)
          spaced := false } := by
  unfold number
  rw [run_cursorHere, run_skip, run_cursorHere, run_emit]
  simp only [Cursor.textTo_forward_take Scan.numberLength_le]
  rfl

lemma run_string (f : Lex (List Token)) (s : Lexer) :
    string f s
      = (stringSegments f (s.cursor.rest.length - 1) >>= fun segs =>
          cursorHere >>= fun d => emit .string (s.cursor.textTo d) s.cursor segs)
        { s with cursor := s.cursor.forward 1 } := rfl

/-- Reading an operator takes the longest one. -/
lemma run_operator (x : Char) (s : Lexer) :
    operator x s = match Scan.operator? s.cursor.rest with
      | some (spelling, kind) =>
        let u : Token := .between kind spelling s.spaced [] s.cursor
          (s.cursor.forward spelling.length)
        .ok u
          { s with
            cursor := s.cursor.forward spelling.length
            spaced := kind.endsLine
            groups := groupsAfter u s.groups }
      | none => .error ⟨.unexpectedChar x, s.cursor.here 1⟩ s := by
  cases ho : Scan.operator? s.cursor.rest with
  | none =>
    have hm : matchOperator s = .ok none s := by
      unfold matchOperator
      rw [run_cursorHere, ho]
      rfl
    unfold operator
    rw [bind_ok hm]
    rfl
  | some o =>
    obtain ⟨spelling, kind⟩ := o
    have hm : matchOperator s
        = .ok (some (.between kind spelling s.spaced [] s.cursor
            (s.cursor.forward spelling.length)))
          { s with cursor := s.cursor.forward spelling.length, spaced := kind.endsLine } := by
      unfold matchOperator
      rw [run_cursorHere, ho]
      rfl
    unfold operator
    rw [bind_ok hm]
    rfl

/-- The lexer reads tokens of the relation. -/
theorem nextToken_inv (hf : ReadsSnippets f R) {inSnippet : Bool} {u : Token}
    (h : nextToken inSnippet f s = .ok u t) : Next R inSnippet s u t := by
  unfold nextToken at h
  rw [run_skipBlanks, run_cursorHere] at h
  have hinv := Scan.Opening.of_inv (pastBlanks inSnippet s).cursor.rest
  cases ho : Scan.Opening.of (pastBlanks inSnippet s).cursor.rest with
  | nothing =>
    rw [ho] at h hinv
    cases inSnippet with
    | true => cases h
    | false =>
      cases h
      exact .text rfl hinv rfl rfl
  | lineEnd =>
    rw [ho] at h hinv
    obtain ⟨k, hk⟩ := hinv
    cases h
    exact next_of_lexeme (.lineEnd hk) rfl ⟨rfl, rfl⟩ rfl rfl
  | comment =>
    rw [ho] at h hinv
    obtain ⟨k, hk⟩ := hinv
    cases h
    exact next_of_lexeme (.comment hk) rfl ⟨rfl, rfl⟩ rfl rfl
  | snippetClose =>
    rw [ho] at h hinv
    obtain ⟨k, hk⟩ := hinv
    change snippetClose inSnippet _ = _ at h
    cases inSnippet with
    | false => cases h
    | true =>
      have hget : (get : Lex Lexer) (pastBlanks true s) = .ok (pastBlanks true s) _ := rfl
      rw [snippetClose, bind_ok hget] at h
      cases hg : s.groups with
      | cons g gs =>
        have hg' : (pastBlanks true s).groups = g :: gs := hg
        rw [hg'] at h
        cases h
      | nil =>
        have hg' : (pastBlanks true s).groups = [] := hg
        rw [hg'] at h
        cases h
        refine .snippet rfl hk hg rfl ?_
        have htext : (pastBlanks true s).cursor.textTo ((pastBlanks true s).cursor.forward 2)
            = "\\\x7d" := by
          rw [Cursor.textTo_forward_take (by rw [hk]; simp), hk]
          rfl
        rw [← htext]
        rfl
  | word =>
    rw [ho] at h hinv
    obtain ⟨x, k, hk, hx⟩ := hinv
    change word _ = _ at h
    rw [run_word] at h
    cases h
    obtain ⟨-, -, hopens, hcloses, hends⟩ := wordKind_plain (pastBlanks inSnippet s).cursor.past
      (String.ofList ((pastBlanks inSnippet s).cursor.rest.take
        (Scan.wordLength (pastBlanks inSnippet s).cursor.rest)))
      ((pastBlanks inSnippet s).cursor.rest.drop
        (Scan.wordLength (pastBlanks inSnippet s).cursor.rest))
    exact next_of_lexeme (.word hk hx) rfl ⟨hopens, hcloses⟩ rfl hends.symm
  | digit =>
    rw [ho] at h hinv
    obtain ⟨x, k, hk, hx⟩ := hinv
    change number _ = _ at h
    rw [run_number] at h
    cases h
    exact next_of_lexeme (.number hk hx) rfl ⟨rfl, rfl⟩ rfl rfl
  | quote =>
    rw [ho] at h hinv
    obtain ⟨k, hk⟩ := hinv
    change string f _ = _ at h
    rw [run_string] at h
    obtain ⟨segs, v, hv, h⟩ := bind_eq_ok.mp h
    obtain ⟨hp, hg, hs⟩ := stringSegments_inv hf hv
    cases h
    refine next_of_lexeme (.string hk hp) ?_ ⟨rfl, rfl⟩ hg rfl
    have hs : v.spaced = (pastBlanks inSnippet s).spaced := hs
    rw [← hs]
    rfl
  | symbol x =>
    rw [ho] at h
    change operator x _ = _ at h
    rw [run_operator] at h
    cases hop : Scan.operator? (pastBlanks inSnippet s).cursor.rest with
    | none =>
      rw [hop] at h
      cases h
    | some o =>
      rw [hop] at h
      cases h
      exact .token (.mk (.operator hop)) rfl rfl

/-! ### Every token of the relation is read -/

/-- A reader arrives at a place with a result, and leaves groups and white space
alone. -/
def Arrives (g : Lex α) (s : Lexer) (a : α) (d : Cursor) : Prop :=
  ∃ t, g s = .ok a t ∧ t.cursor = d ∧ t.groups = s.groups ∧ t.spaced = s.spaced

/-- An octal digit is no other letter of an escape. -/
lemma Scan.octalLength_head {x : Char} {k : List Char} (h : octalLength (x :: k) = 3) :
    isOctalDigit x = true ∧ isSimpleEscape x = false ∧ x ≠ 'x' := by
  have hx : isOctalDigit x = true := by
    cases hx : isOctalDigit x with
    | true => rfl
    | false => simp [octalLength, hx] at h
  refine ⟨hx, ?_, ?_⟩
  · have hall : ("rntbf\"\\".toList.any isOctalDigit) = false := by decide
    cases hs : isSimpleEscape x with
    | false => rfl
    | true =>
      rw [isSimpleEscape, List.contains_iff_mem] at hs
      exact absurd hx (List.any_eq_false.mp hall x hs)
  · rintro rfl
    contradiction

lemma escapeForm_of (hf : ReadsSnippets f R) {c d : Cursor} {form : SegmentForm Token} {x : Char}
    {k : List Char} (hc : s.cursor = c.forward 1) (hk : c.rest = '\\' :: x :: k)
    (h : Escape R c form d) : Arrives (escapeForm f c x) s form d := by
  have hrest : s.cursor.rest = x :: k := by
    rw [hc, Cursor.rest_forward, hk]
    rfl
  have hstep : s.cursor.forward 1 = c.forward 2 := by rw [hc, ← Cursor.forward_add]
  unfold escapeForm
  cases h with
  | simple h hx =>
    rw [hk] at h
    cases h
    rw [if_pos hx]
    exact ⟨{ s with cursor := s.cursor.forward 1 }, rfl, hstep, rfl, rfl⟩
  | @unicode k' n h hn =>
    rw [hk] at h
    cases h
    rw [if_neg (by decide), if_pos rfl]
    refine ⟨{ s with cursor := (s.cursor.forward 1).forward n }, ?_, ?_, rfl, rfl⟩
    · unfold unicodeEscape
      have hk' : (s.cursor.forward 1).rest = k := by rw [Cursor.rest_forward, hrest]; rfl
      rw [run_skip, run_cursorHere]
      simp only [hk', hn]
      rfl
    · show (s.cursor.forward 1).forward n = _
      rw [hstep, ← Cursor.forward_add, Nat.add_comm]
  | octal h hn =>
    rw [hk] at h
    cases h
    obtain ⟨hoct, hsimple, hx⟩ := Scan.octalLength_head hn
    rw [if_neg (by rw [hsimple]; decide), if_neg hx, if_pos hoct]
    refine ⟨{ s with cursor := s.cursor.forward 3 }, ?_, ?_, rfl, rfl⟩
    · unfold octalEscape
      rw [run_cursorHere, hrest, run_skip, hn]
      rfl
    · show s.cursor.forward 3 = _
      rw [hc, ← Cursor.forward_add]
  | @snippet k' ts d h hs =>
    rw [hk] at h
    cases h
    rw [if_neg (by decide), if_neg (by decide), if_neg (by decide), if_pos rfl]
    have hs' : R { s with cursor := s.cursor.forward 1 }.cursor ts d := by
      rw [hstep]
      exact hs
    obtain ⟨t, ht, hd, hg, hsp⟩ := hf.complete hs'
    refine ⟨t, ?_, hd, hg, hsp⟩
    rw [run_skip, bind_ok ht]
    rfl

lemma Escape.starts {c d : Cursor} {form : SegmentForm Token} (h : Escape R c form d) :
    ∃ x k, c.rest = '\\' :: x :: k := by
  cases h with
  | simple h => exact ⟨_, _, h⟩
  | unicode h => exact ⟨_, _, h⟩
  | @octal k h hn =>
    cases k with
    | nil => contradiction
    | cons x k => exact ⟨x, k, h⟩
  | snippet h => exact ⟨_, _, h⟩

lemma escape_of (hf : ReadsSnippets f R) {d : Cursor} {form : SegmentForm Token}
    (h : Escape R s.cursor form d) : Arrives (escape f) s (.between form s.cursor d) d := by
  obtain ⟨x, k, hk⟩ := h.starts
  obtain ⟨t, ht, rfl, hg, hsp⟩ :=
    escapeForm_of (s := { s with cursor := s.cursor.forward 1 }) hf rfl hk h
  refine ⟨t, ?_, rfl, hg, hsp⟩
  unfold escape
  rw [run_cursorHere, run_skip, run_cursorHere, Cursor.rest_forward, hk]
  exact bind_ok ht

lemma plainRun_of (s : Lexer) :
    Arrives plainRun s
      (.between .chars s.cursor (s.cursor.forward (s.cursor.rest.takeWhile Scan.isPlain).length))
      (s.cursor.forward (s.cursor.rest.takeWhile Scan.isPlain).length) :=
  ⟨{ s with cursor := s.cursor.forward (s.cursor.rest.takeWhile Scan.isPlain).length },
    rfl, rfl, rfl, rfl⟩

/-- A piece and the pieces behind it. -/
lemma arrives_cons {read : Lex (Segment Token)} {more : Lex (List (Segment Token))}
    {seg : Segment Token} {segs : List (Segment Token)} {d e : Cursor}
    (hread : Arrives read s seg d) (hmore : ∀ t, t.cursor = d → Arrives more t segs e) :
    Arrives (do return (← read) :: (← more)) s (seg :: segs) e := by
  obtain ⟨t, ht, hd, hg, hsp⟩ := hread
  obtain ⟨u, hu, he, hg', hsp'⟩ := hmore t hd
  refine ⟨u, ?_, he, hg'.trans hg, hsp'.trans hsp⟩
  rw [bind_ok ht, bind_ok hu]
  rfl

lemma stringSegments_of (hf : ReadsSnippets f R) (hR : R.Moves) {d : Cursor}
    {segs : List (Segment Token)} {bound : Nat} (hb : s.cursor.rest.length ≤ bound)
    (h : Pieces R s.cursor segs d) : Arrives (stringSegments f bound) s segs d := by
  generalize hc : s.cursor = c at h
  induction h generalizing s bound with
  | @close c k h =>
    subst hc
    cases bound with
    | zero => rw [h] at hb; simp at hb
    | succ bound =>
      refine ⟨{ s with cursor := s.cursor.forward 1 }, ?_, rfl, rfl, rfl⟩
      rw [stringSegments, run_cursorHere, h]
      rfl
  | @plain c d segs x k h hx hs ih =>
    subst hc
    cases bound with
    | zero => rw [h] at hb; simp at hb
    | succ bound =>
      have hlt := (before_plain h hx).rest_lt
      unfold Arrives
      rw [stringSegments_plain h hx]
      refine arrives_cons (plainRun_of s) fun t ht => ih ?_ ht
      rw [ht]
      omega
  | @escape c d e form segs h hs ih =>
    subst hc
    obtain ⟨x, k, hk⟩ := h.starts
    cases bound with
    | zero => rw [hk] at hb; simp at hb
    | succ bound =>
      have hlt := (h.before hR).rest_lt
      unfold Arrives
      rw [stringSegments, run_cursorHere, hk]
      refine arrives_cons (escape_of hf h) fun t ht => ih ?_ ht
      rw [ht]
      omega

lemma run_nextToken (inSnippet : Bool) (f : Lex (List Token)) (s : Lexer) :
    nextToken inSnippet f s
      = (match Scan.Opening.of (pastBlanks inSnippet s).cursor.rest with
        | .nothing => endOfText inSnippet
        | .lineEnd => do
          skip 1
          emit .newline "\n" (pastBlanks inSnippet s).cursor
        | .comment => do emit .comment (← restOfLine) (pastBlanks inSnippet s).cursor
        | .snippetClose => snippetClose inSnippet
        | .word => word
        | .digit => number
        | .quote => string f
        | .symbol x => operator x : Lex Token) (pastBlanks inSnippet s) := by
  unfold nextToken
  rw [run_skipBlanks]
  exact run_cursorHere _ _

lemma Scan.Opening.of_word {x : Char} (k : List Char) (hx : startsWord x = true) :
    Opening.of (x :: k) = .word := by
  unfold Opening.of
  split <;> simp_all <;> revert hx <;> decide

lemma Scan.startsWord_digit {x : Char} (hx : x.isDigit = true) : startsWord x = false := by
  cases hw : startsWord x with
  | false => rfl
  | true =>
    change (decide (x.val ≥ 'A'.val ∧ x.val ≤ 'Z'.val)
      || (decide (x.val ≥ 'a'.val) && decide (x.val ≤ 'z'.val)) || decide (x = '_')) = true at hw
    simp only [Char.isDigit, ge_iff_le, UInt32.le_iff_toNat_le, Bool.or_eq_true,
      Bool.and_eq_true, decide_eq_true_eq] at hw hx
    have h9 : '9'.val.toNat = 57 := rfl
    rcases hw with (hw | hw) | hw
    · have hA : 'A'.val.toNat = 65 := rfl
      omega
    · have ha : 'a'.val.toNat = 97 := rfl
      omega
    · subst hw
      revert hx
      decide

lemma Scan.Opening.of_digit {x : Char} (k : List Char) (hx : x.isDigit = true) :
    Opening.of (x :: k) = .digit := by
  have hw := startsWord_digit hx
  unfold Opening.of
  split <;> simp_all

/-- The lexer reads every token of the relation. -/
theorem nextToken_of_cut (hf : ReadsSnippets f R) (hR : R.Moves) {inSnippet : Bool} {u : Token}
    {d : Cursor} (h : Cut R inSnippet s.groups s.spaced s.cursor u d) :
    ∃ t, nextToken inSnippet f s = .ok u t ∧ t.cursor = d
      ∧ t.groups = groupsAfter u s.groups ∧ t.spaced = u.kind.endsLine := by
  obtain ⟨h⟩ := h
  rw [run_nextToken]
  change Lexeme R (pastBlanks inSnippet s).cursor _ _ _ _ at h
  cases h with
  | lineEnd h =>
    rw [h]
    exact ⟨_, rfl, rfl, (groupsAfter_eq rfl rfl _).symm, rfl⟩
  | comment h =>
    have ho : Scan.Opening.of (pastBlanks inSnippet s).cursor.rest = .comment := by rw [h]; rfl
    rw [ho]
    exact ⟨_, rfl, rfl, (groupsAfter_eq rfl rfl _).symm, rfl⟩
  | word h hx =>
    have ho : Scan.Opening.of (pastBlanks inSnippet s).cursor.rest = .word := by
      rw [h, Scan.Opening.of_word _ hx]
    obtain ⟨-, -, hopens, hcloses, hends⟩ := wordKind_plain (pastBlanks inSnippet s).cursor.past
      (String.ofList ((pastBlanks inSnippet s).cursor.rest.take
        (Scan.wordLength (pastBlanks inSnippet s).cursor.rest)))
      ((pastBlanks inSnippet s).cursor.rest.drop
        (Scan.wordLength (pastBlanks inSnippet s).cursor.rest))
    rw [ho]
    exact ⟨_, run_word _, rfl, (groupsAfter_eq hopens hcloses _).symm, hends.symm⟩
  | number h hx =>
    have ho : Scan.Opening.of (pastBlanks inSnippet s).cursor.rest = .digit := by
      rw [h, Scan.Opening.of_digit _ hx]
    rw [ho]
    exact ⟨_, run_number _, rfl, (groupsAfter_eq rfl rfl _).symm, rfl⟩
  | string h hs =>
    have ho : Scan.Opening.of (pastBlanks inSnippet s).cursor.rest = .quote := by rw [h]; rfl
    rw [ho]
    have hb : ((pastBlanks inSnippet s).cursor.forward 1).rest.length
        ≤ (pastBlanks inSnippet s).cursor.rest.length - 1 :=
      Nat.le_of_eq (by rw [Cursor.rest_forward, List.length_drop])
    obtain ⟨t, ht, rfl, hg, hsp⟩ := stringSegments_of (s := { pastBlanks inSnippet s with
      cursor := (pastBlanks inSnippet s).cursor.forward 1 }) hf hR hb hs
    refine ⟨{ t with spaced := false }, ?_, rfl, ?_, rfl⟩
    · refine (run_string f _).trans ?_
      rw [bind_ok ht, run_cursorHere, run_emit, hsp]
      rfl
    · rw [groupsAfter_eq rfl rfl]
      exact hg
  | operator h =>
    obtain ⟨x, ho⟩ := Scan.operator?_opening h
    have hrun := run_operator x (pastBlanks inSnippet s)
    rw [h] at hrun
    rw [ho]
    exact ⟨_, hrun, rfl, rfl, rfl⟩

/-! ### Snippets -/

lemma snippetClose_of (hg : s.groups = []) {k : List Char}
    (h : (pastBlanks true s).cursor.rest = '\\' :: '}' :: k) :
    ∃ t, nextToken true f s
        = .ok (.between .snippetClose "\\\x7d" (pastBlanks true s).spaced []
            (pastBlanks true s).cursor ((pastBlanks true s).cursor.forward 2)) t
      ∧ t.cursor = (pastBlanks true s).cursor.forward 2 := by
  have ho : Scan.Opening.of (pastBlanks true s).cursor.rest = .snippetClose := by rw [h]; rfl
  have htext : (pastBlanks true s).cursor.textTo ((pastBlanks true s).cursor.forward 2)
      = "\\\x7d" := by
    rw [Cursor.textTo_forward_take (by rw [h]; simp), h]
    rfl
  rw [run_nextToken, ho, ← htext]
  obtain ⟨cursor, groups, spaced, trace⟩ := s
  change groups = [] at hg
  subst hg
  exact ⟨_, rfl, rfl⟩

lemma snippetTokens_inv (hf : ReadsSnippets f R) (hR : R.Moves) {bound : Nat} {ts : List Token}
    (hb : s.cursor.rest.length ≤ bound)
    (h : snippetTokens (nextToken true f) bound s = .ok ts t) :
    SnippetTokens R s.groups s.spaced s.cursor ts t.cursor := by
  induction bound generalizing s ts with
  | zero =>
    obtain ⟨u, v, hu, h⟩ := bind_eq_ok.mp h
    have hnil : s.cursor.rest = [] := List.length_eq_zero_iff.mp (Nat.le_zero.mp hb)
    cases nextToken_inv hf hu with
    | token hcut =>
      have := (hcut.before hR).rest_lt
      omega
    | text hin => cases hin
    | snippet _ hrest =>
      rw [pastBlanks, Cursor.rest_forward, hnil, List.drop_nil] at hrest
      cases hrest
  | succ bound ih =>
    rw [snippetTokens] at h
    obtain ⟨u, v, hu, h⟩ := bind_eq_ok.mp h
    cases nextToken_inv hf hu with
    | token hcut hg hsp =>
      have hne : (u.kind == .snippetClose) = false := by
        obtain ⟨hl⟩ := hcut
        rw [beq_eq_false_iff_ne]
        exact hl.plain.2.1
      rw [hne] at h
      obtain ⟨us, w, hus, h⟩ := bind_eq_ok.mp h
      cases h
      have hlt := (hcut.before hR).rest_lt
      have hmore := ih (by omega) hus
      rw [hg, hsp] at hmore
      exact .more hcut hmore
    | text hin => cases hin
    | snippet _ hrest hg hcur hu =>
      subst hu
      cases h
      rw [pastBlanks, hg] at hrest
      rw [hcur, pastBlanks, hg]
      exact .close rfl hrest

lemma snippetTokens_of (hf : ReadsSnippets f R) (hR : R.Moves) {bound : Nat} {ts : List Token}
    {d : Cursor} (hb : s.cursor.rest.length ≤ bound)
    (h : SnippetTokens R s.groups s.spaced s.cursor ts d) :
    ∃ t, snippetTokens (nextToken true f) bound s = .ok ts t ∧ t.cursor = d := by
  generalize hgs : s.groups = groups at h
  generalize hsp : s.spaced = spaced at h
  generalize hc : s.cursor = c at h
  induction h generalizing s bound with
  | @close spaced c d k hd h =>
    subst hc hsp
    have hd' : (pastBlanks true s).cursor = d := by rw [← hd, pastBlanks, hgs]
    obtain ⟨t, ht, hcur⟩ := snippetClose_of (f := f) hgs (hd' ▸ h)
    refine ⟨t, ?_, hd' ▸ hcur⟩
    cases bound with
    | zero =>
      have hgap := ahead_gap true [] s.cursor
      have hle := hgap.pos_le
      have hlen := hgap.length_eq
      rw [hd] at hle
      rw [hd, h, List.length_cons] at hlen
      omega
    | succ bound =>
      rw [snippetTokens, bind_ok ht, hd', pastBlanks, hgs]
      rfl
  | @more groups spaced c d e u us h hs ih =>
    subst hc hsp hgs
    have hlt := (h.before hR).rest_lt
    obtain ⟨t, ht, rfl, hg, hsp⟩ := nextToken_of_cut hf hR h
    have hne : (u.kind == .snippetClose) = false := by
      obtain ⟨hl⟩ := h
      rw [beq_eq_false_iff_ne]
      exact hl.plain.2.1
    cases bound with
    | zero => omega
    | succ bound =>
      have hb' : t.cursor.rest.length ≤ bound := by omega
      obtain ⟨v, hv, hcur⟩ := ih hb' hg hsp rfl
      refine ⟨v, ?_, hcur⟩
      rw [snippetTokens, bind_ok ht, hne]
      exact bind_ok hv

lemma within_eq_ok {g : Lex α} {a : α} :
    within g s = .ok a t ↔ ∃ u, g { cursor := s.cursor, trace := s.trace } = .ok a u
      ∧ t = { s with cursor := u.cursor, trace := u.trace } := by
  unfold within
  cases hg : g { cursor := s.cursor, trace := s.trace } with
  | ok b u =>
    constructor
    · intro h
      cases h
      exact ⟨u, rfl, rfl⟩
    · rintro ⟨v, hv, rfl⟩
      cases hv
      rfl
  | error e u =>
    constructor
    · intro h
      cases h
    · rintro ⟨v, hv, -⟩
      cases hv

lemma run_readSnippet (limit : Int) (n : Nat) (s : Lexer) :
    readSnippet limit (n + 1) s
      = within (snippetTokens (nextToken true (readSnippet limit n)) s.cursor.rest.length)
          { s with trace := .snippetEntered s.cursor.line s.cursor.col (limit - n) :: s.trace } :=
  rfl

/-- The reader of snippets reads the snippets of the relation. -/
theorem readsSnippets (limit : Int) (allowance : Nat) :
    ReadsSnippets (readSnippet limit allowance) (SnippetAt allowance) := by
  induction allowance with
  | zero =>
    refine ⟨fun h => ?_, fun h => h.elim⟩
    cases h
  | succ n ih =>
    refine ⟨fun {s ts t} h => ?_, fun {s ts d} h => ?_⟩
    · rw [run_readSnippet, within_eq_ok] at h
      obtain ⟨u, hu, rfl⟩ := h
      have hts := snippetTokens_inv ih (SnippetAt.moves n) (by exact Nat.le_refl _) hu
      exact ⟨hts, rfl, rfl⟩
    · obtain ⟨u, hu, hcur⟩ := snippetTokens_of (s := {
        cursor := s.cursor
        trace := .snippetEntered s.cursor.line s.cursor.col (limit - n) :: s.trace })
        ih (SnippetAt.moves n) (Nat.le_refl _) h
      refine ⟨{ s with cursor := u.cursor, trace := u.trace }, ?_, hcur, rfl, rfl⟩
      rw [run_readSnippet, within_eq_ok]
      exact ⟨u, hu, rfl⟩

end

end StpLang
