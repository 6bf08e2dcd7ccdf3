import StpLang.Proofs.Lex.Whole
import StpLang.Proofs.Shift.Basic

/-!
Cutting a moved text.

The lexer looks back only to tell the operator `mod` from a name, and a line end
right behind is no blank. So a text that stands behind whole lines is cut into the
tokens of the text alone, moved.

* `Cursor.shift` is the place in the moved text.
* `Lexer.Shifted` relates the states of the lexer on the two texts.
* `lexFrom_shift` compares the tokens and the faults.
* `Token.Movable` and `movable_lexFrom`: the digits of an escape do not reach before
  the start of the text, so that what is computed from their end moves too.
-/

namespace StpLang

open Lexer

/-! ### Places -/

/-- The place in the text behind `w`. -/
def Cursor.shift (w : List Char) (c : Cursor) : Cursor :=
  ⟨c.past ++ w.reverse, c.rest, c.pos + w.length, c.line + w.count '\n', c.col⟩

section

variable {w : List Char} {α β : Type} {act : α → α} {act' : β → β}

lemma Cursor.shift_step (w : List Char) (c : Cursor) : (c.shift w).step = c.step.shift w := by
  obtain ⟨past, rest, pos, line, col⟩ := c
  cases rest with
  | nil => rfl
  | cons x xs =>
    simp only [step, shift, List.cons_append, mk.injEq, true_and, and_true]
    refine ⟨by omega, ?_⟩
    split <;> omega

lemma Cursor.shift_forward (w : List Char) (n : Nat) (c : Cursor) :
    (c.shift w).forward n = (c.forward n).shift w := by
  induction n generalizing c with
  | zero => rfl
  | succ n ih => rw [forward_succ, shift_step, ih, forward_succ]

lemma Cursor.shift_textTo (w : List Char) (c d : Cursor) :
    (c.shift w).textTo (d.shift w) = c.textTo d := by
  have hlength : (d.shift w).pos - (c.shift w).pos = d.pos - c.pos := by
    show d.pos + w.length - (c.pos + w.length) = _
    omega
  rw [textTo, textTo, hlength]
  rfl

lemma Cursor.shift_here (w : List Char) (c : Cursor) (n : Nat) :
    (c.shift w).here n = (c.here n).shift (.behind w) := by
  rw [here, here, Span.shift_of]
  show Span.of (c.pos + w.length) (c.pos + w.length + n) _ _ = _
  rw [Nat.add_right_comm]
  rfl

lemma Token.shift_between (w : List Char) (kind : TokenKind) (value : String) (spaced : Bool)
    (segs : List (Segment Token)) (c d : Cursor) :
    (Token.between kind value spaced segs c d).shift (.behind w)
      = .between kind value spaced (segs.map (Segment.shift (.behind w))) (c.shift w) (d.shift w) :=
  Token.shift_eq _ _

/-- The lexers stand at the same place of a text and of the text moved behind `w`,
within the same groups and behind the same white space. -/
structure Lexer.Shifted (w : List Char) (s s' : Lexer) : Prop where
  cursor : s'.cursor = s.cursor.shift w
  groups : s'.groups = s.groups.map (Token.shift (.behind w))
  spaced : s'.spaced = s.spaced

/-- A step of the lexer moves with the text. -/
abbrev LexShifts (w : List Char) (act : α → α) (f f' : Lex α) : Prop :=
  Shifts (.behind w) (Lexer.Shifted w) act f f'

namespace Shifts

lemma cursorHere_bind {g g' : Cursor → Lex β}
    (hg : ∀ c, LexShifts w act' (g c) (g' (c.shift w))) :
    LexShifts w act' (cursorHere >>= g) (cursorHere >>= g') := by
  refine ⟨fun {s s'} h => ?_⟩
  rw [run_cursorHere, run_cursorHere, h.cursor]
  exact (hg _).run h

lemma skip (n : Nat) : LexShifts w id (Lexer.skip n) (Lexer.skip n) := by
  refine ⟨fun {s s'} h => .ok (a := ()) ⟨?_, h.groups, h.spaced⟩⟩
  show s'.cursor.forward n = _
  rw [h.cursor, Cursor.shift_forward]

lemma emit (kind : TokenKind) (value : String) (c : Cursor) (segs : List (Segment Token)) :
    LexShifts w (Token.shift (.behind w)) (Lexer.emit kind value c segs)
      (Lexer.emit kind value (c.shift w) (segs.map (Segment.shift (.behind w)))) := by
  refine ⟨fun {s s'} h => ?_⟩
  rw [run_emit, run_emit, h.cursor, h.spaced, ← Token.shift_between]
  exact .ok ⟨rfl, h.groups, rfl⟩

end Shifts

/-! ### Strings -/

/-- The pieces of a string move with it. -/
lemma shifts_segment (form : SegmentForm Token) (c : Cursor) :
    LexShifts w (Segment.shift (.behind w)) (segment form c)
      (segment (shiftForm (.behind w) form) (c.shift w)) := by
  refine .cursorHere_bind fun d => .of_eq ?_
  rw [Cursor.shift_textTo]
  rfl

lemma shifts_plainRun : LexShifts w (Segment.shift (.behind w)) plainRun plainRun := by
  refine .cursorHere_bind fun c => (Shifts.skip _).bind fun _ => ?_
  have hchars : (.chars : SegmentForm Token) = shiftForm (.behind w) .chars := by rw [shiftForm]
  rw [hchars]
  exact shifts_segment _ c

lemma shifts_unicodeEscape (c : Cursor) :
    LexShifts w (shiftForm (.behind w)) (unicodeEscape c) (unicodeEscape (c.shift w)) := by
  refine (Shifts.skip 1).bind fun _ => .cursorHere_bind fun d => ?_
  have hrest : (d.shift w).rest = d.rest := rfl
  simp only [hrest]
  cases Scan.escapeDigits? (Scan.hexLength d.rest) with
  | some n => exact (Shifts.skip n).bind fun _ => .of_eq (by rw [shiftForm])
  | none =>
    refine .throw ?_
    rw [Error.shift, Span.shift_of]
    simp only [Cursor.shift, Shift.behind, Nat.add_right_comm]

lemma shifts_octalEscape (c : Cursor) :
    LexShifts w (shiftForm (.behind w)) (octalEscape c) (octalEscape (c.shift w)) := by
  refine .cursorHere_bind fun d => (Shifts.skip _).bind fun _ => .ite (fun _ => ?_) fun _ => ?_
  · exact .of_eq (by rw [shiftForm])
  · refine .cursorHere_bind fun e => .throw ?_
    rw [Error.shift, Span.shift_of]
    rfl

variable {snippet : Lex (List Token)}

lemma shifts_escapeForm (hs : LexShifts w (List.map (Token.shift (.behind w))) snippet snippet)
    (c : Cursor) (x : Char) :
    LexShifts w (shiftForm (.behind w)) (escapeForm snippet c x)
      (escapeForm snippet (c.shift w) x) := by
  refine .ite (fun _ => (Shifts.skip 1).bind fun _ => .of_eq (by rw [shiftForm])) fun _ => ?_
  refine .ite (fun _ => shifts_unicodeEscape c) fun _ => ?_
  refine .ite (fun _ => shifts_octalEscape c) fun _ => .ite (fun _ => ?_) fun _ => ?_
  · refine (Shifts.skip 1).bind fun _ => hs.bind fun ts => .of_eq ?_
    rw [shiftForm_snippet]
  · exact .ite (fun _ => .throw (congrArg (Error.mk _) (Cursor.shift_here ..)))
      fun _ => .throw (congrArg (Error.mk _) (Cursor.shift_here ..))

lemma shifts_escape (hs : LexShifts w (List.map (Token.shift (.behind w))) snippet snippet) :
    LexShifts w (Segment.shift (.behind w)) (escape snippet) (escape snippet) := by
  refine .cursorHere_bind fun c => (Shifts.skip 1).bind fun _ => .cursorHere_bind fun d => ?_
  have hrest : (d.shift w).rest = d.rest := rfl
  rw [hrest]
  cases d.rest with
  | nil => exact .throw (congrArg (Error.mk _) (Cursor.shift_here ..))
  | cons x k => exact (shifts_escapeForm hs c x).bind fun form => shifts_segment form c

lemma shifts_stringSegments (hs : LexShifts w (List.map (Token.shift (.behind w))) snippet snippet)
    (bound : Nat) :
    LexShifts w (List.map (Segment.shift (.behind w))) (stringSegments snippet bound)
      (stringSegments snippet bound) := by
  induction bound with
  | zero => exact .cursorHere_bind fun c => .throw (congrArg (Error.mk _) (Cursor.shift_here ..))
  | succ bound ih =>
    refine .cursorHere_bind fun c => ?_
    have hrest : (c.shift w).rest = c.rest := rfl
    rw [hrest]
    split
    · exact .throw (congrArg (Error.mk _) (Cursor.shift_here ..))
    · exact (Shifts.skip 1).bind fun _ => .of_eq rfl
    · exact (shifts_escape hs).bind fun _ => ih.bind fun _ => .of_eq rfl
    · exact shifts_plainRun.bind fun _ => ih.bind fun _ => .of_eq rfl

lemma shifts_stringToken (hs : LexShifts w (List.map (Token.shift (.behind w))) snippet snippet) :
    LexShifts w (Token.shift (.behind w)) (string snippet) (string snippet) := by
  refine .cursorHere_bind fun c => (Shifts.skip 1).bind fun _ =>
    (shifts_stringSegments hs _).bind fun segs => .cursorHere_bind fun d => ?_
  rw [Cursor.shift_textTo]
  exact .emit _ _ c segs

/-! ### Tokens -/

/-- The groups behind a moved token. -/
lemma shift_groupsAfter (d : Shift) (t : Token) (groups : List Token) :
    groupsAfter (t.shift d) (groups.map (Token.shift d))
      = (groupsAfter t groups).map (Token.shift d) := by
  unfold groupsAfter
  rw [Token.shift_kind]
  split
  · rfl
  · cases groups with
    | nil => rfl
    | cons g gs =>
      simp only [List.map_cons, Token.shift_kind]
      split <;> rfl

lemma shifts_operatorToken (x : Char) :
    LexShifts w (Token.shift (.behind w)) (operator x) (operator x) := by
  refine ⟨fun {s s'} h => ?_⟩
  have hrest : (s.cursor.shift w).rest = s.cursor.rest := rfl
  rw [run_operator, run_operator, h.cursor, hrest]
  cases Scan.operator? s.cursor.rest with
  | none =>
    dsimp only
    rw [Cursor.shift_here]
    exact .error h
  | some o =>
    dsimp only
    have htoken := Token.shift_between w o.2 o.1 s.spaced [] s.cursor
      (s.cursor.forward o.1.length)
    rw [List.map_nil] at htoken
    rw [Cursor.shift_forward, h.spaced, h.groups, ← htoken, shift_groupsAfter]
    exact .ok ⟨rfl, rfl, rfl⟩

/-- What lies behind a word does not make `mod` an operator in the moved text only. -/
lemma wordKind_shift (hw : Scan.endsWithBlank w.reverse = false) (past : List Char) (text : String)
    (rest : List Char) : wordKind (past ++ w.reverse) text rest = wordKind past text rest := by
  have hpast : Scan.endsWithBlank (past ++ w.reverse) = Scan.endsWithBlank past := by
    cases past with
    | nil => exact hw
    | cons x past =>
      rw [List.cons_append]
      unfold Scan.endsWithBlank
      grind
  rw [wordKind, wordKind, hpast]

lemma shifts_wordToken (hw : Scan.endsWithBlank w.reverse = false) :
    LexShifts w (Token.shift (.behind w)) word word := by
  refine .cursorHere_bind fun c => (Shifts.skip _).bind fun _ => .cursorHere_bind fun d => ?_
  have hkind (text : String) : wordKind (c.shift w).past text (d.shift w).rest
      = wordKind c.past text d.rest := wordKind_shift hw _ _ _
  simp only [Cursor.shift_textTo, hkind]
  exact .emit _ _ c []

lemma shifts_numberToken : LexShifts w (Token.shift (.behind w)) number number := by
  refine .cursorHere_bind fun c => (Shifts.skip _).bind fun _ => .cursorHere_bind fun d => ?_
  rw [Cursor.shift_textTo]
  exact .emit _ _ c []

lemma shifts_snippetClose (inSnippet : Bool) :
    LexShifts w (Token.shift (.behind w)) (snippetClose inSnippet) (snippetClose inSnippet) := by
  refine ⟨fun {s s'} h => ?_⟩
  cases inSnippet with
  | false =>
    show ShiftedResult _ _ _ (.error _ s) (.error ⟨.strayClose, s'.cursor.here 2⟩ s')
    rw [h.cursor, Cursor.shift_here]
    exact .error h
  | true =>
    obtain ⟨cursor, groups, space', trace⟩ := s
    obtain ⟨cursor', groups', space, trace'⟩ := s'
    obtain ⟨hc, hg, hs⟩ := id h
    simp only at hc hg hs
    subst hc hg hs
    cases groups with
    | nil =>
      show ShiftedResult _ _ _ _ (.ok (Token.between .snippetClose
        ((cursor.shift w).textTo ((cursor.shift w).forward 2)) space [] (cursor.shift w)
        ((cursor.shift w).forward 2)) _)
      rw [Cursor.shift_forward, Cursor.shift_textTo, ← List.map_nil (f := Segment.shift (.behind w)),
        ← Token.shift_between]
      exact .ok ⟨Cursor.shift_forward w 2 cursor, rfl, rfl⟩
    | cons g gs =>
      show ShiftedResult _ _ _ _ (.error ⟨.groupOpenAtClose (g.shift _).value, (g.shift _).span⟩ _)
      rw [Token.shift_value, Token.shift_span]
      exact .error h

lemma Lexer.Shifted.pastBlanks {s s' : Lexer} (h : Lexer.Shifted w s s') (inSnippet : Bool) :
    Lexer.Shifted w (pastBlanks inSnippet s) (pastBlanks inSnippet s') := by
  have hgap : gap inSnippet s'.groups s'.cursor = gap inSnippet s.groups s.cursor := by
    rw [gap, gap, h.groups, h.cursor, List.isEmpty_map]
    rfl
  refine ⟨?_, h.groups, ?_⟩
  · show s'.cursor.forward (gap inSnippet s'.groups s'.cursor) = _
    rw [hgap, h.cursor, Cursor.shift_forward]
    rfl
  · simp only [StpLang.pastBlanks, hgap, h.spaced]

lemma shifts_nextToken (hw : Scan.endsWithBlank w.reverse = false) (inSnippet : Bool)
    (hs : LexShifts w (List.map (Token.shift (.behind w))) snippet snippet) :
    LexShifts w (Token.shift (.behind w)) (nextToken inSnippet snippet)
      (nextToken inSnippet snippet) := by
  refine ⟨fun {s s'} h => ?_⟩
  have hp := h.pastBlanks inSnippet
  have hrest : (pastBlanks inSnippet s').cursor.rest = (pastBlanks inSnippet s).cursor.rest := by
    rw [hp.cursor]
    rfl
  rw [run_nextToken, run_nextToken, hrest, hp.cursor]
  refine Shifts.run ?_ hp
  generalize (pastBlanks inSnippet s).cursor = c
  split
  · refine .cursorHere_bind fun c => .ite (fun _ => ?_) fun _ => .emit _ _ c []
    exact .throw (congrArg (Error.mk _) (Cursor.shift_here ..))
  · exact (Shifts.skip 1).bind fun _ => .emit _ _ c []
  · refine Shifts.bind (?_ : LexShifts w id restOfLine restOfLine) fun _ => .emit _ _ c []
    exact .cursorHere_bind fun d => (Shifts.skip _).bind fun _ => .of_eq rfl
  · exact shifts_snippetClose inSnippet
  · exact shifts_wordToken hw
  · exact shifts_numberToken
  · exact shifts_stringToken hs
  · exact shifts_operatorToken _

/-! ### Snippets -/

lemma shifts_snippetTokens {next : Lex Token} (h : LexShifts w (Token.shift (.behind w)) next next)
    (bound : Nat) :
    LexShifts w (List.map (Token.shift (.behind w))) (snippetTokens next bound)
      (snippetTokens next bound) := by
  induction bound with
  | zero => exact h.bind fun _ => .of_eq rfl
  | succ bound ih =>
    refine h.bind fun t => ?_
    rw [Token.shift_kind]
    refine .ite (fun _ => .of_eq ?_) fun _ => ih.bind fun _ => .of_eq rfl
    simp [Token.shift_eq, Token.eofAt]

lemma shifts_within {inner : Lex α} (h : LexShifts w act inner inner) :
    LexShifts w act (within inner) (within inner) := by
  refine ⟨fun {s s'} hs => ?_⟩
  have hstart : Lexer.Shifted w { cursor := s.cursor, trace := s.trace }
      { cursor := s'.cursor, trace := s'.trace } := ⟨hs.cursor, rfl, rfl⟩
  have hr := h.run hstart
  unfold within
  generalize inner { cursor := s.cursor, trace := s.trace } = r at hr ⊢
  generalize inner { cursor := s'.cursor, trace := s'.trace } = r' at hr ⊢
  cases hr with
  | ok ht => exact .ok ⟨ht.cursor, hs.groups, hs.spaced⟩
  | error ht => exact .error ⟨ht.cursor, hs.groups, hs.spaced⟩

lemma shifts_readSnippet (hw : Scan.endsWithBlank w.reverse = false) (limit : Int)
    (allowance : Nat) :
    LexShifts w (List.map (Token.shift (.behind w))) (readSnippet limit allowance)
      (readSnippet limit allowance) := by
  induction allowance with
  | zero =>
    refine ⟨fun {s s'} h => ?_⟩
    show ShiftedResult _ _ _ (.error _ s) (.error ⟨.snippetsTooDeep limit, s'.cursor.here⟩ s')
    rw [h.cursor, Cursor.shift_here]
    exact .error h
  | succ n ih =>
    refine ⟨fun {s s'} h => ?_⟩
    rw [run_readSnippet, run_readSnippet]
    have hlength : s'.cursor.rest.length = s.cursor.rest.length := by
      rw [h.cursor]
      rfl
    rw [hlength]
    exact (shifts_within (shifts_snippetTokens (shifts_nextToken hw true ih) _)).run
      ⟨h.cursor, h.groups, h.spaced⟩

/-! ### Whole texts -/

/-- The moved text is cut into the moved tokens, up to the moved fault. -/
theorem lexFrom_shift (hw : Scan.endsWithBlank w.reverse = false) (limit : Int) {s s' : Lexer}
    (h : Lexer.Shifted w s s') :
    (lexFrom limit s').tokens = (lexFrom limit s).tokens.map (Token.shift (.behind w))
      ∧ (lexFrom limit s').fault = (lexFrom limit s).fault.map
        fun f => ⟨f.error.shift (.behind w), f.place.shift w⟩ := by
  induction hlen : s.cursor.rest.length using Nat.strongRecOn generalizing s s' with
  | _ k ih =>
    have hr := (shifts_nextToken hw false (shifts_readSnippet hw limit limit.toNat)).run h
    change ShiftedResult _ _ _ (textToken limit s) (textToken limit s') at hr
    generalize hs : textToken limit s = r at hr
    generalize hs' : textToken limit s' = r' at hr
    cases hr with
    | error =>
      rw [lexFrom_error hs, lexFrom_error hs', h.cursor, List.map_singleton, Token.shift_eofAt]
      exact ⟨rfl, rfl⟩
    | @ok u t t' ht =>
      by_cases hk : u.kind = .eof
      · rw [lexFrom_eof hs hk, lexFrom_eof hs' (by rwa [Token.shift_kind])]
        exact ⟨rfl, rfl⟩
      · rw [lexFrom_cons hs hk, lexFrom_cons hs' (by rwa [Token.shift_kind])]
        obtain ⟨htokens, hfault⟩ := ih _ (hlen ▸ textToken_lt hs hk) ht rfl
        exact ⟨congrArg (u.shift _ :: ·) htokens, hfault⟩

/-! ### Digits of escapes -/

/-- The digits of an escape start within the text, also in the snippets. -/
inductive Token.Movable : Token → Prop
  | mk {t : Token}
      (digits : ∀ seg ∈ t.segments, ∀ digits, seg.form = .unicode digits →
        digits.length ≤ seg.stop)
      (snippets : ∀ seg ∈ t.segments, ∀ ts, seg.form = .snippet ts →
        ∀ u ∈ ts, Token.Movable u) : Token.Movable t

namespace Token.Movable

variable {t u : Token} {seg : Segment Token}

lemma digits (h : t.Movable) (hs : seg ∈ t.segments) {digits : String}
    (hf : seg.form = .unicode digits) : digits.length ≤ seg.stop := by
  cases h with
  | mk hd => exact hd seg hs digits hf

lemma snippets (h : t.Movable) (hs : seg ∈ t.segments) {ts : List Token}
    (hf : seg.form = .snippet ts) : ∀ u ∈ ts, u.Movable := by
  cases h with
  | mk _ hsnip => exact hsnip seg hs ts hf

lemma of_segments (h : t.Movable) (hs : u.segments = t.segments) : u.Movable := by
  refine ⟨?_, ?_⟩
  · rw [hs]
    exact fun _ hseg _ => h.digits hseg
  · rw [hs]
    exact fun _ hseg _ => h.snippets hseg

/-- A token without pieces. -/
lemma plain (hs : t.segments = []) : t.Movable := by
  refine ⟨?_, ?_⟩ <;> simp [hs]

end Token.Movable

/-- The tokens of snippets can be moved. -/
def SnippetRel.Movable (R : SnippetRel) : Prop := ∀ ⦃c ts d⦄, R c ts d → ∀ u ∈ ts, u.Movable

variable {R : SnippetRel} {c e : Cursor} {segs : List (Segment Token)}

lemma Escape.length_le {digits : String} (h : Escape R c (.unicode digits) e) :
    digits.length ≤ e.pos := by
  cases h with
  | @unicode k n h hn =>
    have hle : n ≤ Scan.hexLength k := by simpa using List.find?_some hn
    have hhex : Scan.hexLength k ≤ (k.take 8).length := (List.takeWhile_sublist _).length_le
    rw [List.length_take] at hhex
    rw [Cursor.pos_forward (by rw [h, List.length_cons, List.length_cons]; omega),
      String.length_ofList, List.length_take]
    omega

lemma Pieces.movable (hR : R.Movable) (h : Pieces R c segs e) :
    ∀ seg ∈ segs, (∀ digits, seg.form = .unicode digits → digits.length ≤ seg.stop)
      ∧ ∀ ts, seg.form = .snippet ts → ∀ u ∈ ts, u.Movable := by
  induction h with
  | close => simp
  | plain _ _ _ ih =>
    rw [List.forall_mem_cons]
    exact ⟨⟨(by rintro _ ⟨⟩), (by rintro _ ⟨⟩)⟩, ih⟩
  | @escape c d e form segs h hs ih =>
    rw [List.forall_mem_cons]
    refine ⟨⟨fun digits hf => ?_, fun ts hf => ?_⟩, ih⟩
    · change form = _ at hf
      subst hf
      exact h.length_le
    · change form = _ at hf
      subst hf
      cases h with
      | snippet _ hs => exact hR hs

lemma Cut.movable (hR : R.Movable) {inSnippet spaced : Bool} {groups : List Token} {t : Token}
    (h : Cut R inSnippet groups spaced c t e) : t.Movable := by
  obtain ⟨h⟩ := h
  cases h with
  | string _ hs =>
    exact ⟨fun seg hseg => (hs.movable hR seg hseg).1, fun seg hseg => (hs.movable hR seg hseg).2⟩
  | _ => exact .plain rfl

lemma SnippetTokens.movable (hR : R.Movable) {groups ts : List Token} {spaced : Bool}
    (h : SnippetTokens R groups spaced c ts e) : ∀ u ∈ ts, u.Movable := by
  induction h with
  | close =>
    rw [List.forall_mem_singleton]
    exact .plain rfl
  | more h _ ih => exact List.forall_mem_cons.mpr ⟨h.movable hR, ih⟩

lemma SnippetAt.movable (allowance : Nat) : SnippetRel.Movable (SnippetAt allowance) := by
  induction allowance with
  | zero => exact fun _ _ _ h => h.elim
  | succ n ih => exact fun _ _ _ h => SnippetTokens.movable ih h

/-- The tokens of a text can be moved. -/
lemma movable_lexFrom (limit : Int) (s : Lexer) : ∀ t ∈ (lexFrom limit s).tokens, t.Movable := by
  have hnext {s t : Lexer} {u : Token} (h : textToken limit s = .ok u t) : u.Movable := by
    cases textToken_inv h with
    | token hcut => exact hcut.movable (SnippetAt.movable _)
    | text _ _ _ hu =>
      rw [hu]
      exact .plain rfl
    | snippet h => cases h
  refine lexFrom_induction (P := fun _ l => ∀ t ∈ l.tokens, t.Movable) ?_ ?_ ?_ s
  · intro s e t h
    rw [lexFrom_error h, List.forall_mem_singleton]
    exact .plain rfl
  · intro s u t h hu
    rw [lexFrom_eof h hu, List.forall_mem_singleton]
    exact hnext h
  · exact fun s u t h _ ih => List.forall_mem_cons.mpr ⟨hnext h, ih⟩

end

end StpLang
