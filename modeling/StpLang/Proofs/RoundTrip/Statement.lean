import StpLang.Proofs.RoundTrip.Expression
import StpLang.Proofs.RoundTrip.Lines

/-!
Every statement is read as it is written.

Writing a statement adds one or more lines to a sheet, and these are read as the
statement behind any line end. A block is read between its braces, and the clauses
of an `if` go on from the line of the brace before them.

* `StatementOf`, `LinesOf`, `BlockOf` and `ClausesOf` say that tokens form
  statements, blocks and clauses.
* `Writes`, `WritesAll` and `WritesClauses` say that what is written is read as such
  tokens.
* `writes_line` and `writes_block` write the two sorts of statements, and each kind
  follows from one of them.
-/

namespace StpLang

open Source

/-! ### Tokens of a statement -/

/-- A line ends, and no clause goes on behind it. -/
structure Calm (k : List Token) : Prop where
  head : headKind k = .newline
  clause : clauseAhead k = false

/-- The tokens form the expression `e` by itself. -/
def ExpressionOf (e : Node) (us : List Token) : Prop :=
  ∃ e', e.sameStructure e' = true ∧ ∀ {a : Nat} {k : List Token}, e.demand < a →
    endsPhrase (headKind k) = true → Derives a (.expression 1 false) us k [e']

/-- The tokens form the statement `e` within a number of loops. -/
def StatementOf (loops : Nat) (e : Node) (us : List Token) : Prop :=
  ∃ e', e.sameStructure e' = true ∧ ∀ {a : Nat} {k : List Token}, e.demand ≤ a → Calm k →
    Derives a (.statement loops) us k [e']

/-- The tokens form the block `e`. -/
def BlockOf (loops : Nat) (e : Node) (us : List Token) : Prop :=
  ∃ e', e.sameStructure e' = true ∧ ∀ {a : Nat} {k : List Token}, e.demand ≤ a →
    Derives a (.block loops) us k [e']

/-- The tokens form the clauses `ns`. -/
def ClausesOf (loops : Nat) (seenElse : Bool) (ns : List Node) (us : List Token) : Prop :=
  ∃ ns', Node.allAgree false ns ns' = true ∧ ∀ {a : Nat} {k : List Token},
    Node.toll ns ≤ a + 1 → Calm k → Derives a (.clauses loops seenElse) us k ns'

/-- The tokens form lines with the statements `ns`, and others may follow. -/
structure LinesOf (loops : Nat) (ns : List Node) (us : List Token) : Prop where
  calm : ∀ {k : List Token}, Calm k → Calm (us ++ k)
  statements : ∃ ns', Node.allAgree false ns ns' = true
    ∧ ∀ {a : Nat} {inBlock : Bool} {vs k : List Token} {ms : List Node},
      Node.toll ns ≤ a + 1 → Calm (vs ++ k) → Derives a (.statements loops inBlock) vs k ms →
        Derives a (.statements loops inBlock) (us ++ vs) k (ns' ++ ms)

section

variable {loops : Nat} {e x y : Node} {ns ms : List Node} {us vs ts k : List Token} {t c : Token}

lemma PhraseOf.whole (h : PhraseOf e us) : ExpressionOf e us := by
  obtain ⟨e', hs, h⟩ := h.expression
  refine ⟨e', hs, fun {a k} ha hk => ?_⟩
  obtain ⟨b, rfl⟩ : ∃ b, a = b + 1 := ⟨a - 1, by omega⟩
  exact h (by omega) e.one_le_level (ends_of_headKind hk)

lemma ExpressionOf.balanced (h : ExpressionOf e us) : Balanced us := by
  obtain ⟨e', -, h⟩ := h
  exact (h (Nat.lt_succ_self _) (k := []) rfl).balanced

/-- A line end before a token that begins no clause. -/
lemma calm_cons {kind : TokenKind} (ht : t.kind = .newline) (hk : headKind k = kind)
    (h : kind ≠ .newline ∧ kind ≠ .kwElseif ∧ kind ≠ .kwElse) : Calm (t :: k) := by
  subst hk
  refine ⟨ht, ?_⟩
  have hkind : clauseKind (t :: k) = headKind k := by
    rw [clauseKind, List.dropWhile_cons_of_pos (by simp [ht])]
    cases k with
    | nil => rfl
    | cons u k => rw [List.dropWhile_cons_of_neg (by simpa using h.1)]
  rw [clauseAhead, hkind, beq_false_of_ne h.2.1, beq_false_of_ne h.2.2]
  rfl

/-- Some tokens that are calm. -/
lemma calm_lineEnd : Calm [lineEndToken] := calm_cons rfl rfl (by decide)

lemma StatementOf.balanced (h : StatementOf loops e us) : Balanced us := by
  obtain ⟨e', -, h⟩ := h
  exact (h (Nat.le_refl _) calm_lineEnd).balanced

/-- A statement does not begin with a clause. -/
lemma StatementOf.calm (h : StatementOf loops e us) (ht : t.kind = .newline) (k : List Token) :
    Calm (t :: (us ++ k)) := by
  obtain ⟨e', -, h⟩ := h
  obtain ⟨u, vs, rfl, hu⟩ := (h (Nat.le_refl _) calm_lineEnd).first rfl
  have hkinds : u.kind ≠ .newline ∧ u.kind ≠ .kwElseif ∧ u.kind ≠ .kwElse := by
    refine ⟨?_, ?_, ?_⟩ <;> rintro hk <;> rw [hk] at hu <;> cases hu
  exact calm_cons ht rfl hkinds

lemma BlockOf.first (h : BlockOf loops e us) : ∃ t ts, us = t :: ts ∧ t.kind = .leftBrace := by
  obtain ⟨e', -, h⟩ := h
  obtain ⟨t, ts, rfl, ht⟩ := (h (Nat.le_refl _) (k := [])).first rfl
  exact ⟨t, ts, rfl, eq_of_beq ht⟩

/-! ### Lines of statements -/

lemma linesOf_nil : LinesOf loops [] [] :=
  ⟨fun h => h, [], Node.allAgree_nil _, fun _ _ h => h⟩

/-- A statement on lines of its own before others. -/
lemma StatementOf.cons (h : StatementOf loops e us) (ht : t.kind = .newline)
    (hs : LinesOf loops ns vs) : LinesOf loops (e :: ns) (t :: us ++ vs) := by
  refine ⟨fun {k} _ => ?_, ?_⟩
  · rw [List.cons_append, List.cons_append, List.append_assoc]
    exact h.calm ht _
  · obtain ⟨e', hsame, h⟩ := h
    obtain ⟨ns', hsames, hmore⟩ := hs.statements
    refine ⟨e' :: ns', ?_, fun {a inBlock ws k ms} ha hk hws => ?_⟩
    · rw [Node.allAgree_cons, Bool.and_eq_true]
      exact ⟨hsame, hsames⟩
    · rw [Node.toll_cons] at ha
      rw [List.cons_append, List.cons_append, List.append_assoc]
      refine .statementsSeparator (by rw [ht]; rfl) (.statementsMore (h (by omega) ?_)
        (hmore (by omega) hk hws))
      rw [List.append_assoc]
      exact hs.calm hk

/-- Lines of statements between two braces. -/
lemma LinesOf.block (h : LinesOf loops ns us) (he : e.Has .block ns none) {o : Token}
    (ho : o.kind = .leftBrace) (ht : t.kind = .newline) (hc : c.kind = .rightBrace) :
    BlockOf loops e (o :: (us ++ [t] ++ [c])) := by
  obtain ⟨ns', hsame, h⟩ := h.statements
  refine ⟨.spanning .block o.place c.stop ns', he.same rfl hsame, fun {a k} ha => ?_⟩
  rw [show e.demand = max 1 (Node.toll ns) from he.demand_eq] at ha
  obtain ⟨b, rfl⟩ : ∃ b, a = b + 1 := ⟨a - 1, by omega⟩
  have hend : Derives b (.statements loops true) [t] (c :: k) [] :=
    .statementsSeparator (by rw [ht]; rfl) (.statementsEnd (.inr ⟨rfl, hc⟩))
  have hcalm : Calm ([t] ++ c :: k) := calm_cons ht hc (by decide)
  have hlines := h (by omega) hcalm hend
  rw [List.append_nil] at hlines
  exact .block ho hlines hc

end

/-! ### What is written -/

/-- Writing the statement `e` adds lines that are read as `e`. -/
def Writes (limit : Int) (loops : Nat) (e : Node) : Prop :=
  ∀ s : Sheet, ∃ s' d, statement e s = .ok ((), s') ∧ Extended s s' ('\n' :: d)
    ∧ Recounts limit Fresh EndsLine d (StatementOf loops e)

/-- Writing the statements `ns` adds lines that are read as these statements, or
nothing. -/
def WritesAll (limit : Int) (loops : Nat) (ns : List Node) : Prop :=
  ∀ s : Sheet, ∃ s' d, statements ns s = .ok ((), s') ∧ Extended s s' d
    ∧ (∀ k, EndsLine k → EndsLine (d ++ k)) ∧ Recounts limit Anywhere EndsLine d (LinesOf loops ns)

/-- Writing the clauses `ns` goes on from the latest line, and what is added is read
as these clauses. -/
def WritesClauses (limit : Int) (loops : Nat) (seenElse : Bool) (ns : List Node) : Prop :=
  ∀ s : Sheet, s.lines ≠ [] → ∃ s' d, clauses 0 ns s = .ok ((), s') ∧ Extended s s' d
    ∧ (d = [] ∨ d.head? = some ' ')
    ∧ Recounts limit Anywhere Scan.EndsToken d (ClausesOf loops seenElse ns)

section

variable {n loops : Nat} {limit : Int} {e x : Node} {ns : List Node} {text header w : String}
  {S : Option TokenKind → Prop} {K : List Char → Prop} {v d : List Char}
  {P : Bool → List Token → Prop} {Q : List Token → Prop}

/-- A statement of one line. -/
lemma writes_line (hrun : ∀ s, statement e s = line text s)
    (h : Tells limit.toNat Fresh Scan.EndsToken text.toList P)
    (hP : ∀ b us, P b us → StatementOf loops e us) : Writes limit loops e := by
  intro s
  have hline := (h.blanks (4 * s.indent)).recounts limit fun _ us ⟨b, hus⟩ => (hP b us hus).balanced
  exact ⟨s.lined text, _, hrun s, extended_line s text,
    (hline.mono fun us ⟨_, b, hus⟩ => hP b us hus).weaken (fun _ hl => hl) fun _ hk => hk.endsToken⟩

lemma writesAll_nil : WritesAll limit loops [] := fun s =>
  ⟨s, [], run_statements_nil s, .refl s, fun _ hk => hk,
    recounts_nil.mono fun _ h => h ▸ linesOf_nil⟩

lemma Writes.cons (h : Writes limit loops e) (hs : WritesAll limit loops ns) :
    WritesAll limit loops (e :: ns) := by
  intro s
  obtain ⟨s', d, hrun, hext, hrec⟩ := h s
  obtain ⟨s'', d', hruns, hexts, hends, hrecs⟩ := hs s'
  refine ⟨s'', '\n' :: d ++ d', (run_statements_cons hrun).trans hruns, hext.trans hexts,
    fun _ _ => rfl, ?_⟩
  have hfirst := (recounts_lineEnd limit (S := Anywhere) (K := fun _ => True)).append hrec
    (fun _ last ⟨t, hus, ht⟩ => ?_) fun _ _ => trivial
  · refine ((hfirst.append hrecs (fun _ _ _ => trivial) fun k hk => hends k hk).mono ?_)
    rintro _ ⟨_, vs, rfl, ⟨_, us, rfl, ⟨t, rfl, ht⟩, hus⟩, hvs⟩
    exact hus.cons ht hvs
  · rw [hus]
    show Fresh (some t.kind)
    rw [ht]
    rfl

/-! ### Blocks -/

/-- A header and the opening brace of a block. -/
lemma tells_opening (h : Tells n S Scan.EndsToken header.toList fun _ => Q) :
    Tells n S Scan.EndsOperator (header ++ " \x7b").toList fun _ us =>
      ∃ xs o, us = xs ++ [o] ∧ Q xs ∧ o.kind = .leftBrace := by
  have hopen : Tells n Anywhere Scan.EndsOperator "\x7b".toList (Single .leftBrace "\x7b") :=
    tells_mark (by decide)
  rw [String.toList_append]
  refine (h.append hopen.blank (fun _ _ _ _ _ => trivial) fun k _ =>
    Scan.endsToken_cons rfl rfl).mono ?_
  rintro b _ ⟨xs, _, rfl, hxs, o, rfl, ho, -, -⟩
  exact ⟨xs, o, rfl, hxs, ho⟩

/-- What is written behind the opening brace of a block. -/
lemma WritesAll.closing (h : WritesAll limit loops ns) (he : x.Has .block ns none) (s : Sheet) :
    ∃ s' d, closing (statements x.children) s = .ok ((), s') ∧ Extended s s' d ∧ EndsLine d
      ∧ Recounts limit Anywhere Scan.EndsOperator d fun us =>
        ∀ o : Token, o.kind = .leftBrace → BlockOf loops x (o :: us) := by
  obtain ⟨s', d, hrun, hext, hends, hrec⟩ := h { s with indent := s.indent + 1 }
  have hclose : Tells limit.toNat Anywhere Scan.EndsOperator "\x7d".toList
      (Single .rightBrace "\x7d") := tells_mark (by decide)
  have hbrace := (hclose.blanks (4 * (s'.indent - 1))).recounts limit
    fun _ us ⟨_, c, hus, hc, _⟩ => by
      rw [hus]
      exact .one hc rfl .nil
  have hend := (recounts_lineEnd limit (S := Anywhere) (K := fun _ => True)).append hbrace
    (fun _ _ _ => trivial) fun _ _ => trivial
  refine ⟨_, _, ?_, hext.outdented.trans (extended_line _ "\x7d"), hends _ rfl, ?_⟩
  · rw [he.children]
    exact run_closing hrun
  · refine (hrec.append hend (fun _ _ _ => trivial) fun _ _ => rfl).mono ?_
    rintro _ ⟨us, _, rfl, hus, _, _, rfl, ⟨t, rfl, ht⟩, -, -, c, rfl, hc, -⟩ o ho
    rw [← List.append_assoc]
    exact hus.block he ho ht hc

/-- A header behind some blanks and a block. -/
lemma recounts_block (hopen : Tells limit.toNat S Scan.EndsOperator v fun _ us =>
      ∃ xs o, us = xs ++ [o] ∧ Q xs ∧ o.kind = .leftBrace)
    (hQ : ∀ us, Q us → Balanced us) (hd : EndsLine d)
    (hrec : Recounts limit Anywhere Scan.EndsOperator d fun us =>
      ∀ o : Token, o.kind = .leftBrace → BlockOf loops x (o :: us)) :
    Recounts limit S Scan.EndsToken (v ++ d) fun us =>
      ∃ xs ys, us = xs ++ ys ∧ Q xs ∧ BlockOf loops x ys := by
  have hfirst := hopen.recounts limit fun _ us ⟨xs, o, hus, hxs, ho⟩ => by
    rw [hus]
    exact (hQ xs hxs).append (.one ho rfl .nil)
  refine ((hfirst.append hrec (fun _ _ _ => trivial) fun k _ => ?_).weaken (fun _ hl => hl)
    fun _ hk => hk.operator).mono ?_
  · cases d with
    | nil => cases hd
    | cons y d =>
      cases hd
      exact (Scan.endsToken_cons rfl rfl).operator
  · rintro _ ⟨_, ys, rfl, ⟨-, xs, o, rfl, hxs, ho⟩, hys⟩
    exact ⟨xs, o :: ys, by simp, hxs, hys o ho⟩

/-- A block below its header. -/
lemma WritesAll.block (h : WritesAll limit loops ns) (he : x.Has .block ns none)
    (hheader : Tells limit.toNat S Scan.EndsToken header.toList fun _ => Q)
    (hQ : ∀ us, Q us → Balanced us) (s : Sheet) :
    ∃ s' d, block header (statements x.children) s = .ok ((), s') ∧ Extended s s' ('\n' :: d)
      ∧ Recounts limit S Scan.EndsToken d fun us =>
        ∃ xs ys, us = xs ++ ys ∧ Q xs ∧ BlockOf loops x ys := by
  obtain ⟨s', d, hrun, hext, hd, hrec⟩ := h.closing he (s.lined (header ++ " \x7b"))
  refine ⟨s', _, ?_, (extended_line s _).trans hext, recounts_block ?_ hQ hd hrec⟩
  · rw [Source.block, run_then (show line (header ++ " \x7b") s = _ from rfl)]
    exact hrun
  · refine ((tells_opening hheader).blanks _).mono fun _ _ hus => ?_
    obtain ⟨_, hus⟩ := hus
    exact hus

/-- A block whose header stands on the line of the brace before it. -/
lemma WritesAll.attached (h : WritesAll limit loops ns) (he : x.Has .block ns none)
    (hheader : Tells limit.toNat S Scan.EndsToken header.toList fun _ => Q)
    (hQ : ∀ us, Q us → Balanced us) {s : Sheet} (hs : s.lines ≠ []) :
    ∃ s' d, attached header (statements x.children) s = .ok ((), s')
      ∧ Extended s s' (' ' :: d)
      ∧ Recounts limit S Scan.EndsToken (' ' :: d) fun us =>
        ∃ xs ys, us = xs ++ ys ∧ Q xs ∧ BlockOf loops x ys := by
  obtain ⟨t, hattach, hfirst⟩ := extended_attach hs (header ++ " \x7b")
  obtain ⟨s', d, hrun, hext, hd, hrec⟩ := h.closing he t
  refine ⟨s', _, ?_, hfirst.trans hext, recounts_block (tells_opening hheader).blank hQ hd hrec⟩
  rw [Source.attached, run_then hattach, hrun]

end

/-! ### Words before a text -/

section

variable {n loops : Nat} {limit : Int} {e x y pos key body : Node} {ns ms xs ys : List Node}
  {us vs ts : List Token} {t u : Token} {text s w : String} {value : Option String}
  {kind : TokenKind} {form : ArgumentForm} {b : Bool}
  {S : Option TokenKind → Prop} {K : List Char → Prop} {v : List Char}
  {P : Bool → List Token → Prop}

/-- A reserved word and a blank before a text. -/
lemma tells_headed (hw : (w, kind) ∈ TokenKind.keywords)
    (h : Tells n S K v P) (hS : ∀ last, Fresh last → S last) :
    Tells n Anywhere K (w.toList ++ ' ' :: v) fun _ us =>
      ∃ t ts, us = t :: ts ∧ t.kind = kind ∧ P true ts := by
  have hfresh : ∀ o ∈ TokenKind.keywords, o.2.endsOperand = false := by decide
  refine ((tells_keyword hw).append h.blank (fun _ us last hus _ => hS _ ?_) fun k _ =>
    (Scan.endsToken_cons (x := ' ') rfl rfl).word).mono ?_
  · rw [hus.lastKind_eq]
    exact hfresh _ hw
  · rintro b _ ⟨_, ts, rfl, ⟨t, rfl, ht, -, -⟩, hts⟩
    exact ⟨t, ts, rfl, ht, hts⟩

/-- A reserved word and an expression. -/
def HeadOf (kind : TokenKind) (x : Node) (us : List Token) : Prop :=
  ∃ t ts, us = t :: ts ∧ t.kind = kind ∧ ExpressionOf x ts

lemma HeadOf.balanced (h : HeadOf kind x us) (hk : kind.isInner = true) :
    Balanced us := by
  obtain ⟨t, ts, rfl, ht, hts⟩ := h
  exact .one ht hk hts.balanced

lemma Speaks.headed (h : Speaks n x s) (hw : (w, kind) ∈ TokenKind.keywords)
    (htext : text.toList = w.toList ++ ' ' :: s.toList) :
    Tells n Anywhere Scan.EndsToken text.toList fun _ => HeadOf kind x := by
  rw [htext]
  refine (tells_headed hw h.tells fun _ hl _ => hl).mono ?_
  rintro b _ ⟨t, ts, rfl, ht, hts⟩
  exact ⟨t, ts, rfl, ht, hts.phrase.whole⟩

/-! ### Clauses -/

lemma writesClauses_nil : WritesClauses limit loops b [] := fun s _ =>
  ⟨s, [], run_clauses_nil s, .refl s, .inl rfl, recounts_nil.mono fun _ h =>
    h ▸ ⟨[], Node.allAgree_nil _, fun _ hk => .clausesEnd hk.clause⟩⟩

/-- A clause before others. -/
lemma WritesClauses.cons {seenElse seen : Bool} {header : String} {Q : List Token → Prop}
    (h : WritesClauses limit loops seen ns) (hbody : body.Has .block ms none)
    (hms : WritesAll limit loops ms)
    (hrun : ∀ s, clauses 0 (e :: ns) s
      = (attached header (statements body.children) >>= fun _ => clauses 0 ns) s)
    (hheader : Tells limit.toNat Anywhere Scan.EndsToken header.toList fun _ => Q)
    (hQ : ∀ us, Q us → Balanced us)
    (hcons : ∀ us vs ws, Q us → BlockOf loops body vs → ClausesOf loops seen ns ws →
      ClausesOf loops seenElse (e :: ns) (us ++ vs ++ ws)) :
    WritesClauses limit loops seenElse (e :: ns) := by
  intro s hs
  obtain ⟨s', d, hblock, hext, hrec⟩ := hms.attached hbody hheader hQ hs
  obtain ⟨s'', d', hclauses, hexts, hends, hrecs⟩ := h s' (hext.lines_ne_nil (by simp))
  refine ⟨s'', _, ?_, hext.trans hexts, .inr rfl, ?_⟩
  · rw [hrun, run_then hblock, hclauses]
  · refine (hrec.append hrecs (fun _ _ _ => trivial) fun k hk => endsToken_clauses hends hk).mono ?_
    rintro _ ⟨_, ws, rfl, ⟨us, vs, rfl, hus, hvs⟩, hws⟩
    exact hcons us vs ws hus hvs hws

/-- An `elseif` before other clauses. -/
lemma WritesClauses.elseif (h : WritesClauses limit loops false ns)
    (he : e.Has .elseifClause [x, body] none) (hx : Speaks limit.toNat x s)
    (hbody : body.Has .block ms none) (hms : WritesAll limit loops ms) :
    WritesClauses limit loops false (e :: ns) := by
  have hheader : Tells limit.toNat Anywhere Scan.EndsToken ("elseif " ++ s).toList
      fun _ => HeadOf .kwElseif x := hx.headed (w := "elseif") (by decide) (by simp)
  refine h.cons hbody hms (fun s => run_elseif he hx.text s) hheader
    (fun us hus => hus.balanced rfl) ?_
  rintro _ vs ws ⟨t, ts, rfl, ht, x', hxsame, hts⟩ hvs ⟨ns', hsame, hws⟩
  obtain ⟨o, os, rfl, ho⟩ := hvs.first
  obtain ⟨b', hbsame, hblock⟩ := hvs
  refine ⟨.spanning .elseifClause t.place (lastStop (o :: os)) [x', b']
    [(.condition, [0]), (.body, [1])] :: ns', ?_, fun {a k} ha hk => ?_⟩
  · rw [Node.allAgree_cons, Bool.and_eq_true]
    refine ⟨he.same rfl ?_, hsame⟩
    simp only [Node.allAgree_cons, Node.allAgree_nil, Bool.and_true, Bool.and_eq_true]
    exact ⟨hxsame, hbsame⟩
  · rw [Node.toll_cons,
      show e.demand = max (x.demand + 1) (Node.toll [body] - 1) from he.demand_eq, Node.toll_cons]
      at ha
    have hclause : Derives a (.clauses loops false) ([] ++ t :: (ts ++ (o :: os ++ ws))) k _ :=
      .clausesElseif (by simp) ht
        (hts (by omega) (by rw [List.cons_append, headKind_cons, ho]; rfl))
        (hblock (by omega)) (hws (by omega) hk)
    simpa using hclause

/-- An `else`, behind which no clause follows. -/
lemma WritesClauses.else (he : e.Has .elseClause [body] none) (hbody : body.Has .block ms none)
    (hms : WritesAll limit loops ms) : WritesClauses limit loops false [e] := by
  have hheader : Tells limit.toNat Anywhere Scan.EndsToken "else".toList fun _ us =>
      ∃ t, us = [t] ∧ t.kind = .kwElse :=
    ((tells_keyword (by decide)).weaken (fun _ hl => hl) fun _ hk => hk.word).mono
      fun _ us ⟨t, hus, ht, _⟩ => ⟨t, hus, ht⟩
  refine (writesClauses_nil (b := true)).cons hbody hms (fun s => run_else he s) hheader
    (fun us ⟨t, hus, ht⟩ => by rw [hus]; exact .one ht rfl .nil) ?_
  rintro _ vs ws ⟨t, rfl, ht⟩ ⟨b', hbsame, hblock⟩ ⟨ns', hsame, hws⟩
  refine ⟨.spanning .elseClause t.place (lastStop vs) [b'] [(.body, [0])] :: ns', ?_,
    fun {a k} ha hk => ?_⟩
  · rw [Node.allAgree_cons, Bool.and_eq_true]
    refine ⟨he.same rfl ?_, hsame⟩
    rw [Node.allAgree_cons, Node.allAgree_nil, Bool.and_true]
    exact hbsame
  · rw [Node.toll_cons, show e.demand = Node.toll [body] - 1 from he.demand_eq, Node.toll_cons]
      at ha
    have hclause : Derives a (.clauses loops false) ([] ++ t :: (vs ++ ws)) k _ :=
      .clausesElse (by simp) ht (hblock (by omega)) (hws (by simp) hk)
    simpa using hclause

/-! ### Statements of one line -/

lemma writes_comment (he : e.Has .comment [] (some text)) (hw : isRemark text = true) :
    Writes limit loops e := by
  intro s
  refine ⟨s.lined text, _, run_comment he s, extended_line s text,
    (recounts_comment hw (4 * s.indent)).mono ?_⟩
  rintro _ ⟨t, rfl, ht, hv⟩
  exact ⟨_, he.leaf rfl hv, fun _ _ => .comment ht⟩

lemma writes_exit (he : e.Has .exitStatement [] (some "exit")) : Writes limit loops e := by
  have hword : ("exit", TokenKind.kwExit) ∈ TokenKind.keywords := by decide
  refine writes_line (run_exit he) ((tells_keyword hword).weaken (fun _ _ => trivial)
    fun _ hk => hk.word) ?_
  rintro _ _ ⟨t, rfl, ht, hv, -⟩
  exact ⟨_, he.leaf rfl hv, fun _ _ => .exit ht⟩

/-- A `break` or a `cont` within a loop. -/
lemma writes_loopControl {form : Kind}
    (hform : (form = .breakStatement ∧ w = "break") ∨ (form = .contStatement ∧ w = "cont"))
    (he : e.Has form [] (some w)) (hl : loops ≠ 0) : Writes limit loops e := by
  obtain ⟨kind, hword, hrun, hkind, hlabels, hname⟩ : ∃ kind, (w, kind) ∈ TokenKind.keywords
      ∧ (∀ s, statement e s = line w s) ∧ (kind = .kwBreak ∨ kind = .kwCont)
      ∧ form.labels 0 = [] ∧ Kind.ofName w = form := by
    rcases hform with ⟨rfl, rfl⟩ | ⟨rfl, rfl⟩
    · exact ⟨.kwBreak, by decide, run_break he, .inl rfl, rfl, by decide⟩
    · exact ⟨.kwCont, by decide, run_cont he, .inr rfl, rfl, by decide⟩
  refine writes_line hrun ((tells_keyword hword).weaken (fun _ _ => trivial) fun _ hk => hk.word) ?_
  rintro _ _ ⟨t, rfl, rfl, hv, -⟩
  refine ⟨_, he.leaf hlabels hv, fun _ _ => ?_⟩
  rw [← hname, ← hv]
  exact .loopControl hkind hl

lemma writes_symbolDeclaration (he : e.Has .symbolDeclaration [x] none)
    (hx : x.Has .identifier [] (some w)) (hw : isName w = true) : Writes limit loops e := by
  have htext : ("sym " ++ w).toList = "sym".toList ++ ' ' :: w.toList := by simp
  have hword : ("sym", TokenKind.kwSym) ∈ TokenKind.keywords := by decide
  have hline := tells_headed hword (tells_name (n := limit.toNat) hw) fun _ hl _ => hl
  rw [← htext] at hline
  refine writes_line (run_symbolDeclaration he (expression_value hx (by simp)))
    (hline.weaken (fun _ _ => trivial) fun _ hk => hk.word) ?_
  rintro _ _ ⟨t, _, rfl, ht, u, rfl, hu, huv, -⟩
  refine ⟨_, he.same rfl ?_, fun _ _ => .symbolDeclaration ht hu⟩
  rw [Node.allAgree_cons, Node.allAgree_nil, Bool.and_true]
  exact hx.leaf rfl huv

lemma writes_import (he : e.Has .importStatement [x] none) (hx : SpeaksName limit.toNat x s) :
    Writes limit loops e := by
  have htext : ("import " ++ s).toList = "import".toList ++ ' ' :: s.toList := by simp
  have hword : ("import", TokenKind.kwImport) ∈ TokenKind.keywords := by decide
  have hline := tells_headed hword hx.tells fun _ hl _ => hl
  rw [← htext] at hline
  refine writes_line (run_import he hx.text) (hline.weaken (fun _ _ => trivial) fun _ hk => hk) ?_
  rintro _ _ ⟨t, ts, rfl, ht, hts⟩
  obtain ⟨x', hsame, hname⟩ := hts.name
  refine ⟨.spanning .importStatement t.place (lastStop ts) [x'] [(.moduleName, [0])],
    he.same rfl ?_, fun {a k} _ hk => .importStatement ht (hname ?_)⟩
  · rw [Node.allAgree_cons, Node.allAgree_nil, Bool.and_true]
    exact hsame
  · rw [dotAhead, hk.head]
    rfl

lemma writes_return (he : e.Has .returnStatement [x] none) (hx : Speaks limit.toNat x s) :
    Writes limit loops e := by
  have hline : Tells limit.toNat Anywhere Scan.EndsToken ("ret " ++ s).toList
      fun _ => HeadOf .kwRet x := hx.headed (w := "ret") (by decide) (by simp)
  refine writes_line (run_return he hx.text) (hline.weaken (fun _ _ => trivial) fun _ hk => hk) ?_
  rintro _ _ ⟨t, ts, rfl, ht, x', hsame, hts⟩
  refine ⟨.spanning .returnStatement t.place (lastStop ts) [x'] [(.retExpr, [0])], he.same rfl ?_,
    fun {a k} ha hk => .returnStatement ht (hts ?_ ?_)⟩
  · rw [Node.allAgree_cons, Node.allAgree_nil, Bool.and_true]
    exact hsame
  · rw [show e.demand = Node.toll [x] from he.demand_eq, Node.toll_cons] at ha
    omega
  · rw [hk.head]
    rfl

/-- The tokens are the semicolon of a statement, if it shows one. -/
def Marks (value : Option String) (us : List Token) : Prop :=
  ∀ k, Calm k → Mark us k value ∧ endsPhrase (headKind (us ++ k)) = true

/-- A text and the semicolon of a statement. -/
lemma tells_marked (h : Tells n S Scan.EndsToken v P) (hv : value = none ∨ value = some ";") :
    Tells n S Scan.EndsToken (v ++ (value.getD "").toList) fun b us =>
      ∃ xs ms, us = xs ++ ms ∧ P b xs ∧ Marks value ms := by
  rcases hv with rfl | rfl
  · show Tells n S _ (v ++ []) _
    rw [List.append_nil]
    refine h.mono fun b us hus => ⟨us, [], by simp, hus, fun k hk => ⟨.none ?_, ?_⟩⟩
    · rw [hk.head]
      decide
    · rw [List.nil_append, hk.head]
      rfl
  · have hmark : Tells n Anywhere Scan.EndsOperator ";".toList (Single .semicolon ";") :=
      tells_mark (by decide)
    refine ((h.append hmark (fun _ _ _ _ _ => trivial) fun k _ =>
      Scan.endsToken_cons rfl rfl).weaken (fun _ hl => hl) fun _ hk => hk.operator).mono ?_
    rintro b _ ⟨us, _, rfl, hus, t, rfl, ht, hv, -⟩
    refine ⟨us, [t], rfl, hus, fun k _ => ⟨?_, ?_⟩⟩
    · rw [← hv]
      exact .semicolon ht
    · rw [List.singleton_append, headKind_cons, ht]
      rfl

lemma writes_assignment (he : e.Has .assignment [x, y] value)
    (hv : value = none ∨ value = some ";") (hx : x.Has .identifier [] (some w))
    (hw : isName w = true) (hy : Speaks limit.toNat y s) : Writes limit loops e := by
  have hequals : Tells limit.toNat Anywhere Scan.EndsOperator "=".toList (Single .assign "=") :=
    tells_mark (by decide)
  have hleft := (tells_name (n := limit.toNat) hw).append hequals.blank
    (fun _ _ _ _ _ => trivial) fun k _ => (Scan.endsToken_cons (x := ' ') rfl rfl).word
  have hright := hleft.append hy.tells.blank (fun _ us last hus _ _ => ?_) fun k _ =>
    (Scan.endsToken_cons (x := ' ') rfl rfl).operator
  · have htext : (w ++ " = " ++ s ++ value.getD "").toList
        = (w.toList ++ ' ' :: "=".toList) ++ ' ' :: s.toList ++ (value.getD "").toList := by simp
    have hline := tells_marked hright hv
    rw [← htext] at hline
    refine writes_line (run_assignment he (expression_value hx (by simp)) hy.text)
      (hline.weaken (fun _ hl _ => hl) fun _ hk => hk) ?_
    rintro b _ ⟨_, zs, rfl, ⟨_, us, rfl, ⟨_, _, rfl, ⟨t, rfl, ht, htv, -⟩, u, rfl, hu, -, -⟩, hus⟩,
      hzs⟩
    obtain ⟨y', hsame, hderives⟩ := hus.phrase.whole
    refine ⟨.spanning .assignment t.place (lastStop (us ++ zs)) [.leaf .identifier t, y']
      [(.assignName, [0]), (.assignExpr, [1])] value, he.same rfl ?_, fun {a k} ha hk => ?_⟩
    · simp only [Node.allAgree_cons, Node.allAgree_nil, Bool.and_true, Bool.and_eq_true]
      exact ⟨hx.leaf rfl htv, hsame⟩
    · rw [show e.demand = Node.toll [x, y] from he.demand_eq, Node.toll_cons, Node.toll_cons] at ha
      obtain ⟨hmark, hends⟩ := hzs k hk
      exact .assignment ht hu (hderives (by omega) hends) hmark
  · obtain ⟨xs, ys, rfl, -, hys⟩ := hus
    rw [lastKind_append, hys.lastKind_eq]
    rfl

lemma writes_expressionStatement (he : e.Has .expressionStatement [x] value)
    (hv : value = none ∨ value = some ";") (hx : Speaks limit.toNat x s) :
    Writes limit loops e := by
  have hline := tells_marked hx.tells hv
  rw [← String.toList_append] at hline
  refine writes_line (run_expressionStatement he hx.text)
    (hline.weaken (fun _ hl _ => hl) fun _ hk => hk) ?_
  rintro b _ ⟨us, zs, rfl, hus, hzs⟩
  obtain ⟨x', hsame, hderives⟩ := hus.phrase.whole
  refine ⟨.spanning .expressionStatement x'.place (lastStop (us ++ zs)) [x'] [] value,
    he.same rfl ?_, fun {a k} ha hk => ?_⟩
  · rw [Node.allAgree_cons, Node.allAgree_nil, Bool.and_true]
    exact hsame
  · rw [show e.demand = Node.toll [x] from he.demand_eq, Node.toll_cons] at ha
    obtain ⟨hmark, hends⟩ := hzs k hk
    refine .expressionStatement (hderives (by omega) hends) (hus.begins.unbound _ ?_) hmark
    rintro hassign
    rw [hassign] at hends
    cases hends

/-! ### Statements with blocks -/

/-- A statement of a header and a block. -/
lemma writes_block {header : String} {Q : List Token → Prop}
    (hrun : ∀ s, statement e s = block header (statements body.children) s)
    (hbody : body.Has .block ms none) {inner : Nat} (hms : WritesAll limit inner ms)
    (hheader : Tells limit.toNat Anywhere Scan.EndsToken header.toList fun _ => Q)
    (hQ : ∀ us, Q us → Balanced us)
    (h : ∀ us vs, Q us → BlockOf inner body vs → StatementOf loops e (us ++ vs)) :
    Writes limit loops e := by
  intro s
  obtain ⟨s', d, hblock, hext, hrec⟩ := hms.block hbody hheader hQ s
  refine ⟨s', d, (hrun s).trans hblock, hext, (hrec.mono ?_).weaken (fun _ _ => trivial)
    fun _ hk => hk.endsToken⟩
  rintro _ ⟨us, vs, rfl, hus, hvs⟩
  exact h us vs hus hvs

lemma StatementOf.whileLoop (he : e.Has .whileLoop [x, body] none) (hx : HeadOf .kwWhile x us)
    (hb : BlockOf (loops + 1) body vs) : StatementOf loops e (us ++ vs) := by
  obtain ⟨t, ts, rfl, ht, x', hxsame, hts⟩ := hx
  obtain ⟨o, os, rfl, ho⟩ := hb.first
  obtain ⟨b', hbsame, hblock⟩ := hb
  refine ⟨.spanning .whileLoop t.place (lastStop (o :: os)) [x', b']
    [(.loopExpr, [0]), (.loopBody, [1])], he.same rfl ?_, fun {a k} ha _ => ?_⟩
  · simp only [Node.allAgree_cons, Node.allAgree_nil, Bool.and_true, Bool.and_eq_true]
    exact ⟨hxsame, hbsame⟩
  · rw [show e.demand = max (x.demand + 1) (Node.toll [body] - 1) from he.demand_eq,
      Node.toll_cons] at ha
    exact .whileLoop ht (hts (by omega) (by rw [List.cons_append, headKind_cons, ho]; rfl))
      (hblock (by omega))

lemma writes_whileLoop (he : e.Has .whileLoop [x, body] none) (hx : Speaks limit.toNat x s)
    (hbody : body.Has .block ms none) (hms : WritesAll limit (loops + 1) ms) :
    Writes limit loops e := by
  have hheader : Tells limit.toNat Anywhere Scan.EndsToken ("while " ++ s).toList
      fun _ => HeadOf .kwWhile x := hx.headed (w := "while") (by decide) (by simp)
  exact writes_block (run_whileLoop he hx.text) hbody hms hheader (fun us hus => hus.balanced rfl)
    fun us vs hus hvs => .whileLoop he hus hvs

lemma StatementOf.forLoop (he : e.Has .forLoop [x, y, body] none)
    (hx : x.Has .identifier [] (some u.value)) (ht : t.kind = .kwFor) (hu : u.kind = .identifier)
    (hy : HeadOf .kwIn y us) (hb : BlockOf (loops + 1) body vs) :
    StatementOf loops e (t :: u :: us ++ vs) := by
  obtain ⟨i, ts, rfl, hi, y', hysame, hts⟩ := hy
  obtain ⟨o, os, rfl, ho⟩ := hb.first
  obtain ⟨b', hbsame, hblock⟩ := hb
  refine ⟨.spanning .forLoop t.place (lastStop (o :: os)) [.leaf .identifier u, y', b']
    [(.loopVar, [0]), (.loopExpr, [1]), (.loopBody, [2])], he.same rfl ?_, fun {a k} ha _ => ?_⟩
  · simp only [Node.allAgree_cons, Node.allAgree_nil, Bool.and_true, Bool.and_eq_true]
    exact ⟨hx.leaf rfl rfl, hysame, hbsame⟩
  · rw [show e.demand = max x.demand (max (y.demand + 1) (Node.toll [body] - 1)) from he.demand_eq,
      Node.toll_cons] at ha
    exact .forLoop ht hu hi (hts (by omega) (by rw [List.cons_append, headKind_cons, ho]; rfl))
      (hblock (by omega))

lemma writes_forLoop (he : e.Has .forLoop [x, y, body] none) (hx : x.Has .identifier [] (some w))
    (hw : isName w = true) (hy : Speaks limit.toNat y s) (hbody : body.Has .block ms none)
    (hms : WritesAll limit (loops + 1) ms) : Writes limit loops e := by
  have hword : ("for", TokenKind.kwFor) ∈ TokenKind.keywords := by decide
  have hright : Tells limit.toNat Anywhere Scan.EndsToken ("in " ++ s).toList
      fun _ => HeadOf .kwIn y := hy.headed (w := "in") (by decide) (by simp)
  have hinner := (tells_name (n := limit.toNat) hw).append hright.blank
    (fun _ _ _ _ _ => trivial) fun k _ => (Scan.endsToken_cons (x := ' ') rfl rfl).word
  have hall := tells_headed hword hinner fun _ hl _ => hl
  have htext : ("for " ++ w ++ " in " ++ s).toList
      = "for".toList ++ ' ' :: (w.toList ++ ' ' :: ("in " ++ s).toList) := by simp
  rw [← htext] at hall
  have hheader : Tells limit.toNat Anywhere Scan.EndsToken ("for " ++ w ++ " in " ++ s).toList
      fun _ us => ∃ t u ts, us = t :: u :: ts ∧ t.kind = .kwFor ∧ u.kind = .identifier
        ∧ u.value = w ∧ HeadOf .kwIn y ts := by
    refine hall.mono ?_
    rintro _ _ ⟨t, _, rfl, ht, _, ts, rfl, ⟨u, rfl, hu, huv, -⟩, hts⟩
    exact ⟨t, u, ts, rfl, ht, hu, huv, hts⟩
  refine writes_block (run_forLoop he (expression_value hx (by simp)) hy.text) hbody hms hheader
    ?_ ?_
  · rintro _ ⟨t, u, ts, rfl, ht, hu, -, hts⟩
    exact .one ht rfl (.one hu rfl (hts.balanced rfl))
  · rintro _ vs ⟨t, u, ts, rfl, ht, hu, rfl, hts⟩ hvs
    exact .forLoop he hx ht hu hts hvs

lemma Parens.balanced (h : Parens form xs ys b us) : Balanced us := by
  obtain ⟨o, c, ts, vs, xs', ys', rfl, ho, -, hc, -, -, hargs⟩ := h
  obtain ⟨hts, hvs⟩ := hargs (a := max (Node.toll xs) (Node.toll ys)) (k := [])
    (by cases form <;> simp only [ArgumentForm.room] <;> omega) (by omega)
  have hparens := Balanced.parens ho hc (hts.balanced.append hvs.balanced)
  rwa [List.append_assoc] at hparens

lemma StatementOf.functionDefinition
    (he : e.Has .functionDefinition [x, pos, key, body] none)
    (hx : x.Has .identifier [] (some u.value)) (hpos : pos.Has .positionalArgs xs none)
    (hkey : key.Has .keywordArgs ys none) (ht : t.kind = .kwFn) (hu : u.kind = .identifier)
    (hargs : Parens .parameter xs ys b us) (hb : BlockOf 0 body vs) :
    StatementOf loops e (t :: u :: us ++ vs) := by
  obtain ⟨o, c, ts, ws, xs', ys', rfl, ho, -, hc, hxs', hys', hargs⟩ := hargs
  obtain ⟨b', hbsame, hblock⟩ := hb
  refine ⟨.spanning .functionDefinition t.place (lastStop vs)
    [.leaf .identifier u, argumentsNode .positionalArgs o c xs',
      argumentsNode .keywordArgs o c ys', b']
    [(.fnName, [0]), (.posArgs, [1]), (.keywordArgs, [2]), (.fnBody, [3])], he.same rfl ?_,
    fun {a k} ha _ => ?_⟩
  · simp only [Node.allAgree_cons, Node.allAgree_nil, Bool.and_true, Bool.and_eq_true]
    exact ⟨hx.leaf rfl rfl, hpos.same rfl hxs', hkey.same rfl hys', hbsame⟩
  · rw [show e.demand = Node.toll [x, pos, key, body] - 1 from he.demand_eq] at ha
    simp only [Node.toll_cons, show pos.demand = Node.toll xs from hpos.demand_eq,
      show key.demand = Node.toll ys - 1 from hkey.demand_eq] at ha
    obtain ⟨hts, hws⟩ := hargs (a := a) (k := vs ++ k) (by rw [ArgumentForm.room]; omega) (by omega)
    have hdefinition : Derives a (.statement loops)
        (t :: u :: o :: ([] ++ (ts ++ (ws ++ c :: vs)))) k _ :=
      .functionDefinition ht hu ho .none hts hws hc (hblock (by omega))
    simpa using hdefinition

lemma writes_functionDefinition {ss rs : List String}
    (he : e.Has .functionDefinition [x, pos, key, body] none) (hx : x.Has .identifier [] (some w))
    (hw : isName w = true) (hpos : pos.Has .positionalArgs xs none)
    (hkey : key.Has .keywordArgs ys none)
    (hxs : List.Forall₂ (SpeaksItem limit.toNat .parameter) xs ss)
    (hys : List.Forall₂ (SpeaksItem limit.toNat .keyword) ys rs) (hbody : body.Has .block ms none)
    (hms : WritesAll limit 0 ms) : Writes limit loops e := by
  have hword : ("fn", TokenKind.kwFn) ∈ TokenKind.keywords := by decide
  have hinner := (tells_name (n := limit.toNat) hw).append (tells_parens (by decide) hxs hys)
    (fun _ _ _ _ _ => trivial) fun k _ => by
      rw [String.toList_append, String.toList_append, List.append_assoc]
      exact (Scan.endsToken_cons (x := '(') rfl rfl).word
  have hall := tells_headed hword hinner fun _ hl _ => hl
  have htext : ("fn " ++ w ++ "(" ++ Text.join ", " (ss ++ rs) ++ ")").toList
      = "fn".toList ++ ' ' :: (w.toList ++ ("(" ++ Text.join ", " (ss ++ rs) ++ ")").toList) := by
    simp
  rw [← htext] at hall
  have hheader : Tells limit.toNat Anywhere Scan.EndsToken
      ("fn " ++ w ++ "(" ++ Text.join ", " (ss ++ rs) ++ ")").toList fun _ us =>
        ∃ t u ts, us = t :: u :: ts ∧ t.kind = .kwFn ∧ u.kind = .identifier ∧ u.value = w
          ∧ Parens .parameter xs ys false ts := by
    refine hall.mono ?_
    rintro _ _ ⟨t, _, rfl, ht, _, ts, rfl, ⟨u, rfl, hu, huv, -⟩, hts⟩
    exact ⟨t, u, ts, rfl, ht, hu, huv, hts⟩
  have hss : texts pos.children = .ok ss := by
    rw [hpos.children]
    exact texts_of_forall₂ hxs
  have hrs : texts key.children = .ok rs := by
    rw [hkey.children]
    exact texts_of_forall₂ hys
  refine writes_block (run_functionDefinition he (expression_value hx (by simp)) hss hrs) hbody hms
    hheader ?_ ?_
  · rintro _ ⟨t, u, ts, rfl, ht, hu, -, hts⟩
    exact .one ht rfl (.one hu rfl hts.balanced)
  · rintro _ ws ⟨t, u, ts, rfl, ht, hu, rfl, hts⟩ hws
    exact .functionDefinition he hx hpos hkey ht hu hts hws

lemma StatementOf.ifStatement (he : e.Has .ifStatement (x :: body :: ns) none)
    (hx : HeadOf .kwIf x us) (hb : BlockOf loops body vs) (hns : ClausesOf loops false ns ts) :
    StatementOf loops e (us ++ vs ++ ts) := by
  obtain ⟨t, us, rfl, ht, x', hxsame, hus⟩ := hx
  obtain ⟨o, os, rfl, ho⟩ := hb.first
  obtain ⟨b', hbsame, hblock⟩ := hb
  obtain ⟨ns', hsame, hts⟩ := hns
  refine ⟨.spanning .ifStatement t.place (lastStop (o :: os ++ ts)) (x' :: b' :: ns')
    [(.condition, [0]), (.body, [1])], he.same rfl ?_, fun {a k} ha hk => ?_⟩
  · rw [Node.allAgree_cons, Node.allAgree_cons, Bool.and_eq_true, Bool.and_eq_true]
    exact ⟨hxsame, hbsame, hsame⟩
  · rw [show e.demand = max (x.demand + 1) (Node.toll (body :: ns) - 1) from he.demand_eq,
      Node.toll_cons] at ha
    have hstatement : Derives a (.statement loops) (t :: (us ++ (o :: os ++ ts))) k _ :=
      .ifStatement ht (hus (by omega) (by rw [List.cons_append, headKind_cons, ho]; rfl))
        (hblock (by omega)) (hts (by omega) hk)
    simpa using hstatement

lemma writes_ifStatement (he : e.Has .ifStatement (x :: body :: ns) none)
    (hx : Speaks limit.toNat x s) (hbody : body.Has .block ms none)
    (hms : WritesAll limit loops ms) (hns : WritesClauses limit loops false ns) :
    Writes limit loops e := by
  have hheader : Tells limit.toNat Anywhere Scan.EndsToken ("if " ++ s).toList
      fun _ => HeadOf .kwIf x := hx.headed (w := "if") (by decide) (by simp)
  intro p
  obtain ⟨p', d, hblock, hext, hrec⟩ := hms.block hbody hheader (fun us hus => hus.balanced rfl) p
  obtain ⟨p'', d', hclauses, hexts, hends, hrecs⟩ := hns p' (hext.lines_ne_nil (by simp))
  refine ⟨p'', d ++ d', ?_, hext.trans hexts, ?_⟩
  · rw [run_ifStatement he hx.text, run_then hblock, hclauses]
  · have hboth := hrec.append hrecs (fun _ _ _ => trivial) fun k hk => endsToken_clauses hends hk
    refine (hboth.weaken (fun _ _ => trivial) fun _ hk => hk.endsToken).mono ?_
    rintro _ ⟨_, ws, rfl, ⟨us, vs, rfl, hus, hvs⟩, hws⟩
    exact .ifStatement he hus hvs hws

end

end StpLang
