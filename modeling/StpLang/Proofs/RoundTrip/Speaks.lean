import Mathlib.Data.List.Forall2
import StpLang.Proofs.Layout.Expression
import StpLang.Proofs.RoundTrip.Phrase
import StpLang.Proofs.RoundTrip.Word

/-!
The text of an expression is read as the expression.

* `Begins` says what the first tokens of an expression are like, so that nothing
  before them takes them in.
* `Spoken` says that tokens form an expression, and `Speaks` that a text is read
  as such tokens.
* `speaks_number`, `speaksName`, `Speaks.suffix`, `Speaks.binary` and others
  follow the kinds of expressions that hold no list of others.
-/

namespace StpLang

open Grammar (rightLevel)
open Source

/-! ### Tokens of an expression -/

/-- The first tokens of an expression, where `b` says that white space precedes
them. They begin an element of a matrix, and no name is bound there. -/
structure Begins (b : Bool) (us : List Token) : Prop where
  head : ∃ t ts, us = t :: ts ∧ t.spaced = b ∧ beginsExpression t.kind = true
  starts : b = true → ∀ k, operatorAhead 0 true (us ++ k) = false
  unbound : ∀ k, headKind k ≠ .assign → bindingAhead (us ++ k) = false

/-- The tokens form the expression `e`. -/
structure Spoken (e : Node) (b : Bool) (us : List Token) : Prop where
  begins : Begins b us
  last : ∀ l, (lastKind l us).any (·.endsOperand) = true
  operand : e.kind.isOperand = true → OperandOf e us
  term : e.kind.isTerm = true → TermOf e us
  phrase : PhraseOf e us

/-- The text of the expression `e` is read as `e`. -/
structure Speaks (n : Nat) (e : Node) (s : String) : Prop where
  text : expression e = .ok s
  opens : Opens s.toList
  tells : Tells n (fun last => e.beginsWithMod = true → Fresh last) Scan.EndsToken s.toList
    (Spoken e)

section

variable {n : Nat} {e o x l r : Node} {ns : List Node} {kind : Kind} {value : Option String}
  {b : Bool} {t : Token} {us vs : List Token} {s w op : String}

lemma Begins.append (h : Begins b us) (hv : headKind vs ≠ .assign) (hne : vs ≠ []) :
    Begins b (us ++ vs) := by
  obtain ⟨v, vs, rfl⟩ := List.exists_cons_of_ne_nil hne
  obtain ⟨t, ts, rfl, hs, hk⟩ := h.head
  refine ⟨⟨t, ts ++ v :: vs, rfl, hs, hk⟩, fun hb k => ?_, fun k _ => ?_⟩
  · rw [List.append_assoc]
    exact h.starts hb _
  · rw [List.append_assoc]
    exact h.unbound _ hv

lemma Begins.spaced (h : Begins b us) : headSpaced us = b := by
  obtain ⟨t, ts, rfl, hs, -⟩ := h.head
  exact hs

/-- An operand other than a name begins with a token that carries nothing on. -/
lemma begins_of_kind (hk : beginsOperand t.kind = true) (hne : t.kind ≠ .identifier) :
    Begins t.spaced (t :: us) := by
  refine ⟨⟨t, us, rfl, rfl, by simp [beginsExpression, hk]⟩, fun _ k => ?_, fun k _ => ?_⟩
  · have hbinary : t.kind.binary? = none := by
      generalize t.kind = kind at hk
      cases kind <;> first | rfl | cases hk
    rw [operatorAhead, List.cons_append, headKind_cons, hbinary]
  · rw [bindingAhead, List.cons_append, headKind_cons, beq_false_of_ne hne, Bool.false_and]

/-- A name that is not bound begins an expression. -/
lemma begins_of_name (hk : t.kind = .identifier) (hu : us = [] ∨ headKind us ≠ .assign) :
    Begins t.spaced (t :: us) := by
  refine ⟨⟨t, us, rfl, rfl, by rw [hk]; rfl⟩, fun _ k => ?_, fun k hassign => ?_⟩
  · rw [operatorAhead, List.cons_append, headKind_cons, hk]
    rfl
  · have hnext : headKind (us ++ k) ≠ .assign := by
      rcases hu with rfl | hu
      · exact hassign
      · cases us with
        | nil => exact hassign
        | cons u us => exact hu
    rw [bindingAhead, List.cons_append, List.tail_cons, beq_false_of_ne hnext, Bool.and_false]

/-- The tokens of an operand. -/
lemma Spoken.of_operand (hb : Begins b us) (hl : ∀ l, (lastKind l us).any (·.endsOperand) = true)
    (h : OperandOf e us) : Spoken e b us :=
  ⟨hb, hl, fun _ => h, fun _ => h.term, h.term.phrase⟩

/-! ### Texts -/

/-- The text of a list with something between its elements begins like the first
of them. -/
lemma opens_join {separator : String} {ss : List String} (hs : Opens s.toList) :
    Opens (Text.join separator (s :: ss)).toList := by
  by_cases hss : ss = []
  · subst hss
    exact hs
  · rw [join_cons hss, String.toList_append, String.toList_append, List.append_assoc]
    exact hs.append _

/-! ### Numbers -/

lemma speaks_number (he : e.Has .number [] (some w)) (hw : isNumeral w = true) :
    Speaks n e w := by
  refine ⟨expression_value he (by simp), ?_, ?_⟩
  · obtain ⟨x, v, hv, hx⟩ := (numeral_of_isNumeral hw).digit
    rw [hv]
    exact opens_cons (Scan.contains_eq_false hx (by rfl))
  · refine ((tells_number hw).weaken (fun _ _ => trivial) fun k hk => hk.endsNumber).mono ?_
    rintro b _ ⟨t, rfl, hk, hv, rfl⟩
    refine .of_operand (begins_of_kind (by rw [hk]; rfl) (by rw [hk]; decide))
      (fun _ => by simp [lastKind, hk, TokenKind.endsOperand]) ?_
    exact operandOf (he.leaf rfl hv) fun _ hf hp => .number hk hf.ellipsis (hp he.kind)

lemma speaks_percentage (he : e.Has .percentage [] (some (w ++ "%"))) (hw : isNumeral w = true) :
    Speaks n e (w ++ "%") := by
  refine ⟨expression_value he (by simp), ?_, ?_⟩
  · obtain ⟨x, v, hv, hx⟩ := (numeral_of_isNumeral hw).digit
    rw [String.toList_append, hv]
    exact opens_cons (Scan.contains_eq_false hx (by rfl))
  · rw [String.toList_append]
    have hsign : Tells n Anywhere Scan.EndsOperator "%".toList (Single .percent "%") :=
      tells_mark (by decide)
    refine (((tells_number hw).append hsign (fun _ _ _ _ _ => trivial) fun k _ =>
      Scan.EndsToken.endsNumber (Scan.endsToken_cons rfl rfl)).weaken (fun _ _ => trivial)
        fun k hk => hk.operator).mono ?_
    rintro b _ ⟨_, _, rfl, ⟨t, rfl, hk, hv, rfl⟩, u, rfl, huk, huv, hus⟩
    refine .of_operand (begins_of_kind (by rw [hk]; rfl) (by rw [hk]; decide))
      (fun _ => by simp [lastKind, huk, TokenKind.endsOperand]) ?_
    refine operandOf (x := .spanning .percentage t.place u.stop [] [] (some (t.value ++ u.value)))
      ?_ fun _ _ _ => .percentage hk (by simp [percentAhead, headSpaced, huk, hus])
    rw [hv, huv]
    exact he.same rfl (Node.allAgree_nil _)

/-- A number in a range, and the ellipsis behind it. -/
lemma tells_ranged (hw : isNumeral w = true) :
    Tells n Anywhere (fun k => ∃ x v, k = x :: v ∧ x.isDigit = true) (w.toList ++ "...".toList)
      fun b us => ∃ t d, us = [t, d] ∧ t.kind = .number ∧ t.value = w ∧ t.spaced = b
        ∧ d.kind = .ellipsis := by
  have hdots : Tells n Anywhere Scan.EndsOperator "...".toList (Single .ellipsis "...") :=
    tells_mark (by decide)
  refine (((tells_number hw).append hdots (fun _ _ _ _ _ => trivial) fun k _ => ?_).weaken
    (fun _ _ => trivial) ?_).mono ?_
  · refine ⟨fun x hx => ?_, rfl⟩
    cases hx
    rfl
  · rintro _ ⟨x, v, rfl, hx⟩ y hy
    cases hy
    exact Scan.contains_eq_false hx (by rfl)
  · rintro b _ ⟨_, _, rfl, ⟨t, rfl, hk, hv, hs⟩, d, rfl, hd, -, -⟩
    exact ⟨t, d, rfl, hk, hv, hs, hd⟩

/-- The text of a number begins with a digit. -/
lemma isNumeral_append (hw : isNumeral w = true) (k : List Char) :
    ∃ x v, w.toList ++ k = x :: v ∧ x.isDigit = true := by
  obtain ⟨x, v, hv, hx⟩ := (numeral_of_isNumeral hw).digit
  exact ⟨x, v ++ k, by rw [hv]; rfl, hx⟩

lemma speaks_rangeOfTwo {v w : String} (he : e.Has .range [l, r] none)
    (hl : l.Has .number [] (some v)) (hr : r.Has .number [] (some w)) (hv : isNumeral v = true)
    (hw : isNumeral w = true) : Speaks n e (v ++ "..." ++ w) := by
  have htext : texts [l, r] = .ok [v, w] :=
    texts_cons (expression_value hl (by simp))
      (texts_cons (expression_value hr (by simp)) texts_nil)
  refine ⟨he.expression_range htext, ?_, ?_⟩
  · obtain ⟨x, u, hu, hx⟩ := isNumeral_append hv ("...".toList ++ w.toList)
    rw [String.toList_append, String.toList_append, List.append_assoc, hu]
    exact opens_cons (Scan.contains_eq_false hx (by rfl))
  · rw [String.toList_append, String.toList_append]
    refine (((tells_ranged hv).append (tells_number hw) (fun _ _ _ _ _ => trivial) fun k _ =>
      isNumeral_append hw k).weaken (fun _ _ => trivial) fun k hk => hk.endsNumber).mono ?_
    rintro b _ ⟨_, _, rfl, ⟨x, d, rfl, hx, hxv, rfl, hd⟩, y, rfl, hy, hyv, -⟩
    refine .of_operand (begins_of_kind (by rw [hx]; rfl) (by rw [hx]; decide))
      (fun _ => by simp [lastKind, hy, TokenKind.endsOperand]) ?_
    refine operandOf ?_ fun _ hf _ => .rangeOfTwo hx hd hy hf.ellipsis
    refine he.same rfl ?_
    simp only [Node.allAgree_cons, Node.allAgree_nil, Bool.and_true, Bool.and_eq_true]
    exact ⟨hl.leaf rfl hxv, hr.leaf rfl hyv⟩

lemma speaks_rangeOfThree {u v w : String} (he : e.Has .range [l, x, r] none)
    (hl : l.Has .number [] (some u)) (hx : x.Has .number [] (some v))
    (hr : r.Has .number [] (some w)) (hu : isNumeral u = true) (hv : isNumeral v = true)
    (hw : isNumeral w = true) : Speaks n e (u ++ "..." ++ (v ++ "..." ++ w)) := by
  have htext : texts [l, x, r] = .ok [u, v, w] :=
    texts_cons (expression_value hl (by simp)) (texts_cons (expression_value hx (by simp))
      (texts_cons (expression_value hr (by simp)) texts_nil))
  refine ⟨he.expression_range htext, ?_, ?_⟩
  · obtain ⟨x, y, hy, hx⟩ := isNumeral_append hu ("...".toList ++ (v ++ "..." ++ w).toList)
    rw [String.toList_append, String.toList_append, List.append_assoc, hy]
    exact opens_cons (Scan.contains_eq_false hx (by rfl))
  · rw [String.toList_append, String.toList_append, String.toList_append, String.toList_append]
    have htail := (tells_ranged (n := n) hv).append (tells_number hw) (fun _ _ _ _ _ => trivial)
      fun k _ => isNumeral_append hw k
    refine (((tells_ranged hu).append htail (fun _ _ _ _ _ => trivial) fun k _ => ?_).weaken
      (fun _ _ => trivial) fun k hk => hk.endsNumber).mono ?_
    · rw [List.append_assoc, List.append_assoc]
      exact isNumeral_append hv _
    rintro b _ ⟨_, _, rfl, ⟨x, d, rfl, hx', hxv, rfl, hd⟩, _, _, rfl,
      ⟨y, d', rfl, hy, hyv, -, hd'⟩, z, rfl, hz, hzv, -⟩
    refine .of_operand (begins_of_kind (by rw [hx']; rfl) (by rw [hx']; decide))
      (fun _ => by simp [lastKind, hz, TokenKind.endsOperand]) ?_
    refine operandOf ?_ fun _ hf _ => .rangeOfThree hx' hd hy hd' hz hf.ellipsis
    refine he.same rfl ?_
    simp only [Node.allAgree_cons, Node.allAgree_nil, Bool.and_true, Bool.and_eq_true]
    exact ⟨hl.leaf rfl hxv, hx.leaf rfl hyv, hr.leaf rfl hzv⟩

/-! ### Names -/

/-- The nodes are plain names with these texts. -/
def Named (ns : List Node) (ws : List String) : Prop :=
  List.Forall₂ (fun x w => x.Has .identifier [] (some w) ∧ isName w = true) ns ws

/-- The text of several names does not begin inside an operator. -/
lemma opens_of_isName (hw : isName w = true) : Opens w.toList := by
  obtain ⟨x, v, rfl, hx, -⟩ := word_of_isName hw
  rw [String.toList_ofList]
  exact opens_cons (Scan.contains_eq_false hx (by rfl))

/-- The tokens of names joined by dots. -/
def Members (ns : List Node) (ws : List String) (us : List Token) : Prop :=
  ∃ ids : List Token, Node.allAgree false ns (ids.map (.leaf .identifier)) = true
    ∧ ids.map (·.value) = ws ∧ (us = [] ∨ headKind us = .dot)
    ∧ (∀ l, l = some .identifier → lastKind l us = l)
    ∧ ∀ {a : Nat} {m : Bool} {k : List Token}, dotAhead m k = false →
      Derives a (.members m) us k (ids.map (.leaf .identifier))

lemma tells_names {ws : List String} (hw : isName w = true) (hs : Named ns ws) :
    Tells n (fun last => w = "mod" → Fresh last) Scan.EndsToken
      (Text.join "." (w :: ws)).toList fun b us => ∃ t ts, us = t :: ts ∧ t.kind = .identifier
        ∧ t.value = w ∧ t.spaced = b ∧ Members ns ws ts := by
  induction hs generalizing w with
  | nil =>
    refine ((tells_name hw).weaken (fun _ h => h) fun k hk => hk.word).mono ?_
    rintro b _ ⟨t, rfl, hk, hv, hs⟩
    exact ⟨t, [], rfl, hk, hv, hs, [], Node.allAgree_nil _, rfl, .inl rfl, fun _ _ => rfl,
      .membersEnd⟩
  | @cons x v ns ws hx _ ih =>
    have hdot : Tells n Anywhere Scan.EndsOperator ".".toList (Single .dot ".") :=
      tells_mark (by decide)
    have hopens : Opens (Text.join "." (v :: ws)).toList := opens_join (opens_of_isName hx.2)
    rw [join_cons (by simp), String.toList_append, String.toList_append]
    refine ((((tells_name hw).append hdot (fun _ _ _ _ _ => trivial) fun k _ => ?_).append (ih hx.2)
      (fun _ us last h _ => ?_) fun k _ => (hopens.append k).ends)).mono ?_
    · rintro x ⟨⟩
      rfl
    · obtain ⟨xs, ys, rfl, -, hys⟩ := h
      rw [lastKind_append, hys.lastKind_eq]
      exact fun _ => rfl
    · rintro b _ ⟨_, _, rfl, ⟨_, _, rfl, ⟨t, rfl, hk, hv, hs⟩, d, rfl, hd, -, hds⟩, u, us, rfl, huk,
        huv, -, ids, hids, hvalues, -, hlast, hmembers⟩
      refine ⟨t, d :: u :: us, rfl, hk, hv, hs, u :: ids, ?_, ?_, .inr hd, fun l hl => ?_,
        fun {a m k} hdot => ?_⟩
      · rw [List.map_cons, Node.allAgree_cons, Bool.and_eq_true]
        exact ⟨hx.1.leaf rfl huv, hids⟩
      · rw [List.map_cons, huv, hvalues]
      · rw [hl, ← hlast (some .identifier) rfl]
        simp [lastKind, huk]
      · exact .membersMore (by simp [dotAhead, headSpaced, hd, hds]) huk (hmembers hdot)

/-- The tokens form the name `e`. -/
structure NameSpoken (e : Node) (b : Bool) (us : List Token) : Prop where
  begins : Begins b us
  last : ∀ l, (lastKind l us).any (·.endsOperand) = true
  name : ∃ e', e.sameStructure e' = true ∧ ∀ {a : Nat} {m : Bool} {k : List Token},
    dotAhead m k = false → Derives a (.name m) us k [e']

/-- What begins with the name `mod` depends on the first child only. -/
lemma Node.Has.beginsWithMod_first (h : e.Has kind (x :: ns) value)
    (hk : kind = .memberAccess ∨ kind = .binary ∨ kind = .suffix ∨ kind = .call) :
    e.beginsWithMod = x.beginsWithMod := by
  obtain ⟨hkind, hns, -, -⟩ := h
  obtain ⟨k, v, l, c, i, j, cs, fs⟩ := e
  dsimp only at hkind hns
  subst hkind hns
  rcases hk with rfl | rfl | rfl | rfl <;> rw [beginsWithMod, firstBeginsWithMod]

lemma Node.Has.beginsWithMod_name (h : e.Has .identifier ns (some w)) :
    e.beginsWithMod = true ↔ w = "mod" := by
  obtain ⟨hkind, hns, -, hv⟩ := h
  obtain ⟨k, v, l, c, i, j, cs, fs⟩ := e
  dsimp only at hkind hns hv
  subst hkind hns hv
  rw [beginsWithMod]
  simp

/-- The text of the name `e` is read as `e`. -/
structure SpeaksName (n : Nat) (e : Node) (s : String) : Prop where
  text : expression e = .ok s
  opens : Opens s.toList
  tells : Tells n (fun last => e.beginsWithMod = true → Fresh last) Scan.EndsToken s.toList
    (NameSpoken e)

lemma speaksName {ws : List String}
    (he : e.Has .memberAccess (x :: ns) (some (Text.join "." (w :: ws))))
    (hx : x.Has .identifier [] (some w)) (hw : isName w = true) (hs : Named ns ws) :
    SpeaksName n e (Text.join "." (w :: ws)) := by
  have hmod : e.beginsWithMod = true ↔ w = "mod" := by
    rw [he.beginsWithMod_first (.inl rfl), hx.beginsWithMod_name]
  refine ⟨expression_value he (by simp), opens_join (opens_of_isName hw),
    ((tells_names hw hs).weaken (fun last h hw => h (hmod.mpr hw)) fun _ hk => hk).mono ?_⟩
  rintro b _ ⟨t, ts, rfl, hk, hv, rfl, ids, hids, hvalues, hhead, hlast, hmembers⟩
  refine ⟨begins_of_name hk (hhead.imp_right fun h => by rw [h]; decide), fun l => ?_,
    memberNode t (lastStop (t :: ts)) (ids.map (.leaf .identifier)), ?_,
    fun hdot => .name hk (hmembers hdot)⟩
  · have : lastKind l (t :: ts) = some .identifier := by
      rw [← hlast (some .identifier) rfl, ← hk]
      rfl
    rw [this]
    rfl
  · have htext : (Node.leaf .identifier t :: ids.map (.leaf .identifier)).map (·.value.getD "")
        = w :: ws := by
      rw [List.map_cons, List.map_map, ← hvalues, ← hv]
      rfl
    rw [memberNode, htext]
    refine he.same rfl ?_
    rw [Node.allAgree_cons, Bool.and_eq_true]
    exact ⟨hx.leaf rfl hv, hids⟩

/-- A name by itself is an operand. -/
lemma SpeaksName.speaks (h : SpeaksName n e s) : Speaks n e s := by
  refine ⟨h.text, h.opens, h.tells.mono ?_⟩
  rintro b us ⟨hbegins, hlast, e', hsame, hname⟩
  exact .of_operand hbegins hlast
    (operandOf hsame fun _ hf _ => .plainName (hname hf.dot) hf.call)

/-! ### Parentheses and operators -/

lemma Spoken.bracketed {o c : Token} (he : e.Has .bracketed [x] none)
    (ho : o.kind = .leftParen) (hc : c.kind = .rightParen) (h : Spoken x false us) :
    Spoken e o.spaced (o :: (us ++ [c])) := by
  refine .of_operand (begins_of_kind (by rw [ho]; rfl) (by rw [ho]; decide)) (fun l => ?_) ?_
  · rw [← List.cons_append, lastKind_append]
    simp [lastKind, hc, TokenKind.endsOperand]
  · obtain ⟨x', hsame, hx⟩ := h.phrase.expression
    refine operandOf (x := .spanning .bracketed o.place c.stop [x']) (he.same rfl ?_)
      fun {a m k} ha _ _ => ?_
    · rw [Node.allAgree_cons, Node.allAgree_nil, Bool.and_true]
      exact hsame
    · rw [show e.demand = Node.toll [x] from he.demand_eq, Node.toll_cons] at ha
      obtain ⟨b, rfl⟩ : ∃ b, a = b + 1 := ⟨a - 1, by omega⟩
      exact .bracketed ho (hx (by omega) x.one_le_level
        (ends_of_headKind (by rw [headKind_cons, hc]; rfl))) hc

/-- A text between an opening and a closing mark. -/
lemma tells_enclosed {opener closer : String} {kind kind' : TokenKind}
    {S : Option TokenKind → Prop} {v : List Char} {P : Bool → List Token → Prop}
    (hopen : (opener, kind) ∈ TokenKind.operators) (hends : kind.endsOperand = false)
    (hclose : (closer, kind') ∈ TokenKind.operators)
    (hstops : ∀ k, Scan.EndsToken (closer.toList ++ k)) (hv : Opens v)
    (h : Tells n S Scan.EndsToken v P) (hS : ∀ last, Fresh last → S last) :
    Tells n Anywhere Scan.EndsToken (opener.toList ++ v ++ closer.toList) fun b us =>
      ∃ o ts c, us = o :: (ts ++ [c]) ∧ o.kind = kind ∧ o.spaced = b ∧ c.kind = kind'
        ∧ P false ts := by
  have hfirst := (tells_mark hopen).append h
    (fun _ us last hus _ => hS _ (by rw [hus.lastKind_eq]; exact hends)) fun k _ =>
      (hv.append k).ends
  have hboth := hfirst.append (tells_mark hclose) (fun _ _ _ _ _ => trivial) fun k _ => hstops k
  refine (hboth.weaken (fun _ _ => trivial) fun k hk => hk.operator).mono ?_
  rintro b _ ⟨_, _, rfl, ⟨_, us, rfl, ⟨o, rfl, ho, -, hb⟩, hus⟩, c, rfl, hc, -, -⟩
  exact ⟨o, us, c, by simp, ho, hb, hc, hus⟩

lemma Speaks.bracketed (he : e.Has .bracketed [x] none) (h : Speaks n x s) :
    Speaks n e ("(" ++ s ++ ")") := by
  have hopen : ("(", TokenKind.leftParen) ∈ TokenKind.operators := by decide
  have hclose : (")", TokenKind.rightParen) ∈ TokenKind.operators := by decide
  refine ⟨?_, ?_, ?_⟩
  · exact he.expression_bracketed h.text
  · rw [String.toList_append, String.toList_append, List.append_assoc]
    exact opens_cons rfl
  · rw [String.toList_append, String.toList_append]
    have htold := tells_enclosed hopen rfl hclose (fun _ => Scan.endsToken_cons rfl rfl) h.opens
      h.tells fun _ hlast _ => hlast
    refine (htold.weaken (fun _ _ => trivial) fun _ hk => hk).mono ?_
    rintro b _ ⟨o, us, c, rfl, ho, rfl, hc, hus⟩
    exact hus.bracketed he ho hc

/-- Prefix and suffix operators are marks, which no token before them takes in. -/
lemma mark_of_spelling {kind : TokenKind} (hop : TokenKind.ofSpelling? op = some kind)
    (hk : kind.isUnary = true ∨ kind.isSuffix = true) :
    (op, kind) ∈ TokenKind.operators ∧ Stops op.toList := by
  have hkey : ∀ o ∈ TokenKind.keywords, o.2.isUnary = false ∧ o.2.isSuffix = false := by decide
  have hmark : ∀ o ∈ TokenKind.operators, o.2.isUnary = true ∨ o.2.isSuffix = true →
      o.1.toList.head?.any (fun x => !Scan.continuesWord x && !"=*/^.".toList.contains x)
        = true := by decide
  rcases TokenKind.ofSpelling?_inv hop with h | h | ⟨-, rfl⟩
  · refine ⟨h, ?_⟩
    have hx := hmark _ h hk
    dsimp only at hx
    cases hs : op.toList with
    | nil =>
      rw [hs] at hx
      cases hx
    | cons x w =>
      rw [hs, List.head?_cons, Option.any_some, Bool.and_eq_true, Bool.not_eq_true',
        Bool.not_eq_true'] at hx
      exact stops_cons hx.1 hx.2
  · obtain ⟨hunary, hsuffix⟩ := hkey _ h
    rw [hunary, hsuffix] at hk
    simp at hk
  · simp [TokenKind.isUnary, TokenKind.isSuffix] at hk

lemma Spoken.suffix (he : e.Has .suffix [x, o] none) (ho : o.Has .operator [] (some t.value))
    (h : Spoken x b us) (hx : x.kind.isOperand = true) (hk : t.kind.isSuffix = true)
    (ht : t.spaced = false) (hp : x.kind = .number → t.kind ≠ .percent) :
    Spoken e b (us ++ [t]) := by
  have hkinds : t.kind ≠ .assign ∧ t.kind.endsOperand = true := by
    generalize t.kind = kind at hk
    cases kind <;> first | decide | cases hk
  refine .of_operand (h.begins.append hkinds.1 (by simp)) (fun l => ?_) ?_
  · rw [lastKind_append]
    simp [lastKind, hkinds.2]
  · exact (h.operand hx).suffix he ho (by simp [suffixAhead, headSpaced, hk, ht]) rfl hp

lemma Speaks.suffix {kind : TokenKind} (he : e.Has .suffix [x, o] none)
    (ho : o.Has .operator [] (some op)) (h : Speaks n x s) (hx : x.kind.isOperand = true)
    (hop : TokenKind.ofSpelling? op = some kind) (hk : kind.isSuffix = true)
    (hp : x.kind = .number → kind ≠ .percent) : Speaks n e (s ++ op) := by
  obtain ⟨hmark, hstops⟩ := mark_of_spelling hop (.inr hk)
  have hmod : e.beginsWithMod = x.beginsWithMod := he.beginsWithMod_first (by simp)
  refine ⟨?_, ?_, ?_⟩
  · exact he.expression_suffix h.text ho.value
  · rw [String.toList_append]
    exact h.opens.append _
  · rw [String.toList_append]
    have hboth := h.tells.append (tells_mark hmark) (fun _ _ _ _ _ => trivial) fun k _ =>
      (hstops.append k).ends
    refine (hboth.weaken (fun last hlast hx => hlast (hmod.trans hx)) fun k hk =>
      hk.operator).mono ?_
    rintro b _ ⟨us, _, rfl, hus, t, rfl, rfl, rfl, ht⟩
    exact hus.suffix he ho hx hk ht hp

lemma Spoken.prefixed (he : e.Has .unary [o, x] none) (ho : o.Has .operator [] (some t.value))
    (h : Spoken x false us) (hx : x.kind.isTerm = true) (hk : t.kind.isUnary = true) :
    Spoken e t.spaced (t :: us) := by
  obtain ⟨u, vs, rfl, husp, huk⟩ := h.begins.head
  have hterm : TermOf e (t :: u :: vs) := (h.term hx).prefixed he ho hk rfl
  have hnoperand : e.kind.isOperand ≠ true := by
    rw [he.kind]
    decide
  refine ⟨⟨⟨t, _, rfl, rfl, by simp [beginsExpression, hk]⟩, fun hb k => ?_, fun k _ => ?_⟩,
    fun _ => h.last (some t.kind), fun h => absurd h hnoperand, fun _ => hterm, hterm.phrase⟩
  · -- a sign directly before its operand begins an element
    have hsign : signAhead (t :: (u :: vs ++ k)) = (t.kind == .plus || t.kind == .minus) := by
      have hends : (u.kind != .eof) = true ∧ (u.kind != .rightBracket) = true := by
        constructor <;> rw [bne_iff_ne] <;> rintro hu <;> rw [hu] at huk <;> cases huk
      simp [signAhead, headSpaced, hb, husp, hends]
    rw [List.cons_append, operatorAhead, hsign, headKind_cons]
    generalize t.kind = kind at hk
    cases kind <;> first | rfl | cases hk
  · have hname : t.kind ≠ .identifier := by
      intro hname
      rw [hname] at hk
      cases hk
    rw [bindingAhead, List.cons_append, headKind_cons, beq_false_of_ne hname, Bool.false_and]

lemma Speaks.prefixed {kind : TokenKind} (he : e.Has .unary [o, x] none)
    (ho : o.Has .operator [] (some op)) (h : Speaks n x s) (hx : x.kind.isTerm = true)
    (hop : TokenKind.ofSpelling? op = some kind) (hk : kind.isUnary = true) :
    Speaks n e (op ++ s) := by
  obtain ⟨hmark, hstops⟩ := mark_of_spelling hop (.inl hk)
  have hends : kind.endsOperand = false := by
    cases kind <;> first | decide | cases hk
  refine ⟨?_, ?_, ?_⟩
  · exact he.expression_unary ho.value h.text
  · rw [String.toList_append]
    exact ⟨by simp [hstops.ne_nil], (hstops.append _).ends.operator⟩
  · rw [String.toList_append]
    have hboth := (tells_mark hmark).append h.tells
      (fun _ us last hus _ _ => by rw [hus.lastKind_eq]; exact hends) fun k _ =>
        (h.opens.append k).ends
    refine (hboth.weaken (fun _ _ => trivial) fun _ hk => hk).mono ?_
    rintro b _ ⟨_, us, rfl, ⟨t, rfl, rfl, rfl, rfl⟩, hus⟩
    exact hus.prefixed he ho hx hk

lemma Spoken.binary {level : Nat} {assoc : Assoc} (he : e.Has .binary [l, o, r] none)
    (ho : o.Has .operator [] (some t.value)) (hl : Spoken l b us) (hr : Spoken r true vs)
    (hop : TokenKind.ofSpelling? t.value = some t.kind)
    (hb : t.kind.binary? = some (level, assoc)) (hleft : leftLevel level assoc ≤ l.level)
    (hright : rightLevel level assoc ≤ r.level) : Spoken e b (us ++ t :: vs) := by
  have hphrase := hl.phrase.binary he ho hr.phrase hr.begins.spaced hop rfl hb hleft hright
  have hassign : t.kind ≠ .assign := by
    intro hassign
    rw [hassign] at hb
    cases hb
  have hkind : e.kind.isOperand = false ∧ e.kind.isTerm = false := by
    rw [he.kind]
    decide
  refine ⟨hl.begins.append hassign (by simp), fun last => ?_, ?_, ?_, hphrase⟩
  · rw [lastKind_append]
    exact hr.last _
  · rw [hkind.1]
    rintro ⟨⟩
  · rw [hkind.2]
    rintro ⟨⟩

lemma Speaks.binary {kind : TokenKind} {level : Nat} {assoc : Assoc} {s' : String}
    (he : e.Has .binary [l, o, r] none) (ho : o.Has .operator [] (some op)) (hl : Speaks n l s)
    (hr : Speaks n r s') (hop : TokenKind.ofSpelling? op = some kind)
    (hb : kind.binary? = some (level, assoc)) (hleft : leftLevel level assoc ≤ l.level)
    (hright : rightLevel level assoc ≤ r.level) : Speaks n e (s ++ " " ++ op ++ " " ++ s') := by
  have hmod : e.beginsWithMod = l.beginsWithMod := he.beginsWithMod_first (by simp)
  have hends : kind.endsOperand = false := by
    cases kind <;> first | decide | cases hb
  have htext : (s ++ " " ++ op ++ " " ++ s').toList
      = s.toList ++ ' ' :: op.toList ++ ' ' :: s'.toList := by simp
  refine ⟨?_, ?_, ?_⟩
  · exact he.expression_binary hl.text ho.value hr.text
  · rw [htext, List.append_assoc]
    exact hl.opens.append _
  · rw [htext]
    have hfirst := hl.tells.append (tells_binary hop hb) (fun _ us last hus _ => hus.last last)
      fun k _ => Scan.endsToken_cons rfl rfl
    have hboth := hfirst.append hr.tells.blank (fun _ us last hus _ _ => by
      obtain ⟨xs, ys, rfl, -, hys⟩ := hus
      rw [lastKind_append, hys.lastKind_eq]
      exact hends) fun k _ => rfl
    refine (hboth.weaken (fun last hlast hl => hlast (hmod.trans hl)) fun _ hk => hk).mono ?_
    rintro b _ ⟨_, vs, rfl, ⟨us, _, rfl, hus, t, rfl, rfl, rfl, -⟩, hvs⟩
    rw [List.append_assoc, List.singleton_append]
    exact hus.binary he ho hvs hop hb hleft hright

end

end StpLang
