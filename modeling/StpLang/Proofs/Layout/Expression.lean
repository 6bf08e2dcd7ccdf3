import StpLang.Proofs.Accepted
import StpLang.Proofs.Layout.Pieces
import StpLang.Proofs.Render.Source

/-!
The text of expressions.

The text of an expression holds the tokens of the expression, laid out anew.

* `Emits` says that a text holds tokens and does not run into what stands before
  and behind it.
* `Derives.relays`: the text of a phrase of the grammar holds its tokens.
-/

namespace StpLang

open Grammar (binaryNode segmentKind)
open Source

/-! ### The texts of nodes -/

section

variable {n m : Node} {op opener closer : Token} {s l r : String} {ss rs : List String}
  {ns xs ys : List Node}

lemma expression_identifier (t : Token) : expression (.leaf .identifier t) = .ok t.value :=
  expression_value (has_leaf rfl) (.inl rfl)

lemma expression_number (t : Token) : expression (.leaf .number t) = .ok t.value :=
  expression_value (has_leaf rfl) (.inr (.inr (.inl rfl)))

lemma expression_binary (hl : expression n = .ok l) (hr : expression m = .ok r) :
    expression (binaryNode n op m) = .ok (l ++ " " ++ op.value ++ " " ++ r) :=
  (has_spanning rfl).expression_binary hl rfl hr

lemma expression_prefix (h : expression n = .ok s) :
    expression (prefixNode op n) = .ok (op.value ++ s) :=
  (has_spanning rfl).expression_unary rfl h

lemma expression_suffix (h : expression n = .ok s) :
    expression (suffixNode n op) = .ok (s ++ op.value) :=
  (has_spanning rfl).expression_suffix h rfl

lemma expression_bracketed (h : expression n = .ok s) :
    expression (.spanning .bracketed opener.place closer.stop [n]) = .ok ("(" ++ s ++ ")") :=
  (has_spanning rfl).expression_bracketed h

lemma expression_matrix (h : rowTexts ns = .ok ss) :
    expression (.spanning .matrix opener.place closer.stop ns)
      = .ok ("[" ++ Text.join "; " ss ++ "]") :=
  (has_spanning rfl).expression_matrix h

lemma expression_call (h : expression n = .ok s) (hx : texts xs = .ok ss)
    (hy : texts ys = .ok rs) :
    expression (callNode n opener closer xs ys)
      = .ok (s ++ "(" ++ Text.join ", " (ss ++ rs) ++ ")") :=
  (has_spanning rfl).expression_call h hx hy

lemma expression_keyword {t : Token} {stop : Nat} (h : expression n = .ok s) :
    expression (keywordNode t stop n) = .ok (t.value ++ "=" ++ s) :=
  (has_spanning rfl).expression_keyword (expression_identifier t) h

lemma expression_range {p : Place} {stop : Nat} {fields : FieldTable}
    (hf : Kind.range.labels ns.length = fields) (h : texts ns = .ok ss) :
    expression (.spanning .range p stop ns fields) = .ok (Text.join "..." ss) :=
  (has_spanning hf).expression_range h

lemma expression_member {t : Token} {stop : Nat} :
    expression (memberNode t stop ns)
      = .ok (Text.join "." (t.value :: ns.map (·.value.getD ""))) :=
  expression_value (has_spanning rfl) (.inr (.inl rfl))

lemma expression_percentage {p : Place} {stop : Nat} {v : String} :
    expression (.spanning .percentage p stop [] [] (some v)) = .ok v :=
  expression_value (has_spanning rfl) (.inr (.inr (.inr rfl)))

lemma segmentTexts_plain {seg : Segment Token} (hf : segmentKind seg.form ≠ .snippet) :
    segmentTexts (plainSegment seg :: ns) = .ok seg.text :: segmentTexts ns := by
  unfold plainSegment
  split
  · exact segmentTexts_cons rfl (show Kind.unicodeEscape ≠ .snippet by decide)
  · exact segmentTexts_cons rfl hf

lemma segmentTexts_snippet {seg : Segment Token} (h : expression n = .ok s) :
    segmentTexts (snippetNode seg n :: ns)
      = .ok ("\\\x7b" ++ s ++ "\\\x7d") :: segmentTexts ns :=
  segmentTexts_snippet_cons (has_spanning rfl) h

lemma expression_string {t : Token} (h : segmentTexts ns = ss.map .ok) :
    expression (stringNode t ns) = .ok ("\"" ++ String.join ss ++ "\"") :=
  (has_spanning rfl).expression_string h

end

/-! ### Texts that hold tokens -/

/-- A text that no operator before it takes in. -/
structure Opens (w : List Char) : Prop where
  ne_nil : w ≠ []
  ends : Scan.EndsOperator w

/-- A text that no token before it takes in. -/
structure Stops (w : List Char) : Prop where
  ne_nil : w ≠ []
  ends : Scan.EndsToken w

/-- The text `w` holds the tokens `us`, laid out anew within the group that `i`
opens. -/
def Puts (n : Nat) (i : Option TokenKind) (us : List Token) (w : List Char) : Prop :=
  ∃ xs, Relaid i us xs ∧ ∀ k, Scan.EndsToken k → Written n xs w k

/-- The text `w` holds the tokens `us`, and no operator before it takes it in. -/
structure Emits (n : Nat) (i : Option TokenKind) (us : List Token) (w : List Char) : Prop where
  opens : Opens w
  puts : Puts n i us w

section

variable {n : Nat} {i : Option TokenKind} {t o c : Token} {us vs : List Token}
  {x : Char} {v w k : List Char}

lemma opens_cons (hx : "=*/^.".toList.contains x = false) : Opens (x :: w) :=
  ⟨by simp, fun _ h => Option.some.inj h ▸ hx⟩

lemma stops_cons (hw : Scan.continuesWord x = false)
    (ho : "=*/^.".toList.contains x = false) : Stops (x :: w) :=
  ⟨by simp, Scan.endsToken_cons hw ho⟩

lemma Opens.append (h : Opens w) (k : List Char) : Opens (w ++ k) := by
  obtain ⟨hne, hends⟩ := h
  cases w with
  | nil => exact absurd rfl hne
  | cons x w => exact ⟨by simp, hends⟩

lemma Stops.append (h : Stops w) (k : List Char) : Stops (w ++ k) := by
  obtain ⟨hne, hw, ho⟩ := h
  cases w with
  | nil => exact absurd rfl hne
  | cons x w => exact ⟨by simp, hw, ho⟩

/-- A token with which an expression begins is not taken in by an operator. -/
lemma Spells.opens {P : List Token → Prop} {kind : TokenKind} {value : String}
    {segs : List (Segment Token)} (h : Spells P kind value segs)
    (hk : beginsExpression kind = true) : Opens value.toList := by
  have hop : ∀ o ∈ TokenKind.operators, beginsExpression o.2 = true →
      (o.1.toList.head?.any fun x => !"=*/^.".toList.contains x) = true := by decide
  cases h with
  | lineEnd | comment => cases hk
  | word hx =>
    rw [String.toList_ofList]
    exact opens_cons (Scan.contains_eq_false hx (by rfl))
  | @number w hw =>
    obtain ⟨x, v, rfl, hx⟩ := hw.digit
    rw [String.toList_ofList]
    exact opens_cons (Scan.contains_eq_false hx (by rfl))
  | string hv =>
    rw [hv]
    exact opens_cons (by decide)
  | operator h =>
    have hx := hop _ h hk
    cases hv : value.toList with
    | nil =>
      rw [hv] at hx
      cases hx
    | cons x w =>
      rw [hv] at hx
      exact opens_cons (by simpa using hx)

namespace Puts

lemma nil : Puts n i [] [] := ⟨[], .nil, fun _ _ => .nil⟩

lemma append (h : Puts n i us v) (h' : Puts n i vs w)
    (hw : ∀ k, Scan.EndsToken k → Scan.EndsToken (w ++ k)) : Puts n i (us ++ vs) (v ++ w) := by
  obtain ⟨xs, hxs, hv⟩ := h
  obtain ⟨ys, hys, hw'⟩ := h'
  exact ⟨xs ++ ys, hxs.append hys, fun k hk => (hv (w ++ k) (hw k hk)).append (hw' k hk)⟩

/-- Tokens before a text that stops them. -/
lemma stop (h : Puts n i us v) (h' : Puts n i vs w) (hw : Stops w) :
    Puts n i (us ++ vs) (v ++ w) := h.append h' fun k _ => (hw.append k).ends

/-- A blank before the first token. -/
lemma blank (h : Puts n i us w) (hw : w ≠ []) : Puts n i us (' ' :: w) := by
  obtain ⟨xs, hxs, h⟩ := h
  refine ⟨xs, hxs, fun k hk => ?_⟩
  cases xs with
  | nil => exact absurd (h k hk).eq_nil hw
  | cons x xs => exact .blank (h k hk)

/-- One token. -/
lemma token (h : t.Spelled n) (hi : t.kind.isInner = true) (hs : t.kind ≠ .string)
    (hl : t.kind.endsLine = false) : Puts n i [t] t.value.toList :=
  ⟨[t], .keep hi .nil, fun _ hk => .one (readsAs_token h hs hl hk)⟩

/-- A mark before a text that it does not take in. -/
lemma mark (h : t.Spelled n) {kind : TokenKind} (hk : t.kind = kind) (hm : kind.isMark = true)
    (hi : kind.isInner = true) (h' : Puts n i us w) (hw : Opens w) :
    Puts n i (t :: us) (t.value.toList ++ w) := by
  obtain ⟨xs, hxs, hw'⟩ := h'
  refine ⟨t :: xs, .one hk hi hxs, fun k hend => .cons ?_ (hw' k hend)⟩
  exact readsAs_mark h hk hm (hw.append k).ends

/-- A name or a number before a mark, and a text behind it. -/
lemma joined (ht : t.Spelled n) (hk : t.kind = .identifier ∨ t.kind = .number)
    (h : Puts n i us (x :: w)) (hx : Scan.continuesWord x = false)
    (hf : t.kind = .number → ∀ k, Scan.fractionLength (x :: w ++ k) = 0) :
    Puts n i (t :: us) (t.value.toList ++ x :: w) := by
  have hinner : t.kind.isInner = true ∧ t.kind ≠ .string ∧ t.kind.endsLine = false
      ∧ t.kind.isMark = false := by
    rcases hk with hk | hk <;> rw [hk] <;> decide
  obtain ⟨hinner, hs, hl, hm⟩ := hinner
  obtain ⟨xs, hxs, hw⟩ := h
  refine ⟨t :: xs, .keep hinner hxs, fun k hend => .cons ?_ (hw k hend)⟩
  refine readsAs ht hs hl (fun _ y hy => ?_) (by rw [hm]; rintro ⟨⟩) (fun hk => hf hk k)
  cases hy
  exact hx

/-- The delimiters of a group are read before and behind what stands in it. -/
lemma delimited {xs : List Token} (ho : o.Spelled n) (hc : c.Spelled n)
    (hk : (o.kind = .leftParen ∧ c.kind = .rightParen)
      ∨ (o.kind = .leftBracket ∧ c.kind = .rightBracket))
    (h : ∀ k, Scan.EndsToken k → Written n xs w k) (hw : w = [] ∨ Opens w) :
    Opens (o.value.toList ++ (w ++ c.value.toList)) ∧ ∀ k, Scan.EndsToken k →
      Written n (o :: (xs ++ [c])) (o.value.toList ++ (w ++ c.value.toList)) k := by
  have hmarks : o.kind.isMark = true ∧ c.kind.isMark = true ∧ Opens o.value.toList
      ∧ Stops c.value.toList := by
    rcases hk with ⟨hok, hck⟩ | ⟨hok, hck⟩
    · rw [ho.spelling (by rw [hok]; rfl), hc.spelling (by rw [hck]; rfl), hok, hck]
      exact ⟨rfl, rfl, opens_cons rfl, stops_cons rfl rfl⟩
    · rw [ho.spelling (by rw [hok]; rfl), hc.spelling (by rw [hck]; rfl), hok, hck]
      exact ⟨rfl, rfl, opens_cons rfl, stops_cons rfl rfl⟩
  obtain ⟨hom, hcm, hov, hcv⟩ := hmarks
  refine ⟨hov.append _, fun k hend => .cons (readsAs_mark ho rfl hom ?_) ?_⟩
  · rcases hw with rfl | hw
    · exact (hcv.append k).ends.operator
    · exact ((hw.append _).append k).ends
  · exact (h _ (hcv.append k).ends).append (.one (readsAs_mark hc rfl hcm hend.operator))

/-- A group of tokens. -/
lemma group (ho : o.Spelled n) (hc : c.Spelled n)
    (hk : (o.kind = .leftParen ∧ c.kind = .rightParen)
      ∨ (o.kind = .leftBracket ∧ c.kind = .rightBracket))
    (h : Puts n (some o.kind) us w) (hw : w = [] ∨ Opens w) :
    Emits n i (o :: (us ++ [c])) (o.value.toList ++ (w ++ c.value.toList)) := by
  have hpair : o.kind.opensGroup = true ∧ o.kind.closer? = some c.kind := by
    rcases hk with ⟨hok, hck⟩ | ⟨hok, hck⟩ <;> rw [hok, hck] <;> exact ⟨rfl, rfl⟩
  obtain ⟨xs, hxs, hwritten⟩ := h
  obtain ⟨hopens, hgroup⟩ := delimited ho hc hk hwritten hw
  exact ⟨hopens, _, .group hpair.1 hpair.2 hxs .nil, hgroup⟩

/-- The comma that opens a list of parameters goes. -/
lemma leadingComma {x : Token} (ho : o.Spelled n) (hc : c.Spelled n) (hok : o.kind = .leftParen)
    (hck : c.kind = .rightParen) (ht : t.kind = .comma) (hx : x.kind = .identifier)
    (h : Puts n (some .leftParen) (x :: us) w) (hw : w = [] ∨ Opens w) :
    Puts n i (o :: t :: x :: (us ++ [c])) (o.value.toList ++ (w ++ c.value.toList)) := by
  obtain ⟨xs, hxs, hwritten⟩ := h
  have hgroup := (delimited ho hc (.inl ⟨hok, hck⟩) hwritten hw).2
  cases hxs with
  | keep _ hus => exact ⟨_, .leadingComma hok ht hx hck hus .nil, hgroup⟩
  | group hopen =>
    rw [hx] at hopen
    cases hopen
  | leadingComma hopen =>
    rw [hx] at hopen
    cases hopen

end Puts

namespace Emits

/-- One token with which an expression begins. -/
lemma token (h : t.Spelled n) (hk : beginsExpression t.kind = true) (hi : t.kind.isInner = true)
    (hs : t.kind ≠ .string) (hl : t.kind.endsLine = false) : Emits n i [t] t.value.toList :=
  ⟨h.opens hk, .token h hi hs hl⟩

/-- Tokens before a text that stops them. -/
lemma stop (h : Emits n i us v) (h' : Puts n i vs w) (hw : Stops w) :
    Emits n i (us ++ vs) (v ++ w) :=
  ⟨h.opens.append w, h.puts.stop h' hw⟩

/-- A mark and a blank between two texts. -/
lemma separated {kind : TokenKind} (h : Emits n i us v) (hc : c.Spelled n) (hk : c.kind = kind)
    (hi : kind.isInner = true) (hs : kind ≠ .string) (hl : kind.endsLine = false)
    (hv : Stops c.value.toList) (h' : Emits n i vs w) :
    Emits n i (us ++ c :: vs) (v ++ (c.value.toList ++ ' ' :: w)) := by
  subst hk
  have hmore : Puts n i (c :: vs) (c.value.toList ++ ' ' :: w) :=
    (Puts.token hc hi hs hl).stop (h'.puts.blank h'.opens.ne_nil) (stops_cons rfl rfl)
  exact h.stop hmore (hv.append _)

end Emits

/-- The text of a node holds tokens, whatever group they stand in. -/
def Rewritten (n : Nat) (us : List Token) (node : Node) : Prop :=
  ∃ s, expression node = .ok s ∧ ∀ i, Emits n i us s.toList

/-- The texts `ss`, put together with a separator, hold the tokens `us`. -/
def Lists (n : Nat) (i : Option TokenKind) (separator : String) (us : List Token)
    (ss : List String) : Prop :=
  (us = [] ∧ ss = []) ∨ (us ≠ [] ∧ ss ≠ [] ∧ Emits n i us (Text.join separator ss).toList)

lemma join_cons {separator s : String} {ss : List String} (h : ss ≠ []) :
    Text.join separator (s :: ss) = s ++ separator ++ Text.join separator ss := by
  cases ss with
  | nil => exact absurd rfl h
  | cons =>
    rw [Text.join]
    exact h

lemma Lists.puts {separator : String} {ss : List String} (h : Lists n i separator us ss) :
    Puts n i us (Text.join separator ss).toList
      ∧ ((Text.join separator ss).toList = [] ∨ Opens (Text.join separator ss).toList) := by
  rcases h with ⟨rfl, rfl⟩ | ⟨-, -, h⟩
  · exact ⟨.nil, .inl rfl⟩
  · exact ⟨h.puts, .inr h.opens⟩

section

variable {l r node : Node} {op opener closer : Token} {ss rs : List String} {s : String}

/-! ### Operators -/

lemma TokenKind.sort_of_binary? {kind : TokenKind} {o : Nat × Assoc} (h : kind.binary? = some o) :
    kind ≠ .string ∧ kind.endsLine = false := by
  cases kind <;> first | exact ⟨by decide, rfl⟩ | cases h

lemma Rewritten.binary {o : Nat × Assoc} (hl : Rewritten n us l) (hr : Rewritten n vs r)
    (hop : op.Spelled n) (hk : op.kind.binary? = some o) :
    Rewritten n (us ++ op :: vs) (binaryNode l op r) := by
  obtain ⟨s, hs, hl⟩ := hl
  obtain ⟨s', hs', hr⟩ := hr
  obtain ⟨hstring, hline⟩ := TokenKind.sort_of_binary? hk
  refine ⟨_, expression_binary hs hs', fun i => ?_⟩
  have hright : Puts n i (op :: vs) (op.value.toList ++ ' ' :: s'.toList) :=
    (Puts.token hop (TokenKind.isInner_of_binary? hk) hstring hline).stop
      ((hr i).puts.blank (hr i).opens.ne_nil) (stops_cons rfl rfl)
  have htext : (s ++ " " ++ op.value ++ " " ++ s').toList
      = s.toList ++ ' ' :: (op.value.toList ++ ' ' :: s'.toList) := by simp
  rw [htext]
  exact (hl i).stop (hright.blank (by simp)) (stops_cons rfl rfl)

lemma Rewritten.prefixed (h : Rewritten n us node) (hop : op.Spelled n)
    (hk : op.kind.isUnary = true) : Rewritten n (op :: us) (prefixNode op node) := by
  obtain ⟨s, hs, h⟩ := h
  have hmark : op.kind.isMark = true := by
    cases hkind : op.kind <;> rw [hkind] at hk <;> first | rfl | cases hk
  refine ⟨_, expression_prefix hs, fun i => ?_⟩
  rw [String.toList_append]
  refine ⟨(hop.opens (by rw [beginsExpression, hk]; rfl)).append _, ?_⟩
  exact .mark hop rfl hmark (TokenKind.isInner_of_isUnary hk) (h i).puts (h i).opens

lemma Rewritten.suffixed (h : Rewritten n us node) (hop : op.Spelled n)
    (hk : op.kind.isSuffix = true) : Rewritten n (us ++ [op]) (suffixNode node op) := by
  obtain ⟨s, hs, h⟩ := h
  have hsort : op.kind ≠ .string ∧ op.kind.endsLine = false ∧ Stops op.value.toList := by
    cases hkind : op.kind with
    | transpose | bang | percent =>
      rw [hop.spelling (by rw [hkind]; rfl)]
      exact ⟨by decide, rfl, stops_cons rfl rfl⟩
    | _ =>
      rw [hkind] at hk
      cases hk
  obtain ⟨hstring, hline, hstops⟩ := hsort
  refine ⟨_, expression_suffix hs, fun i => ?_⟩
  rw [String.toList_append]
  exact (h i).stop (.token hop (TokenKind.isInner_of_isSuffix hk) hstring hline) hstops

/-! ### Groups -/

lemma Rewritten.bracketed (h : Rewritten n us node) (ho : opener.Spelled n)
    (hc : closer.Spelled n) (hok : opener.kind = .leftParen) (hck : closer.kind = .rightParen) :
    Rewritten n (opener :: (us ++ [closer]))
      (.spanning .bracketed opener.place closer.stop [node]) := by
  obtain ⟨s, hs, h⟩ := h
  refine ⟨_, expression_bracketed hs, fun i => ?_⟩
  have htext : ("(" ++ s ++ ")").toList
      = opener.value.toList ++ (s.toList ++ closer.value.toList) := by
    rw [ho.spelling (by rw [hok]; rfl), hc.spelling (by rw [hck]; rfl), String.toList_append,
      String.toList_append, List.append_assoc]
  rw [htext]
  exact Puts.group ho hc (.inl ⟨hok, hck⟩) (h _).puts (.inr (h none).opens)

/-- The arguments of a call or the parameters of a function in parentheses. -/
lemma Lists.parens {ls m : List Token} (h : Lists n (some .leftParen) ", " us ss)
    (hl : LeadingComma ls (us ++ closer :: m)) (ho : opener.Spelled n) (hc : closer.Spelled n)
    (hok : opener.kind = .leftParen) (hck : closer.kind = .rightParen) :
    Puts n i (opener :: (ls ++ (us ++ [closer]))) ("(" ++ Text.join ", " ss ++ ")").toList := by
  have htext : ("(" ++ Text.join ", " ss ++ ")").toList
      = opener.value.toList ++ ((Text.join ", " ss).toList ++ closer.value.toList) := by
    rw [ho.spelling (by rw [hok]; rfl), hc.spelling (by rw [hck]; rfl), String.toList_append,
      String.toList_append, List.append_assoc]
  rw [htext]
  obtain ⟨hputs, hopens⟩ := h.puts
  cases hl with
  | none =>
    refine (Puts.group ho hc (.inl ⟨hok, hck⟩) ?_ hopens).puts
    rw [hok]
    exact hputs
  | comma ht hb =>
    -- the first parameter is a name
    rw [bindingAhead, Bool.and_eq_true, beq_iff_eq] at hb
    cases us with
    | nil =>
      rw [List.nil_append, headKind_cons, hck] at hb
      cases hb.1
    | cons x us => exact .leadingComma ho hc hok hck ht hb.1 hputs hopens

lemma Rewritten.call {xs ys : List Node} (h : Rewritten n us node) (hx : texts xs = .ok ss)
    (hy : texts ys = .ok rs) (hlist : Lists n (some .leftParen) ", " vs (ss ++ rs))
    (ho : opener.Spelled n) (hc : closer.Spelled n) (hok : opener.kind = .leftParen)
    (hck : closer.kind = .rightParen) :
    Rewritten n (us ++ opener :: (vs ++ [closer])) (callNode node opener closer xs ys) := by
  obtain ⟨s, hs, h⟩ := h
  refine ⟨_, expression_call hs hx hy, fun i => ?_⟩
  have htext : (s ++ "(" ++ Text.join ", " (ss ++ rs) ++ ")").toList
      = s.toList ++ ("(" ++ Text.join ", " (ss ++ rs) ++ ")").toList := by
    simp only [String.toList_append, List.append_assoc]
  rw [htext]
  refine (h i).stop (hlist.parens (m := []) .none ho hc hok hck) ?_
  rw [String.toList_append, String.toList_append, List.append_assoc]
  exact stops_cons rfl rfl

lemma Rewritten.matrix {ns : List Node} (h : rowTexts ns = .ok ss)
    (hrows : Emits n (some .leftBracket) us (Text.join "; " ss).toList) (ho : opener.Spelled n)
    (hc : closer.Spelled n) (hok : opener.kind = .leftBracket)
    (hck : closer.kind = .rightBracket) :
    Rewritten n (opener :: (us ++ [closer]))
      (.spanning .matrix opener.place closer.stop ns) := by
  refine ⟨_, expression_matrix h, fun i => ?_⟩
  have htext : ("[" ++ Text.join "; " ss ++ "]").toList
      = opener.value.toList ++ ((Text.join "; " ss).toList ++ closer.value.toList) := by
    rw [ho.spelling (by rw [hok]; rfl), hc.spelling (by rw [hck]; rfl), String.toList_append,
      String.toList_append, List.append_assoc]
  rw [htext]
  refine Puts.group ho hc (.inr ⟨hok, hck⟩) ?_ (.inr hrows.opens)
  rw [hok]
  exact hrows.puts

/-! ### Names and numbers -/

lemma emits_name (h : t.Spelled n) (hk : t.kind = .identifier) : Emits n i [t] t.value.toList :=
  .token h (by rw [hk]; rfl) (by rw [hk]; rfl) (by rw [hk]; decide) (by rw [hk]; rfl)

lemma emits_number (h : t.Spelled n) (hk : t.kind = .number) : Emits n i [t] t.value.toList :=
  .token h (by rw [hk]; rfl) (by rw [hk]; rfl) (by rw [hk]; decide) (by rw [hk]; rfl)

/-- A name, a dot or an equals sign, and a text. -/
lemma emits_named {mark : Token} (ht : t.Spelled n) (htk : t.kind = .identifier)
    (hm : mark.Spelled n) (hmk : mark.kind = .dot ∨ mark.kind = .assign) (h : Emits n i us w) :
    Emits n i (t :: mark :: us) (t.value.toList ++ (mark.value.toList ++ w)) := by
  have hmark : mark.kind.isMark = true ∧ mark.kind.isInner = true
      ∧ ∃ x, mark.value.toList = [x] ∧ Scan.continuesWord x = false := by
    rcases hmk with hmk | hmk
    · rw [hm.spelling (by rw [hmk]; rfl), hmk]
      exact ⟨rfl, rfl, '.', rfl, rfl⟩
    · rw [hm.spelling (by rw [hmk]; rfl), hmk]
      exact ⟨rfl, rfl, '=', rfl, rfl⟩
  obtain ⟨hmark, hinner, x, hx, hword⟩ := hmark
  have hright := Puts.mark hm rfl hmark hinner h.puts h.opens
  refine ⟨(ht.opens (by rw [htk]; rfl)).append _, ?_⟩
  rw [hx] at hright ⊢
  exact hright.joined ht (.inl htk) hword (by rw [htk]; rintro ⟨⟩)

/-- A number, three dots and a text. -/
lemma emits_range {dots : Token} (ht : t.Spelled n) (htk : t.kind = .number)
    (hd : dots.Spelled n) (hdk : dots.kind = .ellipsis) (h : Emits n i us w) :
    Emits n i (t :: dots :: us) (t.value.toList ++ (dots.value.toList ++ w)) := by
  have hright := Puts.mark hd hdk rfl rfl h.puts h.opens
  refine ⟨(ht.opens (by rw [htk]; rfl)).append _, ?_⟩
  rw [hd.spelling (by rw [hdk]; rfl)] at hright ⊢
  exact hright.joined ht (.inr htk) rfl fun _ _ => rfl

lemma Rewritten.keyword {e : Token} {stop : Nat} (h : Rewritten n us node) (ht : t.Spelled n)
    (htk : t.kind = .identifier) (he : e.Spelled n) (hek : e.kind = .assign) :
    Rewritten n (t :: e :: us) (keywordNode t stop node) := by
  obtain ⟨s, hs, h⟩ := h
  refine ⟨_, expression_keyword hs, fun i => ?_⟩
  have htext : (t.value ++ "=" ++ s).toList
      = t.value.toList ++ (e.value.toList ++ s.toList) := by
    rw [he.spelling (by rw [hek]; rfl), String.toList_append, String.toList_append,
      List.append_assoc]
  rw [htext]
  exact emits_named ht htk he (.inr hek) (h i)

lemma Rewritten.percentage {sign : Token} (ht : t.Spelled n) (htk : t.kind = .number)
    (hs : sign.Spelled n) (hsk : sign.kind = .percent) :
    Rewritten n [t, sign]
      (.spanning .percentage t.place sign.stop [] [] (some (t.value ++ sign.value))) := by
  refine ⟨_, expression_percentage, fun i => ?_⟩
  rw [String.toList_append]
  refine (emits_number ht htk).stop
    (.token hs (by rw [hsk]; rfl) (by rw [hsk]; decide) (by rw [hsk]; rfl)) ?_
  rw [hs.spelling (by rw [hsk]; rfl)]
  exact stops_cons rfl rfl

/-! ### Arguments and elements -/

/-- A text, a comma or a semicolon, and other texts. -/
lemma emits_join {separator : String} (h : Emits n i us s.toList) (hc : c.Spelled n)
    (hk : (c.kind = .comma ∧ separator = ", ") ∨ (c.kind = .semicolon ∧ separator = "; "))
    (hs : Emits n i vs (Text.join separator ss).toList) (hss : ss ≠ []) :
    Emits n i (us ++ c :: vs) (Text.join separator (s :: ss)).toList := by
  have hmark : c.kind.isInner = true ∧ c.kind ≠ .string ∧ c.kind.endsLine = false
      ∧ Stops c.value.toList ∧ separator = c.value ++ " " := by
    rcases hk with ⟨hk, rfl⟩ | ⟨hk, rfl⟩
    · rw [hc.spelling (by rw [hk]; rfl), hk]
      exact ⟨rfl, by decide, rfl, stops_cons rfl rfl, rfl⟩
    · rw [hc.spelling (by rw [hk]; rfl), hk]
      exact ⟨rfl, by decide, rfl, stops_cons rfl rfl, rfl⟩
  obtain ⟨hinner, hstring, hline, hstops, hsep⟩ := hmark
  have htext : (Text.join separator (s :: ss)).toList
      = s.toList ++ (c.value.toList ++ ' ' :: (Text.join separator ss).toList) := by
    rw [join_cons hss, hsep]
    simp
  rw [htext]
  exact h.separated hc rfl hinner hstring hline hstops hs

/-- An element before the tokens `ws`, which hold what the other elements of the
row hold. -/
lemma Lists.element {ws : List Token} (h : Emits n i us s.toList) (hus : us ≠ [])
    (hs : Lists n i " " vs ss) (hws : ∀ w, Puts n i vs w → Puts n i ws w) :
    Lists n i " " (us ++ ws) (s :: ss) := by
  refine .inr ⟨by simp [hus], by simp, ?_⟩
  rcases hs with ⟨rfl, rfl⟩ | ⟨-, hss, hs⟩
  · have := h.puts.append (hws [] .nil) fun k hk => hk
    rw [List.append_nil] at this
    exact ⟨h.opens, this⟩
  · have htext : (Text.join " " (s :: ss)).toList
        = s.toList ++ ' ' :: (Text.join " " ss).toList := by
      rw [join_cons hss]
      simp
    rw [htext]
    exact h.stop ((hws _ hs.puts).blank hs.opens.ne_nil) (stops_cons rfl rfl)

/-- The comma between two elements goes. -/
lemma Puts.comma (hc : c.kind = .comma) (h : Puts n (some .leftBracket) us w) :
    Puts n (some .leftBracket) (c :: us) w := by
  obtain ⟨xs, hxs, hw⟩ := h
  exact ⟨xs, .comma hc hxs, hw⟩

end

/-! ### Phrases -/

/-- The texts of the nodes of a phrase hold its tokens. Operators and suffixes
are put behind what holds their operand, arguments before further ones. -/
def Phrase.Relays (n : Nat) : Phrase → (us k : List Token) → List Node → Prop
  | .expression .., us, _, ns | .unary _, us, _, ns | .primary _, us, _, ns
  | .name _, us, _, ns | .argument _, us, _, ns => ∀ node ∈ ns, Rewritten n us node
  | .operators _ _ lhs, us, _, ns | .suffixes lhs, us, _, ns =>
    ∀ vs, Rewritten n vs lhs → ∀ node ∈ ns, Rewritten n (vs ++ us) node
  | .members _, us, _, ns => ∀ t : Token, t.Spelled n → t.kind = .identifier → ∀ i,
    Emits n i (t :: us) (Text.join "." (t.value :: ns.map (·.value.getD ""))).toList
  | .arguments _, us, k, ns => ∃ ss, texts ns = .ok ss ∧ ∀ i vs ms,
    (headKind k = .rightParen ↔ vs = []) → Lists n i ", " vs ms →
      Lists n i ", " (us ++ vs) (ss ++ ms)
  | .elements, us, _, ns => ∃ ss, texts ns = .ok ss ∧ Lists n (some .leftBracket) " " us ss
  | .rows, us, _, ns => ∃ ss, rowTexts ns = .ok ss ∧ ss ≠ []
    ∧ Emits n (some .leftBracket) us (Text.join "; " ss).toList
  | .segments segs, _, _, ns => ∀ w, Parts (SnippetSpelled n) segs w →
    ∃ ss, segmentTexts ns = ss.map .ok ∧ Restrung n segs w ((String.join ss).toList ++ ['"'])
  | _, _, _, _ => True

/-- Named arguments begin with a name. -/
lemma Derives.keyword_begins {a : Nat} {k : List Token} {ns : List Node}
    (h : Derives a (.arguments .keyword) us k ns) : us = [] ∨ headKind us = .identifier := by
  cases h with
  | argumentsEnd => exact .inl rfl
  | argumentsLast h =>
    obtain ⟨t, us, rfl, ht⟩ := h.first rfl
    exact .inr (eq_of_beq ht)
  | argumentsMore h =>
    obtain ⟨t, us, rfl, ht⟩ := h.first rfl
    exact .inr (eq_of_beq ht)

lemma Derives.argument_ne_nil {a : Nat} {form : ArgumentForm} {k : List Token} {ns : List Node}
    (h : Derives a (.argument form) us k ns) : us ≠ [] := by
  cases form with
  | value | parameter | keyword =>
    obtain ⟨t, us, rfl, -⟩ := h.first rfl
    simp

/-- The arguments of a call or the parameters of a function, first those without
a name. -/
lemma lists_of_relays {a : Nat} {form : ArgumentForm} {k : List Token} {xs ys : List Node}
    (hc : c.kind = .rightParen) (hy : Derives a (.arguments .keyword) vs (c :: k) ys)
    (ihx : (Phrase.arguments form).Relays n us (vs ++ c :: k) xs)
    (ihy : (Phrase.arguments .keyword).Relays n vs (c :: k) ys) :
    ∃ ss rs, texts xs = .ok ss ∧ texts ys = .ok rs
      ∧ ∀ i, Lists n i ", " (us ++ vs) (ss ++ rs) := by
  obtain ⟨ss, hss, hx⟩ := ihx
  obtain ⟨rs, hrs, hy'⟩ := ihy
  refine ⟨ss, rs, hss, hrs, fun i => hx i vs rs ?_ ?_⟩
  · rcases hy.keyword_begins with rfl | hhead
    · exact iff_of_true hc rfl
    · cases vs with
      | nil => cases hhead
      | cons v vs =>
        refine iff_of_false (fun hk => ?_) (by simp)
        rw [headKind_cons] at hhead
        rw [List.cons_append, headKind_cons, hhead] at hk
        cases hk
  · have := hy' i [] [] (iff_of_true hc rfl) (.inl ⟨rfl, rfl⟩)
    rwa [List.append_nil, List.append_nil] at this

lemma Rewritten.string {ns : List Node} {ss : List String} (ht : t.kind = .string)
    (h : segmentTexts ns = ss.map .ok)
    (hw : Restrung n t.segments w ((String.join ss).toList ++ ['"'])) :
    Rewritten n [t] (stringNode t ns) := by
  refine ⟨_, expression_string h, fun i => ?_⟩
  have htext : ("\"" ++ String.join ss ++ "\"").toList
      = '"' :: ((String.join ss).toList ++ ['"']) := by
    rw [String.toList_append, String.toList_append, List.append_assoc]
    rfl
  rw [htext]
  exact ⟨opens_cons rfl, [t], .one ht rfl .nil, fun _ _ => .one (hw.readsAs ht)⟩

/-- The text of a piece that keeps its spelling before the texts of others. -/
lemma Restrung.plainSegment {seg : Segment Token} {segs : List (Segment Token)} {ns : List Node}
    {ss : List String}
    (h : Restrung n (seg :: segs) w (seg.text.toList ++ ((String.join ss).toList ++ ['"'])))
    (hk : segmentKind seg.form ≠ .snippet) (hss : segmentTexts ns = ss.map .ok) :
    ∃ rs, segmentTexts (StpLang.plainSegment seg :: ns) = rs.map .ok
      ∧ Restrung n (seg :: segs) w ((String.join rs).toList ++ ['"']) := by
  refine ⟨seg.text :: ss, ?_, ?_⟩
  · rw [segmentTexts_plain hk, hss]
    rfl
  · rw [String.join_cons, String.toList_append, List.append_assoc]
    exact h

/-- The text of a snippet before the texts of other pieces. -/
lemma Restrung.snippetSegment {a : Nat} {seg : Segment Token} {segs : List (Segment Token)}
    {tokens ts rest : List Token} {node : Node} {ns : List Node} {ss : List String}
    {text : List Char} (h : Restrung n segs w ((String.join ss).toList ++ ['"']))
    (hss : segmentTexts ns = ss.map .ok) (form : seg.form = .snippet tokens)
    (htext : seg.text.toList = '\\' :: text) (htokens : SnippetSpelled n tokens)
    (hsettle : (Parser.settle 0 none tokens).1 = ts ++ rest)
    (he : Derives a (.expression 1 false) ts rest [node]) (hrest : headKind rest = .eof)
    (ihe : ∀ {m : Nat}, (∀ u ∈ ts, u.Spelled m) → Rewritten m ts node) :
    ∃ rs, segmentTexts (snippetNode seg node :: ns) = rs.map .ok
      ∧ Restrung n (seg :: segs) (seg.text.toList ++ w) ((String.join rs).toList ++ ['"']) := by
  cases n with
  | zero => exact htokens.elim
  | succ m =>
    obtain ⟨us, e, rfl, hek, hus⟩ := htokens
    obtain ⟨heq, hinner⟩ := settle_eof hek fun u hu => (hus u hu).1
    rw [heq] at hsettle
    obtain ⟨rfl, -⟩ := eq_of_append_eof hsettle.symm he.balanced.ne_eof hinner hek hrest
    obtain ⟨s, hs, hemits⟩ := ihe (spelled_settle (fun u hu => (hus u hu).2) 0 none)
    obtain ⟨xs, hxs, hwritten⟩ := (hemits none).puts
    refine ⟨("\\\x7b" ++ s ++ "\\\x7d") :: ss, ?_, ?_⟩
    · rw [segmentTexts_snippet hs, hss]
      rfl
    · have hsnippet := h.snippet form htext hwritten hxs.balanced (hxs.lexemes_text hek true)
      simpa using hsnippet

/-- The text of a phrase of the grammar holds the tokens of the phrase, laid out
anew. -/
theorem Derives.relays {a : Nat} {p : Phrase} {k : List Token} {ns : List Node}
    (h : Derives a p us k ns) (hs : ∀ u ∈ us, u.Spelled n) : p.Relays n us k ns := by
  induction h generalizing n with
  | expression _ _ ihl iho =>
    rw [List.forall_mem_append] at hs
    exact iho hs.2 _ (ihl hs.1 _ List.mem_cons_self)
  | operatorsEnd => 
    intro vs h
    rw [List.forall_mem_singleton, List.append_nil]
    exact h
  | operatorsMore hop _ _ _ _ ihr iho =>
    rw [List.forall_mem_cons, List.forall_mem_append] at hs
    intro vs h
    have hbinary := h.binary (ihr hs.2.1 _ List.mem_cons_self) hs.1 hop
    have := iho hs.2.2 _ hbinary
    rwa [List.append_assoc] at this
  | unaryPrefix hop _ ih =>
    rw [List.forall_mem_cons] at hs
    exact List.forall_mem_singleton.mpr ((ih hs.2 _ List.mem_cons_self).prefixed hs.1 hop)
  | unaryPlain _ _ ihp ihs =>
    rw [List.forall_mem_append] at hs
    exact ihs hs.2 _ (ihp hs.1 _ List.mem_cons_self)
  | suffixesEnd =>
    intro vs h
    rw [List.forall_mem_singleton, List.append_nil]
    exact h
  | suffixesMore hop _ _ ih =>
    rw [List.forall_mem_cons] at hs
    simp only [suffixAhead, headKind_cons, Bool.and_eq_true] at hop
    intro vs h
    have := ih hs.2 _ (h.suffixed hs.1 hop.1)
    rwa [List.append_assoc] at this
  | matrix ho _ hc ih =>
    rw [List.forall_mem_cons, List.forall_mem_append, List.forall_mem_singleton] at hs
    obtain ⟨ss, hss, -, hrows⟩ := ih hs.2.1
    exact List.forall_mem_singleton.mpr (.matrix hss hrows hs.1 hs.2.2 ho hc)
  | bracketed ho _ hc ih =>
    rw [List.forall_mem_cons, List.forall_mem_append, List.forall_mem_singleton] at hs
    exact List.forall_mem_singleton.mpr
      ((ih hs.2.1 _ List.mem_cons_self).bracketed hs.1 hs.2.2 ho hc)
  | plainName _ _ ih => exact ih hs
  | call _ ho _ hy hc ihn ihx ihy =>
    simp only [List.forall_mem_append, List.forall_mem_cons] at hs
    obtain ⟨hname, hopen, hus, hvs, hclose, -⟩ := hs
    simp only [callAhead, headKind_cons, Bool.and_eq_true, beq_iff_eq] at ho
    obtain ⟨ss, rs, hss, hrs, hlist⟩ := lists_of_relays hc hy (ihx hus) (ihy hvs)
    have := (ihn hname _ List.mem_cons_self).call hss hrs (hlist _) hopen hclose ho.1 hc
    rw [List.append_assoc] at this
    exact List.forall_mem_singleton.mpr this
  | rangeOfTwo hx hd hy =>
    simp only [List.forall_mem_cons] at hs
    obtain ⟨hxs, hds, hys, -⟩ := hs
    refine List.forall_mem_singleton.mpr ⟨_, expression_range rfl (texts_cons (expression_number _)
      (texts_cons (expression_number _) texts_nil)), fun i => ?_⟩
    have := emits_range hxs hx hds hd (emits_number (i := i) hys hy)
    rw [hds.spelling (by rw [hd]; rfl)] at this
    simpa [Text.join] using this
  | rangeOfThree hx hd hy he hz =>
    simp only [List.forall_mem_cons] at hs
    obtain ⟨hxs, hds, hys, hes, hzs, -⟩ := hs
    refine List.forall_mem_singleton.mpr ⟨_, expression_range rfl (texts_cons (expression_number _)
      (texts_cons (expression_number _) (texts_cons (expression_number _) texts_nil))),
      fun i => ?_⟩
    have := emits_range hxs hx hds hd (emits_range hys hy hes he (emits_number (i := i) hzs hz))
    rw [hds.spelling (by rw [hd]; rfl), hes.spelling (by rw [he]; rfl)] at this
    simpa [Text.join] using this
  | number ht =>
    rw [List.forall_mem_singleton] at hs
    exact List.forall_mem_singleton.mpr
      ⟨_, expression_number _, fun i => emits_number hs ht⟩
  | percentage ht hsign =>
    simp only [List.forall_mem_cons] at hs
    simp only [percentAhead, headKind_cons, Bool.and_eq_true, beq_iff_eq] at hsign
    exact List.forall_mem_singleton.mpr (.percentage hs.1 ht hs.2.1 hsign.1)
  | string ht _ ih =>
    rw [List.forall_mem_singleton, Token.Spelled, ht] at hs
    obtain ⟨w, -, hw⟩ := hs.parts
    obtain ⟨ss, hss, hstring⟩ := ih (by simp) w hw
    exact List.forall_mem_singleton.mpr (.string ht hss hstring)
  | name ht _ ih =>
    rw [List.forall_mem_cons] at hs
    exact List.forall_mem_singleton.mpr ⟨_, expression_member, ih hs.2 _ hs.1 ht⟩
  | membersEnd => exact fun t ht hk i => emits_name ht hk
  | membersMore hd hk _ ih =>
    simp only [List.forall_mem_cons] at hs
    simp only [dotAhead, headKind_cons, Bool.and_eq_true, beq_iff_eq] at hd
    intro t ht htk i
    have := emits_named ht htk hs.1 (.inl hd.1) (ih hs.2.2 _ hs.2.1 hk i)
    rw [hs.1.spelling (by rw [hd.1]; rfl)] at this
    rw [List.map_cons, join_cons (by simp)]
    simpa [Node.leaf] using this
  | argumentValue _ _ ih => exact ih hs
  | argumentName ht =>
    rw [List.forall_mem_singleton] at hs
    exact List.forall_mem_singleton.mpr ⟨_, expression_identifier _, fun i => emits_name hs ht⟩
  | argumentKeyword ht he _ ih =>
    simp only [List.forall_mem_cons] at hs
    exact List.forall_mem_singleton.mpr
      ((ih hs.2.2 _ List.mem_cons_self).keyword hs.1 ht hs.2.1 he)
  | argumentsEnd => exact ⟨[], texts_nil, fun _ _ _ _ h => h⟩
  | argumentsLast h hk ih =>
    obtain ⟨s, hs, hemits⟩ := ih hs _ List.mem_cons_self
    refine ⟨[s], texts_cons hs texts_nil, fun i vs ms hvs hlist => ?_⟩
    obtain rfl := hvs.mp hk
    obtain ⟨-, rfl⟩ := hlist.resolve_right fun h => h.1 rfl
    refine .inr ⟨by simpa using h.argument_ne_nil, by simp, ?_⟩
    rw [List.append_nil]
    exact hemits i
  | @argumentsMore _ _ _ _ us _ _ _ _ hc hk _ ih ihs =>
    rw [List.forall_mem_append, List.forall_mem_cons] at hs
    obtain ⟨s, hs', hemits⟩ := ih hs.1 _ List.mem_cons_self
    obtain ⟨ss, hss, hmore⟩ := ihs hs.2.2
    refine ⟨s :: ss, texts_cons hs' hss, fun i vs ms hvs hlist => ?_⟩
    have hne : us ++ vs ≠ [] := fun h => by
      obtain ⟨rfl, rfl⟩ := List.append_eq_nil_iff.mp h
      exact hk (hvs.mpr rfl)
    obtain ⟨-, hne', hrest⟩ := (hmore i vs ms hvs hlist).resolve_left fun h => hne h.1
    refine .inr ⟨by simp, by simp, ?_⟩
    rw [List.append_assoc, List.cons_append, List.cons_append]
    exact emits_join (hemits i) hs.2.1 (.inl ⟨hc, rfl⟩) hrest hne'
  | elementsEnd => exact ⟨[], texts_nil, .inl ⟨rfl, rfl⟩⟩
  | elementsMore h _ _ ih ihs =>
    rw [List.forall_mem_append] at hs
    obtain ⟨s, hs', hemits⟩ := ih hs.1 _ List.mem_cons_self
    obtain ⟨ss, hss, hlist⟩ := ihs hs.2
    exact ⟨s :: ss, texts_cons hs' hss, .element (hemits _) h.ne_nil hlist fun _ h => h⟩
  | elementsComma h hc _ ih ihs =>
    rw [List.forall_mem_append, List.forall_mem_cons] at hs
    obtain ⟨s, hs', hemits⟩ := ih hs.1 _ List.mem_cons_self
    obtain ⟨ss, hss, hlist⟩ := ihs hs.2.2
    exact ⟨s :: ss, texts_cons hs' hss, .element (hemits _) h.ne_nil hlist fun _ h => h.comma hc⟩
  | rowsLast _ _ _ ih =>
    obtain ⟨ss, hss, hlist⟩ := ih hs
    obtain ⟨-, -, hemits⟩ := hlist.resolve_left fun h => List.cons_ne_nil _ _ h.1
    exact ⟨[_], rowTexts_cons hss rowTexts_nil, by simp, hemits⟩
  | rowsMore _ _ hc _ ih ihs =>
    rw [← List.cons_append] at hs ⊢
    obtain ⟨hrow, hmore⟩ := List.forall_mem_append.mp hs
    rw [List.forall_mem_cons] at hmore
    obtain ⟨ss, hss, hlist⟩ := ih hrow
    obtain ⟨rs, hrs, hne, hrows⟩ := ihs hmore.2
    obtain ⟨-, -, hemits⟩ := hlist.resolve_left fun h => List.cons_ne_nil _ _ h.1
    refine ⟨_ :: rs, rowTexts_cons hss hrs, by simp, ?_⟩
    exact emits_join hemits hmore.1 (.inr ⟨hc, rfl⟩) hrows hne
  | segmentsNil =>
    intro w hw
    cases hw
    exact ⟨[], by simp [segmentTexts], .close⟩
  | segmentsPlain hf _ ih =>
    intro w hw
    cases hw with
    | chars form hne plain ends more =>
      obtain ⟨ss, hss, h⟩ := ih (by simp) _ more
      exact (h.chars form hne plain ends).plainSegment (by rw [form]; decide) hss
    | escape form text hx more =>
      obtain ⟨ss, hss, h⟩ := ih (by simp) _ more
      exact (h.escape form text hx).plainSegment (by rw [form]; decide) hss
    | unicode form text digits more =>
      obtain ⟨ss, hss, h⟩ := ih (by simp) _ more
      exact (h.unicode form text digits).plainSegment (by rw [form]; exact Kind.noConfusion) hss
    | octal form text hw digits more =>
      obtain ⟨ss, hss, h⟩ := ih (by simp) _ more
      exact (h.octal form text hw digits).plainSegment (by rw [form]; decide) hss
    | snippet form => exact absurd form (hf _)
  | segmentsSnippet hf hsettle he hk _ ihe ih =>
    intro w hw
    cases hw with
    | chars form | escape form | unicode form | octal form =>
      rw [form] at hf
      cases hf
    | snippet form text tokens more =>
      rw [form] at hf
      cases hf
      obtain ⟨ss, hss, h⟩ := ih (by simp) _ more
      exact h.snippetSegment hss form text tokens hsettle he hk fun hs =>
        ihe hs _ List.mem_cons_self
  | _ => trivial

end

end StpLang
