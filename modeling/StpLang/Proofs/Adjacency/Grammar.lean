import StpLang.Proofs.Adjacency.Surface
import StpLang.Proofs.Comments
import StpLang.Proofs.Grouping

/-!
White space through the grammar.

Whether white space counts is decided at every level of an expression anew. What the
grammar derives from the tokens of a text is written as `Node.Fine` says, in rows of
matrices and elsewhere.

* `Derives.last`: an expression ends with a token that ends an operand.
* `Phrase.Minds` says of a phrase what its nodes are to fulfil.
* `Derives.minds_expression` and `Derives.minds_statement` follow it through the grammar.
-/

namespace StpLang

open Grammar Node

variable {cs : List Char} {a least : Nat} {m : Bool} {p : Phrase} {t u v : Token}
  {ts us k : List Token} {n : Node} {ns ms : List Node}

/-! ### Where expressions end -/

/-- The node ends with the last of the tokens, which ends an operand. -/
def EndsWith (ts : List Token) (n : Node) : Prop :=
  ∃ us u, ts = us ++ [u] ∧ u.kind.endsOperand = true ∧ n.stop = u.stop

/-- With which token the node of a phrase ends. -/
def Phrase.Lasts (ts : List Token) (ns : List Node) : Phrase → Prop
  | .expression .. | .unary _ | .primary _ | .name _ => ∀ n ∈ ns, EndsWith ts n
  | .operators _ _ lhs | .suffixes lhs => ∀ n ∈ ns, (ts = [] ∧ n = lhs) ∨ EndsWith ts n
  | .members _ => ts ≠ [] → ∃ us u, ts = us ++ [u] ∧ u.kind = .identifier
  | _ => True

lemma EndsWith.before (h : EndsWith us n) (ts : List Token) : EndsWith (ts ++ us) n := by
  obtain ⟨vs, u, rfl, hu, hn⟩ := h
  exact ⟨ts ++ vs, u, (List.append_assoc ..).symm, hu, hn⟩

lemma EndsWith.ne_nil (h : EndsWith ts n) : ts ≠ [] := by
  obtain ⟨us, u, rfl, -⟩ := h
  simp

/-- A phrase that goes on from a node, or that adds nothing to it. -/
lemma EndsWith.further {l : Node} (h : EndsWith ts l) (hn : us = [] ∧ n = l ∨ EndsWith us n) :
    EndsWith (ts ++ us) n := by
  rcases hn with ⟨rfl, rfl⟩ | hn
  · rwa [List.append_nil]
  · exact hn.before ts

lemma visible_of_begins {kind : TokenKind} (h : beginsExpression kind = true) :
    kind.visible = true := by
  revert h
  cases kind <;> simp [beginsExpression, beginsOperand, TokenKind.isUnary, TokenKind.visible]

/-- An expression ends with a token that ends an operand. -/
lemma Derives.last (h : Derives a p ts k ns) : p.Lasts ts ns := by
  induction h with
  | expression _ _ ihl iho | unaryPlain _ _ ihl iho =>
    exact fun n hn => (ihl _ (List.mem_singleton_self _)).further (iho n hn)
  | operatorsEnd | suffixesEnd => exact List.forall_mem_singleton.mpr (.inl ⟨rfl, rfl⟩)
  | @operatorsMore _ _ _ op ts us _ lhs rhs _ _ _ _ _ _ _ _ ihr iho =>
    refine fun n hn => .inr ?_
    obtain ⟨vs, u, hvs, hu, hstop⟩ := ihr _ (List.mem_singleton_self _)
    have hnode : EndsWith (op :: ts) (binaryNode lhs op rhs) :=
      ⟨op :: vs, u, by rw [hvs]; rfl, hu, hstop⟩
    exact hnode.further (iho n hn)
  | @unaryPrefix _ _ op _ _ _ _ _ ih =>
    obtain ⟨vs, u, hvs, hu, hstop⟩ := ih _ (List.mem_singleton_self _)
    exact List.forall_mem_singleton.mpr ⟨op :: vs, u, by rw [hvs]; rfl, hu, hstop⟩
  | @suffixesMore _ op _ _ operand _ hop _ _ ih =>
    have hsuffix : op.kind.endsOperand = true := by
      have hkind : op.kind.isSuffix = true := (Bool.and_eq_true _ _ ▸ hop).1
      revert hkind
      cases op.kind <;> simp [TokenKind.isSuffix, TokenKind.endsOperand]
    have hnode : EndsWith [op] (suffixNode operand op) := ⟨[], op, rfl, hsuffix, rfl⟩
    exact fun n hn => .inr (hnode.further (ih n hn))
  | @matrix _ _ opener closer ts _ _ _ _ hc =>
    exact List.forall_mem_singleton.mpr ⟨opener :: ts, closer, rfl, by rw [hc]; rfl, rfl⟩
  | @bracketed _ _ opener closer ts _ _ _ _ hc =>
    exact List.forall_mem_singleton.mpr ⟨opener :: ts, closer, rfl, by rw [hc]; rfl, rfl⟩
  | plainName _ _ ih => exact ih
  | @call _ _ opener closer ts us vs _ _ _ _ _ _ _ _ hc =>
    exact List.forall_mem_singleton.mpr
      ⟨ts ++ opener :: (us ++ vs), closer, by simp, by rw [hc]; rfl, rfl⟩
  | @rangeOfTwo _ _ x d y _ _ _ hy =>
    exact List.forall_mem_singleton.mpr ⟨[x, d], y, rfl, by rw [hy]; rfl, rfl⟩
  | @rangeOfThree _ _ x d y e z _ _ _ _ _ hz =>
    exact List.forall_mem_singleton.mpr ⟨[x, d, y, e], z, rfl, by rw [hz]; rfl, rfl⟩
  | @number _ _ t _ ht => exact List.forall_mem_singleton.mpr ⟨[], t, rfl, by rw [ht]; rfl, rfl⟩
  | @percentage _ _ t sign _ _ hs =>
    have hkind : sign.kind = .percent := by
      simp only [percentAhead, headKind_cons, Bool.and_eq_true, beq_iff_eq] at hs
      exact hs.1
    exact List.forall_mem_singleton.mpr ⟨[t], sign, rfl, by rw [hkind]; rfl, rfl⟩
  | @string _ _ t _ _ ht => exact List.forall_mem_singleton.mpr ⟨[], t, rfl, by rw [ht]; rfl, rfl⟩
  | @name _ _ t ts _ _ ht _ ih =>
    rw [Phrase.Lasts, List.forall_mem_singleton]
    by_cases hne : ts = []
    · subst hne
      exact ⟨[], t, rfl, by rw [ht]; rfl, rfl⟩
    · obtain ⟨us, u, rfl, hu⟩ := ih hne
      exact ⟨t :: us, u, rfl, by rw [hu]; rfl, lastStop_concat (t :: us) u⟩
  | membersEnd => exact fun h => absurd rfl h
  | @membersMore _ _ d t ts _ _ _ ht _ ih =>
    intro _
    by_cases hne : ts = []
    · subst hne
      exact ⟨[d], t, rfl, ht⟩
    · obtain ⟨us, u, rfl, hu⟩ := ih hne
      exact ⟨d :: t :: us, u, rfl, hu⟩
  | _ => trivial

/-- The nodes of an expression fit where its tokens follow each other. -/
lemma Threaded.fits (h : Threaded cs (ts ++ k))
    (hrow : ∀ lo hi, Laid cs lo ts hi → Row cs lo [n] hi) : n.Fits cs := by
  obtain ⟨lo, hi, hlaid⟩ := h.laid
  obtain ⟨mid, hts, -⟩ := hlaid.split
  exact (Row.singleton_iff.mp (hrow lo mid hts)).2.1

lemma Threaded.fits_binary {op : Token} {lhs rhs : Node} (h : Threaded cs (u :: op :: (ts ++ k)))
    (hfits : lhs.Fits cs) (hstop : lhs.stop = u.stop) (hop : op.kind.binary?.isSome = true)
    (hrow : ∀ lo hi, Laid cs lo ts hi → Row cs lo [rhs] hi) : (binaryNode lhs op rhs).Fits cs := by
  obtain ⟨lo, hi, hlaid⟩ := h.laid
  obtain ⟨-, -, hlaid⟩ := hlaid.uncons
  obtain ⟨horder, hsits, hlaid⟩ := hlaid.uncons
  obtain ⟨mid, hts, -⟩ := hlaid.split
  exact hfits.binary (hstop ▸ horder) hsits hop (hrow _ mid hts)

lemma Threaded.fits_suffix {op : Token} {operand : Node} (h : Threaded cs (u :: op :: ts))
    (hfits : operand.Fits cs) (hstop : operand.stop = u.stop) (hop : op.kind.isSuffix = true) :
    (suffixNode operand op).Fits cs := by
  obtain ⟨lo, hi, hlaid⟩ := h.laid
  obtain ⟨-, -, hlaid⟩ := hlaid.uncons
  obtain ⟨horder, hsits, -⟩ := hlaid.uncons
  exact hfits.suffix (hstop ▸ horder) hsits hop

/-- A comma or a parenthesis behind an expression leaves nothing to join. -/
lemma Derives.joins_all {m' : Bool} (hd : Derives a (.expression least m) ts k [n])
    (hs : Threaded cs (ts ++ k)) (h : n.Fine cs m')
    (hk : headKind k = .comma ∨ headKind k = .rightParen) : ∀ x ∈ n.surface, n.Joins cs x := by
  obtain ⟨us, u, rfl, hu, hstop⟩ := hd.last _ (List.mem_singleton_self _)
  refine h.joins_all (hs.fits hd.row) fun x hx => ?_
  cases k with
  | nil => rcases hk with hk | hk <;> cases hk
  | cons v vs =>
    have hnext : Threaded cs (u :: v :: vs) := hs.suffix ⟨us, by simp⟩
    have hv : v.kind.visible = true ∧ v.kind ∉ [.plus, .minus, .leftParen] := by
      rw [headKind_cons] at hk
      rcases hk with hk | hk <;> rw [hk] <;> exact ⟨rfl, by decide⟩
    exact hnext.joins (TokenKind.visible_of_endsOperand hu) hv.1 hv.2 (hx.trans hstop)

/-! ### Names -/

/-- Behind each name but the last of a member access stands a dot, and in a row of a
matrix it stands right behind the name. -/
lemma Derives.dotted (h : Derives a (.members m) ts k ns) (hs : Threaded cs (u :: (ts ++ k)))
    (hu : u.kind = .identifier) :
    (∀ c ∈ ns, ∃ t : Token, c = .leaf .identifier t)
      ∧ (m = true →
        (.leaf .identifier u :: ns).IsChain fun part _ => cs[part.stop]? = some '.')
      ∧ ∀ c ∈ .leaf .identifier u :: ns, c.stop < lastStop (u :: ts) →
        ∀ e : Node, e.Joins cs c := by
  generalize hp : Phrase.members m = p at h
  induction h generalizing u with
  | membersEnd =>
    refine ⟨by simp, fun _ => .singleton _, List.forall_mem_singleton.mpr fun hlt => ?_⟩
    exact absurd hlt (Nat.lt_irrefl _)
  | @membersMore _ m' d t ts k ns hd ht _ ih =>
    cases hp
    have hkind : d.kind = .dot ∧ (m = true → d.spaced = false) := by
      simp only [dotAhead, headKind_cons, headSpaced, Bool.and_eq_true, beq_iff_eq,
        Bool.not_eq_true', Bool.and_eq_false_iff] at hd
      exact ⟨hd.1, fun hm => hd.2.resolve_left (by rw [hm]; decide)⟩
    have hvisible : u.kind.visible = true ∧ d.kind.visible = true := by
      rw [hu, hkind.1]
      exact ⟨rfl, rfl⟩
    have hbeside := hs.beside hvisible.1 hvisible.2
    obtain ⟨hleaves, hchain, hjoins⟩ := ih (hs.suffix ⟨[u, d], by simp⟩) ht rfl
    refine ⟨List.forall_mem_cons.mpr ⟨⟨t, rfl⟩, hleaves⟩, fun hm => .cons_cons ?_ (hchain hm),
      List.forall_mem_cons.mpr ⟨fun _ e => ?_, ?_⟩⟩
    · have htouch := hbeside.touches.mp (hkind.2 hm)
      have hdot := ((hs.sits (List.mem_cons_of_mem _ List.mem_cons_self)).mark hkind.1 rfl).1
      rwa [htouch] at hdot
    · exact hs.joins hvisible.1 hvisible.2 (by rw [hkind.1]; decide) rfl
    · rw [lastStop_cons (by simp), lastStop_cons (by simp)]
      exact hjoins
  | _ => cases hp

lemma Derives.fine_name (h : Derives a (.members m) ts k ns) (hs : Threaded cs (u :: (ts ++ k)))
    (hu : u.kind = .identifier) : (memberNode u (lastStop (u :: ts)) ns).Fine cs m := by
  obtain ⟨hleaves, hchain, hjoins⟩ := h.dotted hs hu
  refine .of_leaves .identifier (.inr rfl) (by simp [memberNode, spanning]) ?_
    fun hm => ⟨by rintro ⟨⟩, by rintro ⟨⟩, fun _ => hchain hm⟩
  intro c hc
  have hend : c.stop < lastStop (u :: ts) →
      Node.Joins cs (memberNode u (lastStop (u :: ts)) ns) c := fun hlt => hjoins c hc hlt _
  rcases List.mem_cons.mp hc with rfl | hc
  · exact ⟨u, rfl, hend⟩
  · obtain ⟨t, rfl⟩ := hleaves c hc
    exact ⟨t, rfl, hend⟩

/-! ### Rows of matrices -/

/-- An operator of an element with what it takes behind it. -/
lemma Derives.tight_operator {least' level : Nat} {assoc : Assoc} {op : Token} {lhs rhs : Node}
    (h : Derives a (.expression least' true) ts k [rhs]) (hs : Threaded cs (u :: op :: (ts ++ k)))
    (hu : u.kind.visible = true) (hop : op.kind.binary? = some (level, assoc))
    (hahead : operatorAhead least true (op :: (ts ++ k)) = true) :
    (binaryNode lhs op rhs).Tight cs := by
  obtain ⟨w, ws, rfl, hw⟩ := h.first rfl
  have hsign := ((operatorAhead_iff hop).mp hahead).2
  rw [Bool.true_and] at hsign
  refine tight_binary hs hu (TokenKind.visible_of_binary hop).1 hsign (visible_of_begins hw) ?_ ?_
  · intro hk
    change w.kind = _ at hk
    rw [hk] at hw
    cases hw
  · rintro _ ⟨⟩
    exact congrArg Place.start (h.place rfl _ (List.mem_singleton_self rhs))

/-- A sign that begins an expression stands before an operand. -/
lemma Derives.behind_sign (h : Derives a (.expression least m) (v :: ts) k ns)
    (hv : v.kind = .plus ∨ v.kind = .minus) :
    ∃ w ws, ts = w :: ws ∧ beginsExpression w.kind = true := by
  have hunary {a : Nat} {us k : List Token} {ns : List Node}
      (h : Derives a (.unary m) us k ns) {ts : List Token} (hus : us = v :: ts) :
      ∃ w ws, ts = w :: ws ∧ beginsExpression w.kind = true := by
    cases h with
    | unaryPrefix _ h =>
      obtain ⟨w, ws, rfl, hw⟩ := h.first rfl
      cases hus
      exact ⟨w, ws, rfl, hw⟩
    | unaryPlain h =>
      obtain ⟨w, ws, rfl, hw⟩ := h.first rfl
      cases hus
      rcases hv with hv | hv <;> rw [hv] at hw <;> cases hw
  generalize hus : v :: ts = us at h
  cases h with
  | expression h =>
    obtain ⟨w, ws, rfl, -⟩ := h.first rfl
    cases hus
    obtain ⟨x, xs, rfl, hx⟩ := hunary h rfl
    exact ⟨x, _, rfl, hx⟩

/-- The first of the elements starts with the first token. -/
lemma Derives.elements_first (h : Derives a .elements us k (n :: ns)) :
    ∃ v vs, us = v :: vs ∧ n.start = v.start ∧ beginsExpression v.kind = true
      ∧ (v.kind = .plus ∨ v.kind = .minus →
        ∃ w ws, vs = w :: ws ∧ beginsExpression w.kind = true) := by
  have hfirst {a : Nat} {ts k : List Token} (h : Derives a (.expression 1 true) ts k [n])
      (us : List Token) : ∃ v vs, ts ++ us = v :: vs ∧ n.start = v.start
        ∧ beginsExpression v.kind = true ∧ (v.kind = .plus ∨ v.kind = .minus →
          ∃ w ws, vs = w :: ws ∧ beginsExpression w.kind = true) := by
    obtain ⟨v, vs, rfl, hv⟩ := h.first rfl
    refine ⟨v, vs ++ us, rfl, ?_, hv, fun hsign => ?_⟩
    · exact congrArg Place.start (h.place rfl _ (List.mem_singleton_self n))
    · obtain ⟨w, ws, rfl, hw⟩ := h.behind_sign hsign
      exact ⟨w, _, rfl, hw⟩
  cases h with
  | elementsMore h | elementsComma h => exact hfirst h _

/-- Two elements without a comma between them. -/
lemma Derives.neighbours (h : Derives a (.expression 1 true) ts (us ++ k) [n]) {y : Node}
    (hy : Derives a .elements us k (y :: ns)) (hs : Threaded cs (ts ++ (us ++ k))) :
    n.Neighbours cs y := by
  obtain ⟨vs, u, rfl, hu, hstop⟩ := h.last _ (List.mem_singleton_self _)
  obtain ⟨v, ws, rfl, hstart, hv, hmore⟩ := hy.elements_first
  obtain ⟨g, -, -, -, -, hend⟩ := h.groups
  have hu := TokenKind.visible_of_endsOperand hu
  have hv := visible_of_begins hv
  have hnext : Threaded cs (u :: v :: (ws ++ k)) := hs.suffix ⟨vs, by simp⟩
  have hbeside := hnext.beside hu hv
  rw [Neighbours, hstop, hstart]
  refine .inr ⟨hbeside.between, fun hi => ?_⟩
  have hsign := hnext.kind_of_sign hv hi
  obtain ⟨w, xs, rfl, hw⟩ := hmore hsign
  have hahead : signAhead (v :: (w :: xs ++ k)) = true := by
    rcases hsign with hsign | hsign <;>
      simpa [operatorAhead, hsign, TokenKind.binary?] using hend
  simp only [signAhead, List.cons_append, headSpaced, Bool.and_eq_true, Bool.not_eq_true']
    at hahead
  have hbehind : Threaded cs (v :: w :: (xs ++ k)) := hnext.suffix ⟨[u], rfl⟩
  have hw := visible_of_begins hw
  have htouch := (hbehind.beside hv hw).touches.mp hahead.1.1.2
  have hmark : v.stop = v.start + 1 := by
    have hsits := hbehind.sits List.mem_cons_self
    rcases hsign with hsign | hsign
    · exact (hsits.mark (y := '+') hsign rfl).2
    · exact (hsits.mark (y := '-') hsign rfl).2
  refine ⟨hbeside.space.mp hahead.1.1.1.2, ?_⟩
  rw [← hmark, ← htouch]
  exact (hbehind.sits (List.mem_cons_of_mem _ List.mem_cons_self)).solid hw

/-- Two elements with a comma between them. -/
lemma Derives.neighbours_comma {c : Token} {y : Node}
    (h : Derives a (.expression 1 true) ts (c :: (us ++ k)) [n]) (hc : c.kind = .comma)
    (hy : Derives a .elements us k (y :: ns))
    (hs : Threaded cs (ts ++ c :: (us ++ k))) : n.Neighbours cs y := by
  obtain ⟨vs, u, rfl, hu, hstop⟩ := h.last _ (List.mem_singleton_self _)
  obtain ⟨v, ws, rfl, hstart, hv, -⟩ := hy.elements_first
  have hcomma : c.kind.visible = true := by rw [hc]; rfl
  have hnext : Threaded cs (u :: c :: v :: (ws ++ k)) := hs.suffix ⟨vs, by simp⟩
  have hbehind : Threaded cs (c :: v :: (ws ++ k)) := hnext.suffix ⟨[u], rfl⟩
  obtain ⟨hmark, hone⟩ := (hbehind.sits List.mem_cons_self).mark hc rfl
  rw [Neighbours, hstop, hstart]
  refine .inl ⟨c.start, ?_, hmark, ?_⟩
  · exact (hnext.beside (TokenKind.visible_of_endsOperand hu) hcomma).between
  · rw [← hone]
    exact (hbehind.beside hcomma (visible_of_begins hv)).between

/-! ### Snippets -/

/-- Tokens that tile a text up to an offset end there, and an end mark is empty. -/
lemma Tiled.end_start {inSnippet : Bool} {groups : List Token} {last : Option TokenKind}
    {lo hi : Nat} {e : Token} (h : Tiled cs inSnippet groups last lo (ts ++ [e]) hi)
    (he : e.kind = .eof) : e.start = hi := by
  induction ts generalizing groups last lo with
  | nil =>
    cases h with
    | cons _ _ stands _ _ more =>
      cases more
      exact stands.empty.mp he
  | cons t ts ih =>
    cases h with
    | cons _ _ _ _ _ more => exact ih more

/-- The closing mark of a snippet stands out from white space. -/
lemma solid_of_close {i : Nat} {r : List Char} (h : cs.drop i = '\\' :: '}' :: r) :
    cs[i]? = some '\\' ∧ Solid cs i := by
  have hi : cs[i]? = some '\\' := by
    rw [← List.head?_drop, h]
    rfl
  refine ⟨hi, (List.getElem?_eq_some_iff.mp hi).1, fun hs => ?_, by rw [hi]; decide⟩
  rw [h] at hs
  cases hs with
  | blank hx => exact absurd hx (by decide)

/-- The tokens of a snippet stand in the text between its marks. -/
structure SnippetIn (cs : List Char) (seg : Segment Token) (ts : List Token) : Prop where
  tiled : Tiled cs true [] none (seg.start + 2) ts (seg.stop - 2)
  ends : ∀ t ∈ ts, ∀ u ∈ t.walk, u.Ends cs
  close : ∃ r, cs.drop (seg.stop - 2) = '\\' :: '}' :: r

/-- The expression of a snippet, with what follows it. -/
lemma SnippetIn.joins {allowance : Nat} {seg : Segment Token} {tokens : List Token}
    (h : SnippetIn cs seg tokens) (hsp : SnippetSpelled allowance tokens)
    (hs : (Parser.settle 0 none tokens).1 = ts ++ k)
    (hd : Derives a (.expression 1 false) ts k [n]) (hk : headKind k = .eof)
    (hn : Threaded cs (ts ++ k) → n.Fine cs false) :
    n.Fine cs false ∧ ∀ x ∈ n.surface, n.Joins cs x := by
  have hthreaded : Threaded cs (ts ++ k) := by
    rw [← hs]
    exact threaded_settle h.tiled hsp.spelled h.ends
  refine ⟨hn hthreaded, (hn hthreaded).joins_all (hthreaded.fits hd.row) fun x hx => ?_⟩
  cases allowance with
  | zero => exact hsp.elim
  | succ allowance =>
    obtain ⟨ws, e, rfl, he, hws⟩ := hsp
    obtain ⟨hsettle, hne⟩ := settle_eof he fun w hw => (hws w hw).1
    rw [hsettle] at hs
    obtain ⟨-, rfl⟩ := eq_of_append_eof hs.symm hd.balanced.ne_eof hne he hk
    obtain ⟨us, u, rfl, hu, hstop⟩ := hd.last _ (List.mem_singleton_self _)
    obtain ⟨r, hr⟩ := h.close
    rw [← h.tiled.end_start he] at hr
    obtain ⟨hclose, hsolid⟩ := solid_of_close hr
    have hnext : Threaded cs [u, e] := hthreaded.suffix ⟨us, by simp⟩
    refine ((List.isChain_cons_cons.mp hnext.follows).1 (TokenKind.visible_of_endsOperand hu)
      hsolid).joins hsolid (fun y hy => ?_) (hx.trans hstop)
    rw [hclose] at hy
    cases hy
    decide

/-! ### All phrases -/

/-- The node over nodes about which all is said. -/
lemma spaces_over {kind : Kind} {place : Place} {stop : Nat} {fields : FieldTable}
    {value : Option String} (h : ∀ c ∈ ns, ∀ x ∈ c.walk, x.Spaces cs)
    (hk : kind ∉ [.matrixRow, .lastRow, .bracketed, .snippet, .call] := by decide) :
    ∀ x ∈ (spanning kind place stop ns fields value).walk, x.Spaces cs :=
  (forall_mem_walk _).mpr ⟨.of_kind hk, h⟩

/-- A piece of a string that holds no expression. -/
lemma spaces_plainSegment {P : List Token → Prop} {seg : Segment Token}
    {segs : List (Segment Token)} {w : List Char} (hf : ∀ tokens, seg.form ≠ .snippet tokens)
    (h : Parts P (seg :: segs) w) : ∀ x ∈ (plainSegment seg).walk, x.Spaces cs := by
  cases h with
  | chars form | escape form | octal form =>
    rw [plainSegment, form]
    exact spaces_over (by simp)
  | unicode form =>
    rw [plainSegment, form]
    refine spaces_over (List.forall_mem_singleton.mpr ((forall_mem_walk _).mpr ⟨?_, by simp⟩))
    exact .of_kind (show Kind.hexDigits ∉ _ by decide)
  | snippet form => exact absurd form (hf _)

/-- The leaf of `break` or `cont`. -/
lemma spaces_loopControl (h : t.Sits cs) (hk : t.kind = .kwBreak ∨ t.kind = .kwCont) :
    ∀ x ∈ (leaf (.ofName t.value) t).walk, x.Spaces cs := by
  obtain ⟨m, hm⟩ := h.spelled (by rcases hk with hk | hk <;> rw [hk] <;> decide)
  rcases hk with hk | hk
  · have hv : t.value = "break" := hm.spelling (by rw [hk]; rfl)
    exact spaces_leaf (by rw [hv]; decide)
  · have hv : t.value = "cont" := hm.spelling (by rw [hk]; rfl)
    exact spaces_leaf (by rw [hv]; decide)

/-- What the nodes of a phrase fulfil where its tokens and those behind it follow each
other in the text. Operators go on from a node that ends with the token `u`. -/
def Phrase.Minds (cs : List Char) (ts k : List Token) (ns : List Node) : Phrase → Prop
  | .expression _ m | .unary m | .primary m | .name m =>
    Threaded cs (ts ++ k) → ∀ n ∈ ns, n.Fine cs m
  | .operators _ m lhs => ∀ u : Token, Threaded cs (u :: (ts ++ k)) → u.kind.visible = true →
    lhs.stop = u.stop → lhs.Fits cs → lhs.Fine cs m → ∀ n ∈ ns, n.Fine cs m
  | .suffixes operand => ∀ (m : Bool) (u : Token), Threaded cs (u :: (ts ++ k)) →
    u.kind.visible = true → operand.stop = u.stop → operand.Fits cs → operand.Fine cs m →
    ∀ n ∈ ns, n.Fine cs m
  | .members _ => True
  | .argument form => Threaded cs (ts ++ k) → headKind k = .comma ∨ headKind k = .rightParen →
    ∀ n ∈ ns, n.Argument cs form
  | .arguments form => Threaded cs (ts ++ k) → ∀ n ∈ ns, n.Argument cs form
  | .elements => Threaded cs (ts ++ k) → (∀ n ∈ ns, n.Fine cs true) ∧ ns.IsChain (Neighbours cs)
  | .segments segs => ∀ allowance w, Parts (SnippetSpelled allowance) segs w →
    (∀ seg ∈ segs, ∀ us, seg.form = .snippet us → SnippetIn cs seg us) →
    ∀ n ∈ ns, ∀ x ∈ n.walk, x.Spaces cs
  | _ => Threaded cs (ts ++ k) → ∀ n ∈ ns, ∀ x ∈ n.walk, x.Spaces cs

/-- White space separates the elements of rows and means nothing elsewhere, in whatever
expressions the grammar derives. -/
lemma Derives.minds_expression (h : Derives a p ts k ns) (hp : p.holdsStatements = false) :
    p.Minds cs ts k ns := by
  induction h with
  | @expression _ _ _ ts us k _ _ hl _ ihl iho =>
    intro hs
    rw [List.append_assoc] at hs
    obtain ⟨vs, u, rfl, hu, hstop⟩ := hl.last _ (List.mem_singleton_self _)
    exact iho rfl u (hs.suffix ⟨vs, by simp⟩) (TokenKind.visible_of_endsOperand hu) hstop
      (hs.fits hl.row) (ihl rfl hs _ (List.mem_singleton_self _))
  | @unaryPlain _ m ts us k _ _ hl _ ihl iho =>
    intro hs
    rw [List.append_assoc] at hs
    obtain ⟨vs, u, rfl, hu, hstop⟩ := hl.last _ (List.mem_singleton_self _)
    exact iho rfl m u (hs.suffix ⟨vs, by simp⟩) (TokenKind.visible_of_endsOperand hu) hstop
      (hs.fits hl.row) (ihl rfl hs _ (List.mem_singleton_self _))
  | operatorsEnd =>
    exact fun _ _ _ _ _ hlhs => List.forall_mem_singleton.mpr hlhs
  | @operatorsMore _ least m op ts us k lhs rhs _ level assoc hop hahead hr _ _ ihr iho =>
    intro u hs hu hstop hfits hlhs
    have hs : Threaded cs (u :: op :: (ts ++ (us ++ k))) := by simpa using hs
    have hrest : Threaded cs (ts ++ (us ++ k)) := hs.suffix ⟨[u, op], rfl⟩
    have htight : m = true → (binaryNode lhs op rhs).Tight cs := by
      rintro rfl
      exact hr.tight_operator hs hu hop (by rwa [List.append_assoc] at hahead)
    have hrhs := ihr rfl hrest _ (List.mem_singleton_self _)
    have hnode := hlhs.binary hrhs hfits (hrest.fits hr.row) hs hu hstop hop htight
    have hbinary := hs.fits_binary hfits hstop (by rw [hop]; rfl) hr.row
    obtain ⟨vs, v, rfl, hv, hvstop⟩ := hr.last _ (List.mem_singleton_self _)
    exact iho rfl v (hrest.suffix ⟨vs, by simp⟩) (TokenKind.visible_of_endsOperand hv) hvstop
      hbinary hnode
  | @unaryPrefix _ _ op ts k _ _ hd ih =>
    intro hs
    have hmore : Threaded cs (ts ++ k) := hs.suffix (List.suffix_cons op _)
    exact List.forall_mem_singleton.mpr
      ((ih rfl hmore _ (List.mem_singleton_self _)).prefixOp (hmore.fits hd.row))
  | suffixesEnd =>
    exact fun _ _ _ _ _ _ hoperand => List.forall_mem_singleton.mpr hoperand
  | @suffixesMore _ op ts k operand _ hop _ _ ih =>
    intro m u hs hu hstop hfits hoperand
    have hsuffix : op.kind.isSuffix = true := (Bool.and_eq_true _ _ ▸ hop).1
    have hvisible := (TokenKind.visible_of_suffix hsuffix).1
    exact ih rfl m op (hs.suffix (List.suffix_cons u _)) hvisible rfl
      (hs.fits_suffix hfits hstop hsuffix)
      (hoperand.suffixOp hfits hs hu hstop hsuffix)
  | @matrix _ _ opener closer ts k ns _ _ _ ih =>
    intro hs
    have hmore : Threaded cs (ts ++ closer :: k) := hs.suffix ⟨[opener], by simp⟩
    exact List.forall_mem_singleton.mpr
      (.of_shuts rfl (show Kind.matrix ∉ _ by decide) (spaces_over (ih rfl hmore)))
  | @bracketed _ _ opener closer ts k _ _ hd hc ih =>
    intro hs
    have hmore : Threaded cs (ts ++ closer :: k) := hs.suffix ⟨[opener], by simp⟩
    have hfine := ih rfl hmore _ (List.mem_singleton_self _)
    exact List.forall_mem_singleton.mpr (.of_shuts rfl (show Kind.bracketed ∉ _ by decide)
      (.around (.inl rfl) hfine (hd.joins_all hmore hfine (.inr hc))))
  | plainName _ _ ih => exact ih rfl
  | @call _ m opener closer ts us vs k _ xs ys hn ho _ _ hc ihn ihx ihy =>
    intro hs
    have hs : Threaded cs (ts ++ opener :: (us ++ (vs ++ closer :: k))) := by simpa using hs
    obtain ⟨ws, u, rfl, hu, hstop⟩ := hn.last _ (List.mem_singleton_self _)
    have hkind : opener.kind = .leftParen ∧ (m = true → opener.spaced = false) := by
      simp only [callAhead, headKind_cons, headSpaced, Bool.and_eq_true, beq_iff_eq,
        Bool.not_eq_true', Bool.and_eq_false_iff] at ho
      exact ⟨ho.1, fun hm => ho.2.resolve_left (by rw [hm]; decide)⟩
    have hnext : Threaded cs (u :: opener :: (us ++ (vs ++ closer :: k))) := hs.suffix ⟨ws, by simp⟩
    exact List.forall_mem_singleton.mpr ((ihn rfl hs _ (List.mem_singleton_self _)).call
      (hs.fits hn.row) hnext (TokenKind.visible_of_endsOperand hu) hstop hkind.1 hkind.2
      (ihx rfl (hnext.suffix ⟨[u, opener], by simp⟩))
      (ihy rfl (hnext.suffix ⟨u :: opener :: us, by simp⟩)))
  | @rangeOfTwo _ _ x d y k hx hd hy _ =>
    intro hs
    have hall : Threaded cs (x :: d :: y :: k) := hs
    refine List.forall_mem_singleton.mpr (.of_leaves .number (.inl rfl)
      (show Kind.range ∈ _ by decide) ?_ fun _ => .of_kind (show Kind.range ∉ _ by decide))
    refine List.forall_mem_cons.mpr ⟨⟨x, rfl, fun _ => ?_⟩,
      List.forall_mem_singleton.mpr ⟨y, rfl, fun hlt => absurd hlt (Nat.lt_irrefl _)⟩⟩
    exact hall.joins (by rw [hx]; rfl) (by rw [hd]; rfl) (by rw [hd]; decide) rfl
  | @rangeOfThree _ _ x d y e z k hx hd hy he hz _ =>
    intro hs
    have hall : Threaded cs (x :: d :: y :: e :: z :: k) := hs
    have hmore : Threaded cs (y :: e :: z :: k) := hs.suffix ⟨[x, d], rfl⟩
    refine List.forall_mem_singleton.mpr (.of_leaves .number (.inl rfl)
      (show Kind.range ∈ _ by decide) ?_ fun _ => .of_kind (show Kind.range ∉ _ by decide))
    refine List.forall_mem_cons.mpr ⟨⟨x, rfl, fun _ => ?_⟩, List.forall_mem_cons.mpr
      ⟨⟨y, rfl, fun _ => ?_⟩,
        List.forall_mem_singleton.mpr ⟨z, rfl, fun hlt => absurd hlt (Nat.lt_irrefl _)⟩⟩⟩
    · exact hall.joins (by rw [hx]; rfl) (by rw [hd]; rfl) (by rw [hd]; decide) rfl
    · exact hmore.joins (by rw [hy]; rfl) (by rw [he]; rfl) (by rw [he]; decide) rfl
  | number =>
    exact fun _ => List.forall_mem_singleton.mpr (.of_leaves .number (.inl rfl)
      (show Kind.number ∈ _ by decide) (fun _ hc => (List.not_mem_nil hc).elim)
      fun _ => .of_kind (show Kind.number ∉ _ by decide))
  | percentage =>
    exact fun _ => List.forall_mem_singleton.mpr (.of_leaves .number (.inl rfl)
      (show Kind.percentage ∈ _ by decide) (fun _ hc => (List.not_mem_nil hc).elim)
      fun _ => .of_kind (show Kind.percentage ∉ _ by decide))
  | @string _ _ t k ns ht _ ih =>
    intro hs
    have hsits := hs.sits List.mem_cons_self
    obtain ⟨n, hn⟩ := hsits.spelled (by rw [ht]; decide)
    obtain ⟨w, -, hw⟩ := Spells.parts (by rw [← ht]; exact hn)
    have hends := hs.ends t List.mem_cons_self
    refine List.forall_mem_singleton.mpr (.of_shuts rfl (show Kind.string ∉ _ by decide)
      (spaces_over (ih rfl n w hw fun seg hseg us hf => ⟨hsits.snippets seg hseg us hf, ?_, ?_⟩)))
    · intro x hx u hu
      refine hends u ?_
      rw [Token.walk_eq]
      refine List.mem_cons_of_mem _ (List.mem_flatMap.mpr ⟨x, ?_, hu⟩)
      exact List.mem_flatMap.mpr ⟨seg, hseg, by rw [Segment.snippetTokens, hf]; exact hx⟩
    · exact (hends t (by rw [Token.walk_eq]; exact List.mem_cons_self)).snippets seg hseg us hf
  | name ht hd =>
    exact fun hs => List.forall_mem_singleton.mpr (hd.fine_name hs ht)
  | membersEnd | membersMore => trivial
  -- arguments
  | argumentValue hd _ ih =>
    intro hs hk
    have hfine := ih rfl hs _ (List.mem_singleton_self _)
    exact List.forall_mem_singleton.mpr
      ⟨hfine.spaces, fun _ => hd.joins_all hs hfine hk, by rintro ⟨⟩⟩
  | argumentName =>
    exact fun _ _ => List.forall_mem_singleton.mpr
      ⟨spaces_leaf (by decide), by rintro ⟨⟩, by rintro ⟨⟩⟩
  | @argumentKeyword _ t e ts k n _ _ hd ih =>
    intro hs hk
    have hmore : Threaded cs (ts ++ k) := hs.suffix ⟨[t, e], rfl⟩
    have hfine := ih rfl hmore _ (List.mem_singleton_self _)
    have hvalue : (keywordNode t (lastStop ts) n).labelled .argumentValue = [n] := rfl
    refine List.forall_mem_singleton.mpr ⟨spaces_over (List.forall_mem_cons.mpr
      ⟨spaces_leaf (by decide), List.forall_mem_singleton.mpr hfine.spaces⟩), by rintro ⟨⟩, ?_⟩
    rintro -
    rw [hvalue, List.forall_mem_singleton]
    exact hd.joins_all hmore hfine hk
  | argumentsEnd => simp [Phrase.Minds]
  | argumentsLast _ hk ih => exact fun hs => ih rfl hs (.inr hk)
  | @argumentsMore _ _ c ts us k _ _ _ hc _ _ ih ihs =>
    intro hs
    have hs : Threaded cs (ts ++ c :: (us ++ k)) := by simpa using hs
    exact List.forall_mem_cons.mpr ⟨ih rfl hs (.inl hc) _ (List.mem_singleton_self _),
      ihs rfl (hs.suffix ⟨ts ++ [c], by simp⟩)⟩
  -- matrices
  | elementsEnd => exact fun _ => ⟨by simp, .nil⟩
  | @elementsMore _ ts us k n ns hd _ hds ih ihs =>
    intro hs
    rw [List.append_assoc] at hs
    obtain ⟨hfine, hchain⟩ := ihs rfl (hs.suffix (List.suffix_append ts _))
    refine ⟨List.forall_mem_cons.mpr ⟨ih rfl hs _ (List.mem_singleton_self _), hfine⟩, ?_⟩
    cases ns with
    | nil => exact .singleton n
    | cons y ns => exact .cons_cons (hd.neighbours hds hs) hchain
  | @elementsComma _ c ts us k n ns hd hc hds ih ihs =>
    intro hs
    have hs : Threaded cs (ts ++ c :: (us ++ k)) := by simpa using hs
    obtain ⟨hfine, hchain⟩ := ihs rfl (hs.suffix ⟨ts ++ [c], by simp⟩)
    refine ⟨List.forall_mem_cons.mpr ⟨ih rfl hs _ (List.mem_singleton_self _), hfine⟩, ?_⟩
    cases ns with
    | nil => exact .singleton n
    | cons y ns => exact .cons_cons (hd.neighbours_comma hc hds hs) hchain
  | rowsLast _ _ _ ih =>
    intro hs
    obtain ⟨hfine, hchain⟩ := ih rfl hs
    exact List.forall_mem_singleton.mpr (.row (.inr rfl) hfine hchain)
  | @rowsMore _ t c ts us k _ _ _ _ _ _ ih ihs =>
    intro hs
    have hs : Threaded cs ((t :: ts) ++ c :: (us ++ k)) := by simpa using hs
    obtain ⟨hfine, hchain⟩ := ih rfl hs
    exact List.forall_mem_cons.mpr ⟨.row (.inl rfl) hfine hchain,
      ihs rfl (hs.suffix ⟨t :: ts ++ [c], by simp⟩)⟩
  -- strings
  | segmentsNil => simp [Phrase.Minds]
  | segmentsPlain hf _ ih =>
    intro allowance w hw hin
    obtain ⟨v, hv⟩ := hw.tail
    exact List.forall_mem_cons.mpr ⟨spaces_plainSegment hf hw,
      ih rfl allowance v hv (List.forall_mem_cons.mp hin).2⟩
  | segmentsSnippet hf hs he hk _ ihe ih =>
    intro allowance w hw hin
    obtain ⟨v, hv⟩ := hw.tail
    obtain ⟨hfirst, hin⟩ := List.forall_mem_cons.mp hin
    obtain ⟨hfine, hjoins⟩ := (hfirst _ hf).joins (hw.tokens List.mem_cons_self hf) hs he hk
      fun hthreaded => ihe rfl hthreaded _ (List.mem_singleton_self _)
    exact List.forall_mem_cons.mpr ⟨.around (.inr rfl) hfine hjoins, ih rfl allowance v hv hin⟩
  | _ => cases hp

/-- An expression of a statement. -/
lemma Derives.spaces {least : Nat} (h : Derives a (.expression least m) ts k [n])
    (hs : Threaded cs (ts ++ k)) : ∀ x ∈ n.walk, x.Spaces cs :=
  (h.minds_expression rfl hs _ (List.mem_singleton_self _)).spaces

/-- Statements hold expressions that are written like that. -/
lemma Derives.minds_statement (h : Derives a p ts k ns) (hp : p.holdsStatements = true) :
    p.Minds cs ts k ns := by
  induction h with
  -- statements of one token, and simple ones
  | comment | exit => exact fun _ => List.forall_mem_singleton.mpr (spaces_leaf (by decide))
  | loopControl ht =>
    exact fun hs => List.forall_mem_singleton.mpr
      (spaces_loopControl (hs.sits List.mem_cons_self) ht)
  | symbolDeclaration =>
    exact fun _ => List.forall_mem_singleton.mpr
      (spaces_over (List.forall_mem_singleton.mpr (spaces_leaf (by decide))))
  | @importStatement _ _ t _ _ _ _ h =>
    intro hs
    have hfine := h.minds_expression rfl (hs.suffix (List.suffix_cons t _)) _
      (List.mem_singleton_self _)
    exact List.forall_mem_singleton.mpr (spaces_over (List.forall_mem_singleton.mpr hfine.spaces))
  | @returnStatement _ _ t _ _ _ _ h =>
    intro hs
    have hspaces := h.spaces (hs.suffix (List.suffix_cons t _))
    exact List.forall_mem_singleton.mpr (spaces_over (List.forall_mem_singleton.mpr hspaces))
  | @assignment _ _ x e _ _ _ _ _ _ _ h =>
    intro hs
    have hspaces := h.spaces (hs.suffix ⟨[x, e], by simp⟩)
    exact List.forall_mem_singleton.mpr (spaces_over (List.forall_mem_cons.mpr
      ⟨spaces_leaf (by decide), List.forall_mem_singleton.mpr hspaces⟩))
  | expressionStatement h =>
    intro hs
    rw [List.append_assoc] at hs
    exact List.forall_mem_singleton.mpr
      (spaces_over (List.forall_mem_singleton.mpr (h.spaces hs)))
  -- statements with blocks
  | @ifStatement _ _ t ts us vs k _ _ _ _ h _ _ _ ihb ihc =>
    intro hs
    have hs : Threaded cs (t :: (ts ++ (us ++ (vs ++ k)))) := by simpa using hs
    have hspaces := h.spaces (hs.suffix (List.suffix_cons t _))
    have hbody := ihb rfl (hs.suffix ⟨t :: ts, by simp⟩) _ (List.mem_singleton_self _)
    have hclauses := ihc rfl (hs.suffix ⟨t :: ts ++ us, by simp⟩)
    exact List.forall_mem_singleton.mpr (spaces_over (List.forall_mem_cons.mpr
      ⟨hspaces, List.forall_mem_cons.mpr ⟨hbody, hclauses⟩⟩))
  | @whileLoop _ _ t ts us k _ _ _ h _ _ ihb =>
    intro hs
    have hs : Threaded cs (t :: (ts ++ (us ++ k))) := by simpa using hs
    have hspaces := h.spaces (hs.suffix (List.suffix_cons t _))
    have hbody := ihb rfl (hs.suffix ⟨t :: ts, by simp⟩)
    exact List.forall_mem_singleton.mpr (spaces_over (List.forall_mem_cons.mpr ⟨hspaces, hbody⟩))
  | @forLoop _ _ t x i ts us k _ _ _ _ _ h _ _ ihb =>
    intro hs
    have hs : Threaded cs (t :: x :: i :: (ts ++ (us ++ k))) := by simpa using hs
    have hspaces := h.spaces (hs.suffix ⟨[t, x, i], by simp⟩)
    have hbody := ihb rfl (hs.suffix ⟨t :: x :: i :: ts, by simp⟩)
    exact List.forall_mem_singleton.mpr (spaces_over (List.forall_mem_cons.mpr
      ⟨spaces_leaf (by decide), List.forall_mem_cons.mpr ⟨hspaces, hbody⟩⟩))
  | @functionDefinition _ _ t x opener closer ls us vs ws k xs ys _ _ _ _ _ hx hy _ _ _ _ ihb =>
    intro hs
    have hs : Threaded cs (t :: x :: opener :: (ls ++ (us ++ (vs ++ closer :: (ws ++ k))))) := by
      simpa using hs
    have hxs := hx.minds_expression rfl (hs.suffix ⟨t :: x :: opener :: ls, by simp⟩)
    have hys := hy.minds_expression rfl (hs.suffix ⟨t :: x :: opener :: (ls ++ us), by simp⟩)
    have hbody := ihb rfl
      (hs.suffix ⟨t :: x :: opener :: (ls ++ (us ++ (vs ++ [closer]))), by simp⟩)
    exact List.forall_mem_singleton.mpr (spaces_over (List.forall_mem_cons.mpr
      ⟨spaces_leaf (by decide), List.forall_mem_cons.mpr
        ⟨spaces_over fun n hn => (hxs n hn).spaces, List.forall_mem_cons.mpr
          ⟨spaces_over fun n hn => (hys n hn).spaces, hbody⟩⟩⟩))
  -- blocks and sequences
  | @block _ _ opener closer ts k _ _ _ _ ih =>
    intro hs
    exact List.forall_mem_singleton.mpr (spaces_over (ih rfl (hs.suffix ⟨[opener], by simp⟩)))
  | clausesEnd | statementsEnd => simp [Phrase.Minds]
  | @clausesElseif _ _ t ls ts us vs k _ _ _ _ _ h _ _ _ ihb ihc =>
    intro hs
    have hs : Threaded cs (ls ++ t :: (ts ++ (us ++ (vs ++ k)))) := by simpa using hs
    have hspaces := h.spaces (hs.suffix ⟨ls ++ [t], by simp⟩)
    have hbody := ihb rfl (hs.suffix ⟨ls ++ t :: ts, by simp⟩)
    have hclauses := ihc rfl (hs.suffix ⟨ls ++ t :: (ts ++ us), by simp⟩)
    exact List.forall_mem_cons.mpr ⟨spaces_over (List.forall_mem_cons.mpr ⟨hspaces, hbody⟩),
      hclauses⟩
  | @clausesElse _ _ t ls us vs k _ _ _ _ _ _ ihb ihc =>
    intro hs
    have hs : Threaded cs (ls ++ t :: (us ++ (vs ++ k))) := by simpa using hs
    have hbody := ihb rfl (hs.suffix ⟨ls ++ [t], by simp⟩)
    exact List.forall_mem_cons.mpr ⟨spaces_over hbody, ihc rfl (hs.suffix ⟨ls ++ t :: us, by simp⟩)⟩
  | @statementsSeparator _ _ _ t _ _ _ _ _ ih =>
    exact fun hs => ih rfl (hs.suffix (List.suffix_cons t _))
  | @statementsMore _ _ _ ts us k _ _ _ _ ih ihs =>
    intro hs
    rw [List.append_assoc] at hs
    exact List.forall_mem_cons.mpr ⟨ih rfl hs _ (List.mem_singleton_self _),
      ihs rfl (hs.suffix (List.suffix_append ts _))⟩
  | _ => cases hp

end StpLang
