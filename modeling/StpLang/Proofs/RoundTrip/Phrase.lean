import StpLang.Proofs.Demand
import StpLang.Proofs.RoundTrip.WellFormed

/-!
Tokens that form a given expression.

An expression is derived from its tokens whatever stands before them, as long as
what follows does not carry it on. Suffixes behind an operand and operators behind
an expression are left to what follows, so that the tokens of a longer expression
are those of its parts, one after another.

* `Ends` says that tokens do not carry an expression on.
* `OperandOf`, `TermOf` and `PhraseOf` say that tokens form an operand, a term or
  an expression with the structure of a given node.
* `OperandOf.suffix`, `TermOf.prefixed` and `PhraseOf.binary` put operators to
  their operands.
-/

namespace StpLang

open Grammar

/-! ### Structure -/

namespace Node

variable {n m : Node} {ns ms : List Node} {kind : Kind} {p : Place} {q : Nat}
  {value : Option String} {w : String}

@[simp] lemma allAgree_nil (places : Bool) : allAgree places [] [] = true := by rw [allAgree]

@[simp] lemma allAgree_cons (places : Bool) :
    allAgree places (n :: ns) (m :: ms) = (agrees places n m && allAgree places ns ms) := by
  rw [allAgree]

lemma Has.height_eq (h : n.Has kind ns value) : n.height = 1 + maxHeight ns := by
  rw [Node.height_eq, h.children]

/-- A node of the same kind with the same labels and text has the same structure
when the children do. -/
lemma Has.same (h : n.Has kind ns value) {fields : FieldTable}
    (hf : kind.labels ns.length = fields) (hc : allAgree false ns ms = true) :
    n.sameStructure (spanning kind p q ms fields value) = true := by
  obtain ⟨hk, hns, hfields, hv⟩ := h
  obtain ⟨k, v, l, c, i, j, cs, fs⟩ := n
  dsimp only at hk hns hfields hv
  subst hf hk hns hfields hv
  simp [sameStructure, spanning, agrees, hc, Kind.same_labels]

/-- A leaf has the structure of a token with its text. -/
lemma Has.leaf {t : Token} (h : n.Has kind [] (some w)) (hf : kind.labels 0 = [])
    (ht : t.value = w) : n.sameStructure (.leaf kind t) = true := by
  subst ht
  exact h.same (p := t.place) (q := t.stop) hf (allAgree_nil _)

mutual

/-- Nodes with the same structure have the same number of levels. -/
lemma height_of_agrees {places : Bool} : (n m : Node) → agrees places n m = true →
    n.height = m.height
  | ⟨_, _, _, _, _, _, cs, _⟩, ⟨_, _, _, _, _, _, ds, _⟩, h => by
    rw [agrees, Bool.and_eq_true] at h
    rw [height, height, maxHeight_of_allAgree cs ds h.2]

lemma maxHeight_of_allAgree {places : Bool} : (ns ms : List Node) →
    allAgree places ns ms = true → maxHeight ns = maxHeight ms
  | [], [], _ => rfl
  | n :: ns, m :: ms, h => by
    rw [allAgree, Bool.and_eq_true] at h
    rw [maxHeight, maxHeight, height_of_agrees n m h.1, maxHeight_of_allAgree ns ms h.2]
  | [], _ :: _, h | _ :: _, [], h => by
    rw [allAgree] at h
    cases h

end

/-- Lists that agree are equally long. -/
lemma length_of_allAgree {places : Bool} : {ns ms : List Node} → allAgree places ns ms = true →
    ns.length = ms.length
  | [], [], _ => rfl
  | n :: ns, m :: ms, h => by
    rw [allAgree, Bool.and_eq_true] at h
    rw [List.length_cons, List.length_cons, length_of_allAgree h.2]
  | [], _ :: _, h | _ :: _, [], h => by
    rw [allAgree] at h
    cases h

/-- An expression binds like a binary operator or more tightly than all. -/
lemma binding_or (n : Node) :
    n.binding = (5, .left) ∨ ∃ kind, TokenKind.binary? kind = some n.binding := by
  unfold binding
  split
  · rename_i op _ _ _
    cases hb : op.operator?.bind TokenKind.binary? with
    | none => exact .inl rfl
    | some binding =>
      obtain ⟨kind, -, hb⟩ := Option.bind_eq_some_iff.mp hb
      exact .inr ⟨kind, hb⟩
  · exact .inl rfl

end Node

/-! ### What follows an expression -/

/-- The tokens do not carry an operand on. -/
structure Follows (m : Bool) (k : List Token) : Prop where
  dot : dotAhead m k = false
  call : callAhead m k = false
  ellipsis : headKind k ≠ .ellipsis

/-- The tokens do not carry an expression on, where operators of level `least` and
above would. -/
structure Ends (least : Nat) (m : Bool) (k : List Token) : Prop extends Follows m k where
  suffix : suffixAhead k = false
  operator : operatorAhead least m k = false

/-- The kinds of tokens that do not carry an expression on. -/
def endsPhrase : TokenKind → Bool
  | .rightParen | .rightBracket | .leftBrace | .comma | .semicolon | .newline | .eof => true
  | _ => false

section

variable {least least' : Nat} {m : Bool} {k : List Token} {t : Token}

lemma ends_of_headKind (h : endsPhrase (headKind k) = true) : Ends least m k := by
  have hkinds : headKind k ≠ .dot ∧ headKind k ≠ .leftParen ∧ headKind k ≠ .ellipsis
      ∧ (headKind k).isSuffix = false ∧ (headKind k).binary? = none := by
    generalize headKind k = kind at h
    cases kind <;> first | decide | cases h
  obtain ⟨hdot, hparen, hellipsis, hsuffix, hbinary⟩ := hkinds
  refine ⟨⟨?_, ?_, hellipsis⟩, ?_, ?_⟩
  · rw [dotAhead, beq_false_of_ne hdot, Bool.false_and]
  · rw [callAhead, beq_false_of_ne hparen, Bool.false_and]
  · rw [suffixAhead, hsuffix, Bool.false_and]
  · rw [operatorAhead, hbinary]

lemma operatorAhead_mono (h : operatorAhead least m k = false) (hle : least ≤ least') :
    operatorAhead least' m k = false := by
  unfold operatorAhead at h ⊢
  cases hb : (headKind k).binary? with
  | none => rfl
  | some binding =>
    obtain ⟨level, assoc⟩ := binding
    rw [hb] at h
    simp only [Bool.not_eq_eq_eq_not, Bool.not_false, Bool.or_eq_true, decide_eq_true_eq] at h ⊢
    exact h.imp_left fun h => Nat.lt_of_lt_of_le h hle

lemma TokenKind.level_le {kind : TokenKind} {level : Nat} {assoc : Assoc}
    (h : kind.binary? = some (level, assoc)) : 1 ≤ level ∧ level ≤ 4 := by
  cases kind <;> simp only [binary?, reduceCtorEq, Option.some.injEq, Prod.mk.injEq] at h <;> omega

/-- A binary operator carries on what binds less tightly only. -/
lemma follows_of_binary {binding : Nat × Assoc} (hb : t.kind.binary? = some binding) :
    Follows m (t :: k) ∧ suffixAhead (t :: k) = false := by
  have hkinds : t.kind ≠ .dot ∧ t.kind ≠ .leftParen ∧ t.kind ≠ .ellipsis
      ∧ t.kind.isSuffix = false := by
    generalize t.kind = kind at hb
    cases kind <;> first | decide | cases hb
  obtain ⟨hdot, hparen, hellipsis, hsuffix⟩ := hkinds
  refine ⟨⟨?_, ?_, hellipsis⟩, ?_⟩
  · rw [dotAhead, headKind_cons, beq_false_of_ne hdot, Bool.false_and]
  · rw [callAhead, headKind_cons, beq_false_of_ne hparen, Bool.false_and]
  · rw [suffixAhead, headKind_cons, hsuffix, Bool.false_and]

lemma follows_of_suffix (h : t.kind.isSuffix = true) : Follows m (t :: k) := by
  have hkinds : t.kind ≠ .dot ∧ t.kind ≠ .leftParen ∧ t.kind ≠ .ellipsis := by
    generalize t.kind = kind at h
    cases kind <;> first | decide | cases h
  obtain ⟨hdot, hparen, hellipsis⟩ := hkinds
  refine ⟨?_, ?_, hellipsis⟩
  · rw [dotAhead, headKind_cons, beq_false_of_ne hdot, Bool.false_and]
  · rw [callAhead, headKind_cons, beq_false_of_ne hparen, Bool.false_and]

end

/-! ### Tokens of an expression -/

/-- The tokens form an operand with the structure of `e`, and suffixes may
follow. -/
def OperandOf (e : Node) (us : List Token) : Prop :=
  ∃ e', e.sameStructure e' = true ∧ ∀ {a : Nat} {m : Bool} {vs k : List Token} {r : Node},
    e.demand ≤ a → Follows m (vs ++ k) → (e.kind = .number → percentAhead (vs ++ k) = false) →
      Derives a (.suffixes e') vs k [r] → Derives a (.unary m) (us ++ vs) k [r]

/-- The tokens form a term with the structure of `e`. -/
def TermOf (e : Node) (us : List Token) : Prop :=
  ∃ e', e.sameStructure e' = true ∧ ∀ {a : Nat} {m : Bool} {k : List Token},
    e.demand ≤ a → Follows m k → suffixAhead k = false → Derives a (.unary m) us k [e']

/-- The tokens form an expression with the structure of `e`, and operators may
follow that do not go to its last operand. -/
def PhraseOf (e : Node) (us : List Token) : Prop :=
  ∃ e', e.sameStructure e' = true ∧
    ∀ {a least : Nat} {m : Bool} {vs k : List Token} {r : Node},
      e.demand ≤ a → least ≤ e.level → Ends e.reach m (vs ++ k) →
        Derives (a + 1) (.operators least m e') vs k [r] →
          Derives (a + 1) (.expression least m) (us ++ vs) k [r]

section

variable {e l o r x : Node} {us vs : List Token} {t : Token}

lemma operandOf (hs : e.sameStructure x = true)
    (h : ∀ {a : Nat} {m : Bool} {k : List Token}, e.demand ≤ a → Follows m k →
      (e.kind = .number → percentAhead k = false) → Derives a (.primary m) us k [x]) :
    OperandOf e us :=
  ⟨x, hs, fun ha hf hp hsuffixes => .unaryPlain (h ha hf hp) hsuffixes⟩

lemma OperandOf.term (h : OperandOf e us) : TermOf e us := by
  obtain ⟨e', hs, h⟩ := h
  refine ⟨e', hs, fun ha hf hsuffix => ?_⟩
  have hpercent {k : List Token} (h : suffixAhead k = false) : percentAhead k = false := by
    rw [suffixAhead, Bool.and_eq_false_imp] at h
    rw [percentAhead, Bool.and_eq_false_imp, beq_iff_eq]
    exact fun hk => h (by rw [hk]; rfl)
  have := @h _ _ [] _ _ ha hf (fun _ => hpercent hsuffix) (.suffixesEnd hsuffix)
  rwa [List.append_nil] at this

lemma TermOf.phrase (h : TermOf e us) : PhraseOf e us := by
  obtain ⟨e', hs, h⟩ := h
  exact ⟨e', hs, fun ha _ hk hoperators => .expression (h ha hk.toFollows hk.suffix) hoperators⟩

lemma Node.one_le_level (e : Node) : 1 ≤ e.level := by
  unfold level
  rcases e.binding_or with h | ⟨kind, h⟩
  · rw [h]
    decide
  · exact (TokenKind.level_le h).1

lemma Node.level_le_reach (e : Node) : e.level ≤ e.reach := by
  unfold level reach rightLevel
  split <;> omega

/-- The tokens form a whole expression. -/
lemma PhraseOf.expression (h : PhraseOf e us) :
    ∃ e', e.sameStructure e' = true ∧ ∀ {a least : Nat} {m : Bool} {k : List Token},
      e.demand ≤ a → least ≤ e.level → Ends least m k →
        Derives (a + 1) (.expression least m) us k [e'] := by
  obtain ⟨e', hs, h⟩ := h
  refine ⟨e', hs, fun ha hl hk => ?_⟩
  have hreach : Ends e.reach _ _ :=
    ⟨hk.toFollows, hk.suffix, operatorAhead_mono hk.operator (Nat.le_trans hl e.level_le_reach)⟩
  have := @h _ _ _ [] _ _ ha hl hreach (.operatorsEnd hk.operator)
  rwa [List.append_nil] at this

/-! ### Operators -/

/-- An operand and a suffix operator. -/
lemma OperandOf.suffix {op : String} (he : e.Has .suffix [x, o] none)
    (ho : o.Has .operator [] (some op)) (h : OperandOf x us) (ht : suffixAhead [t] = true)
    (hv : t.value = op) (hp : x.kind = .number → t.kind ≠ .percent) :
    OperandOf e (us ++ [t]) := by
  obtain ⟨x', hs, h⟩ := h
  have hsame : e.sameStructure (suffixNode x' t) = true := by
    refine he.same rfl ?_
    simp only [Node.allAgree_cons, Node.allAgree_nil, Bool.and_true, Bool.and_eq_true]
    exact ⟨hs, ho.leaf rfl hv⟩
  have hkind : t.kind.isSuffix = true := by
    rw [suffixAhead, Bool.and_eq_true] at ht
    exact ht.1
  refine ⟨suffixNode x' t, hsame, fun {a m vs k r} ha hf _ hsuffixes => ?_⟩
  rw [he.demand_eq_height (.inr rfl)] at ha
  have hheight : (suffixNode x' t).height ≤ a := by rwa [← Node.height_of_agrees _ _ hsame]
  rw [List.append_assoc]
  refine h ?_ (follows_of_suffix hkind) (fun hk => ?_) (.suffixesMore ht hheight hsuffixes)
  · have hx := x.demand_le_height
    rw [he.height_eq, Node.maxHeight_cons] at ha
    omega
  · rw [percentAhead, List.append_assoc, List.singleton_append, headKind_cons,
      beq_false_of_ne (hp hk), Bool.false_and]

/-- A prefix operator and a term. -/
lemma TermOf.prefixed {op : String} (he : e.Has .unary [o, x] none)
    (ho : o.Has .operator [] (some op)) (h : TermOf x us) (ht : t.kind.isUnary = true)
    (hv : t.value = op) : TermOf e (t :: us) := by
  obtain ⟨x', hs, h⟩ := h
  refine ⟨prefixNode t x', ?_, fun {a m k} ha hf hk => ?_⟩
  · refine he.same rfl ?_
    simp only [Node.allAgree_cons, Node.allAgree_nil, Bool.and_true, Bool.and_eq_true]
    exact ⟨ho.leaf rfl hv, hs⟩
  · rw [show e.demand = Node.toll [o, x] from he.demand_eq, Node.toll_cons, Node.toll_cons] at ha
    obtain ⟨b, rfl⟩ : ∃ b, a = b + 1 := ⟨a - 1, by omega⟩
    exact .unaryPrefix ht (h (by omega) hf hk)

/-- A binary operator with blanks on both sides does not begin an element of a
matrix. -/
lemma operatorAhead_of_binary {k : List Token} {level least : Nat} {assoc : Assoc} {m : Bool}
    (hb : t.kind.binary? = some (level, assoc)) (hs : headSpaced k = true) (hl : least ≤ level) :
    operatorAhead least m (t :: k) = true := by
  have hsign : signAhead (t :: k) = false := by simp [signAhead, hs]
  rw [operatorAhead, headKind_cons, hb]
  simp [hsign, hl]

/-- The operators of the highest level, and no others, group to the right. -/
lemma TokenKind.level_of_assoc {kind : TokenKind} {level : Nat} {assoc : Assoc}
    (h : kind.binary? = some (level, assoc)) : if assoc = .right then level = 4 else level < 4 := by
  cases kind <;> simp only [binary?, reduceCtorEq, Option.some.injEq, Prod.mk.injEq] at h <;>
    obtain ⟨rfl, rfl⟩ := h <;> decide

/-- The left operand leaves an operator of its level to others. -/
lemma level_lt_reach {kind : TokenKind} {level : Nat} {assoc : Assoc}
    (hb : kind.binary? = some (level, assoc)) (h : leftLevel level assoc ≤ l.level) :
    level ≤ l.level ∧ level < l.reach := by
  have hreach := l.level_le_reach
  cases assoc with
  | right =>
    simp only [leftLevel] at h
    omega
  | left =>
    refine ⟨h, ?_⟩
    have hlevel : level < 4 := TokenKind.level_of_assoc hb
    simp only [leftLevel, Node.level] at h
    unfold Node.reach
    have hor := l.binding_or
    generalize l.binding = binding at h hor ⊢
    rcases hor with rfl | ⟨kind', hl⟩
    · show level < 6
      omega
    · obtain ⟨level', assoc'⟩ := binding
      cases assoc' with
      | left => exact Nat.lt_succ_of_le h
      | right =>
        obtain rfl : level' = 4 := TokenKind.level_of_assoc hl
        exact hlevel

/-- How tightly a binary expression binds. -/
lemma Node.Has.binding_eq {op : String} {kind : TokenKind} {binding : Nat × Assoc}
    (he : e.Has .binary [l, o, r] none) (ho : o.Has .operator [] (some op))
    (hop : TokenKind.ofSpelling? op = some kind) (hb : kind.binary? = some binding) :
    e.binding = binding := by
  unfold Node.binding
  rw [he.kind, he.children]
  show (o.operator?.bind TokenKind.binary?).getD _ = _
  rw [Node.operator?, ho.value, Option.bind_some, hop, Option.bind_some, hb, Option.getD_some]

/-- Two expressions and a binary operator between blanks. -/
lemma PhraseOf.binary {op : String} {level : Nat} {assoc : Assoc}
    (he : e.Has .binary [l, o, r] none) (ho : o.Has .operator [] (some op))
    (hl : PhraseOf l us) (hr : PhraseOf r vs) (hvs : headSpaced vs = true)
    (hop : TokenKind.ofSpelling? op = some t.kind) (hv : t.value = op)
    (hb : t.kind.binary? = some (level, assoc)) (hleft : leftLevel level assoc ≤ l.level)
    (hright : rightLevel level assoc ≤ r.level) : PhraseOf e (us ++ t :: vs) := by
  obtain ⟨l', hls, hl⟩ := hl
  obtain ⟨r', hrs, hr⟩ := hr.expression
  have hsame : e.sameStructure (binaryNode l' t r') = true := by
    refine he.same rfl ?_
    simp only [Node.allAgree_cons, Node.allAgree_nil, Bool.and_true, Bool.and_eq_true]
    exact ⟨hls, ho.leaf rfl hv, hrs⟩
  refine ⟨binaryNode l' t r', hsame, fun {a least m ws k n} ha hle hk hoperators => ?_⟩
  have hbinding := he.binding_eq ho hop hb
  rw [Node.level, hbinding] at hle
  rw [Node.reach, hbinding] at hk
  rw [he.demand_eq_height (.inl rfl)] at ha
  have hheight : (binaryNode l' t r').height ≤ a := by rwa [← Node.height_of_agrees _ _ hsame]
  have hldemand := l.demand_le_height
  have hrdemand := r.demand_le_height
  rw [he.height_eq, Node.maxHeight_cons, Node.maxHeight_cons, Node.maxHeight_cons] at ha
  obtain ⟨b, rfl⟩ : ∃ b, a = b + 1 := ⟨a - 1, by omega⟩
  obtain ⟨hlevel, hreach⟩ := level_lt_reach hb hleft
  have hrspaced : headSpaced (vs ++ ws ++ k) = true := by
    cases vs with
    | nil => cases hvs
    | cons v vs => exact hvs
  obtain ⟨hfollows, hsuffix⟩ := follows_of_binary (m := m) (k := vs ++ ws ++ k) hb
  rw [List.append_assoc, List.cons_append]
  refine hl (by omega) (Nat.le_trans hle hlevel) ⟨hfollows, hsuffix, ?_⟩
    (.operatorsMore hb (operatorAhead_of_binary hb hrspaced hle) (hr (by omega) hright hk) hheight
      hoperators)
  rw [List.cons_append, operatorAhead, headKind_cons, hb]
  simp [hreach]

end

end StpLang
