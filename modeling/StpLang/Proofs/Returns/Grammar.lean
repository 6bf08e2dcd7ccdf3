import StpLang.Proofs.Comments
import StpLang.Proofs.Returns.Lex

/-!
Reading corresponding tokens.

The grammar decides by the kinds of the tokens and the white space between them. What
it does not look at is the white space before a line end, except behind a sign in a
matrix, and there no line end stands. So corresponding tokens become corresponding
nodes.

* `Node.Alike` says what corresponding nodes have in common.
* `Clear` says that no line end stands behind a sign.
* `Derives.alike` carries a phrase over to corresponding tokens.
-/

namespace StpLang

open Grammar

/-! ### Corresponding lists -/

section

variable {α : Type} {R : α → α → Prop} {x : α} {l m xs : List α}

lemma exists_append_of_forall₂ (h : List.Forall₂ R (l ++ m) xs) :
    ∃ l' m', xs = l' ++ m' ∧ List.Forall₂ R l l' ∧ List.Forall₂ R m m' := by
  induction l generalizing xs with
  | nil => exact ⟨[], xs, rfl, .nil, h⟩
  | cons x l ih =>
    cases h with
    | cons hx h =>
      obtain ⟨l', m', rfl, hl, hm⟩ := ih h
      exact ⟨_ :: l', m', rfl, .cons hx hl, hm⟩

lemma append_forall₂ {l' m' : List α} (h : List.Forall₂ R l l') (h' : List.Forall₂ R m m') :
    List.Forall₂ R (l ++ m) (l' ++ m') := by
  induction h with
  | nil => exact h'
  | cons hx _ ih => exact .cons hx ih

end

/-! ### Corresponding nodes -/

/-- Corresponding nodes: they agree on everything but the ends of their ranges, and in
plain characters of a string the line ends differ. -/
inductive Node.Alike : Node → Node → Prop
  | mk {n n' : Node} (kind : n'.kind = n.kind)
      (value : n'.value = n.value ∨ n.kind = .chars
        ∧ n'.value = n.value.map fun v => String.ofList (withReturns v.toList))
      (line : n'.line = n.line) (col : n'.col = n.col) (fields : n'.fields = n.fields)
      (children : List.Forall₂ Node.Alike n.children n'.children) : Node.Alike n n'

/-- Corresponding tokens, with `allowance` levels of snippets within them. -/
abbrev TokensAlike (allowance : Nat) : List Token → List Token → Prop :=
  List.Forall₂ (Token.Alike (SnippetsAlike allowance))

/-- Corresponding nodes in a list. -/
abbrev NodesAlike : List Node → List Node → Prop := List.Forall₂ Node.Alike

/-- Two nodes have the same kind and text, line and column. -/
structure Node.Matches (n n' : Node) : Prop where
  kind : n'.kind = n.kind
  value : n'.value = n.value
  line : n'.line = n.line
  col : n'.col = n.col

/-- The same line and column. -/
def Place.Alike (p p' : Place) : Prop := p'.line = p.line ∧ p'.col = p.col

section

variable {Q : List Token → List Token → Prop} {t t' : Token} {kind : TokenKind} {n n' : Node}
  {ns ns' : List Node}

namespace Token.Alike

lemma kind_eq (h : t.Alike Q t') (ht : t.kind = kind) : t'.kind = kind := h.kind.trans ht

lemma place (h : t.Alike Q t') (ht : t.kind = kind) (hk : kind ≠ .newline) :
    t.place.Alike t'.place := ⟨h.line, h.col (by rwa [ht])⟩

lemma leaf (h : t.Alike Q t') (ht : t.kind = kind) (hk : kind ≠ .newline ∧ kind ≠ .string)
    (k : Kind) : (Node.leaf k t).Alike (.leaf k t') := by
  subst ht
  exact ⟨rfl, .inl (congrArg some (h.value hk.2)), h.line, h.col hk.1, rfl, .nil⟩

lemma matches_comment (h : t.Alike Q t') (ht : t.kind = .comment) :
    (Node.leaf .comment t).Matches (.leaf .comment t') := by
  have hk : t.kind ≠ .newline ∧ t.kind ≠ .string := by
    rw [ht]
    decide
  exact ⟨rfl, congrArg some (h.value hk.2), h.line, h.col hk.1⟩

end Token.Alike

namespace Node.Alike

lemma place (h : n.Alike n') : n.place.Alike n'.place := by
  obtain ⟨-, -, hl, hc, -, -⟩ := h
  exact ⟨hl, hc⟩

lemma spanning {p p' : Place} (hp : p.Alike p') (h : NodesAlike ns ns') (kind : Kind)
    (stop stop' : Nat) (fields : FieldTable) (value : Option String) :
    (Node.spanning kind p stop ns fields value).Alike
      (.spanning kind p' stop' ns' fields value) := ⟨rfl, .inl rfl, hp.1, hp.2, rfl, h⟩

lemma height (h : n.Alike n') : n'.height = n.height := by
  induction n using induction_children generalizing n' with
  | h n ih =>
    obtain ⟨-, -, -, -, -, hc⟩ := h
    rw [height_eq, height_eq n]
    congr 1
    revert hc ih
    generalize n.children = cs
    generalize n'.children = cs'
    intro ih hc
    induction hc with
    | nil => rfl
    | cons hx _ ihs =>
      rw [List.forall_mem_cons] at ih
      rw [maxHeight_cons, maxHeight_cons, ih.1 hx, ihs ih.2]

end Node.Alike

end

/-! ### Looking ahead -/

/-- No line end stands behind a sign ahead. -/
def Clear (ts : List Token) : Prop :=
  headKind ts = .plus ∨ headKind ts = .minus → headKind ts.tail ≠ .newline

section

variable {a : Nat} {ts us k : List Token} {ns : List Node} {m : Bool}

lemma clear_of_kind {kind : TokenKind} (h : headKind ts = kind)
    (hk : kind ≠ .plus ∧ kind ≠ .minus) : Clear ts := by
  rintro (hs | hs)
  · exact absurd (h.symm.trans hs) hk.1
  · exact absurd (h.symm.trans hs) hk.2

/-- The tokens with which an expression begins are no line ends. -/
lemma headKind_ne_newline (h : Derives a (.unary m) ts k ns) (l : List Token) :
    headKind (ts ++ l) ≠ .newline := by
  obtain ⟨t, us, rfl, ht⟩ := h.first rfl
  intro hk
  rw [List.cons_append, headKind_cons] at hk
  rw [hk] at ht
  cases ht

lemma Derives.clear_unary (h : Derives a (.unary m) ts k ns) (l : List Token) :
    Clear (ts ++ l) := by
  cases h with
  | unaryPrefix _ h => exact fun _ => headKind_ne_newline h l
  | unaryPlain hp _ =>
    obtain ⟨t, us, rfl, ht⟩ := hp.first rfl
    refine clear_of_kind (headKind_cons t (us ++ l)) ⟨fun hk => ?_, fun hk => ?_⟩ <;>
    · rw [hk] at ht
      cases ht

lemma Derives.clear {least : Nat} (h : Derives a (.expression least m) ts k ns) (l : List Token) :
    Clear (ts ++ l) := by
  cases h with
  | expression hl =>
    rw [List.append_assoc]
    exact hl.clear_unary _

lemma Derives.clear_operators {least : Nat} {lhs : Node}
    (h : Derives a (.operators least m lhs) ts k ns) (hk : Clear k) : Clear (ts ++ k) := by
  cases h with
  | operatorsEnd => exact hk
  | operatorsMore _ _ hr =>
    cases hr with
    | expression hl =>
      rw [List.cons_append, List.append_assoc, List.append_assoc]
      exact fun _ => headKind_ne_newline hl _

/-- The elements of a row and what ends the row. -/
lemma Derives.clear_elements (h : Derives a .elements ts k ns) : Clear (ts ++ k) := by
  cases h with
  | elementsEnd h =>
    rw [List.nil_append]
    refine clear_of_kind rfl ⟨fun hk => ?_, fun hk => ?_⟩ <;>
    · rw [hk] at h
      cases h
  | elementsMore h | elementsComma h =>
    rw [List.append_assoc]
    exact h.clear _

/-- A row does not begin with a line end. -/
lemma Derives.headKind_elements (h : Derives a .elements ts k ns) (hne : ts ≠ []) :
    headKind ts ≠ .newline := by
  cases h with
  | elementsEnd => exact absurd rfl hne
  | elementsMore h | elementsComma h =>
    cases h with
    | expression hl =>
      rw [List.append_assoc]
      exact headKind_ne_newline hl _

end

section

variable {n : Nat} {ts ts' : List Token}

lemma headKind_alike (h : TokensAlike n ts ts') : headKind ts' = headKind ts := by
  cases h with
  | nil => rfl
  | cons h _ => exact h.kind

lemma headSpaced_alike (h : TokensAlike n ts ts') (hk : headKind ts ≠ .newline) :
    headSpaced ts' = headSpaced ts := by
  cases h with
  | nil => rfl
  | cons h _ => exact h.spaced hk

lemma tail_alike (h : TokensAlike n ts ts') : TokensAlike n ts.tail ts'.tail := by
  cases h with
  | nil => exact .nil
  | cons _ h => exact h

/-- A test of the first token that fails before a line end. -/
lemma spacedAhead_alike {p : TokenKind → Bool} (hp : p .newline = false) (b : Bool)
    (h : TokensAlike n ts ts') :
    (p (headKind ts') && !(b && headSpaced ts')) = (p (headKind ts) && !(b && headSpaced ts)) := by
  rw [headKind_alike h]
  by_cases hk : headKind ts = .newline
  · rw [hk, hp, Bool.false_and, Bool.false_and]
  · rw [headSpaced_alike h hk]

lemma suffixAhead_alike (h : TokensAlike n ts ts') : suffixAhead ts' = suffixAhead ts := by
  simpa [suffixAhead] using spacedAhead_alike (p := TokenKind.isSuffix) rfl true h

lemma dotAhead_alike (m : Bool) (h : TokensAlike n ts ts') : dotAhead m ts' = dotAhead m ts :=
  spacedAhead_alike (p := (· == .dot)) rfl m h

lemma callAhead_alike (m : Bool) (h : TokensAlike n ts ts') :
    callAhead m ts' = callAhead m ts :=
  spacedAhead_alike (p := (· == .leftParen)) rfl m h

lemma percentAhead_alike (h : TokensAlike n ts ts') : percentAhead ts' = percentAhead ts := by
  simpa [percentAhead] using spacedAhead_alike (p := (· == .percent)) rfl true h

lemma bindingAhead_alike (h : TokensAlike n ts ts') : bindingAhead ts' = bindingAhead ts := by
  rw [bindingAhead, headKind_alike h, headKind_alike (tail_alike h), bindingAhead]

lemma clauseKind_alike (h : TokensAlike n ts ts') : clauseKind ts' = clauseKind ts := by
  induction h with
  | nil => rfl
  | @cons t t' ts ts' h _ ih =>
    rw [clauseKind, clauseKind, List.dropWhile_cons, List.dropWhile_cons, h.kind]
    split
    · exact ih
    · exact h.kind

lemma clauseAhead_alike (h : TokensAlike n ts ts') : clauseAhead ts' = clauseAhead ts := by
  rw [clauseAhead, clauseKind_alike h, clauseAhead]

lemma signAhead_alike (h : TokensAlike n ts ts') (hc : Clear ts) :
    signAhead ts' = signAhead ts := by
  cases h with
  | nil => rfl
  | @cons t t' ts ts' h hs =>
    by_cases hk : t.kind = .plus ∨ t.kind = .minus
    · have hspaced := h.spaced (by rcases hk with hk | hk <;> rw [hk] <;> decide)
      rw [signAhead, signAhead, h.kind, hspaced, headSpaced_alike hs (hc hk), headKind_alike hs]
    · have hsign : (t.kind == .plus || t.kind == .minus) = false := by simpa using hk
      rw [signAhead, signAhead, h.kind, hsign]
      rfl

lemma operatorAhead_alike (least : Nat) {m : Bool} (h : TokensAlike n ts ts')
    (hc : m = true → Clear ts) : operatorAhead least m ts' = operatorAhead least m ts := by
  rw [operatorAhead, operatorAhead, headKind_alike h]
  cases m with
  | false => rfl
  | true => rw [signAhead_alike h (hc rfl)]

end

/-! ### Preparing the tokens -/

section

variable {n : Nat} {ts ts' : List Token}

/-- A token is set aside, or it is kept, as the corresponding one is. -/
lemma keptToken?_alike {Q : List Token → List Token → Prop} {t t' : Token} (h : t.Alike Q t')
    (depth : Nat) (last : Option TokenKind) :
    (keptToken? depth last t = none ∧ keptToken? depth last t' = none)
      ∨ ∃ u u', keptToken? depth last t = some u ∧ keptToken? depth last t' = some u'
        ∧ u.Alike Q u' := by
  unfold keptToken?
  rw [h.kind]
  split
  · exact .inl ⟨rfl, rfl⟩
  split
  · rename_i hm
    have hk : t.kind = .mod := eq_of_beq (Bool.and_eq_true_iff.mp hm).1
    refine .inr ⟨_, _, rfl, rfl, rfl, fun _ => ?_, h.line, fun _ => ?_, fun _ => ?_, h.segments⟩
    · exact h.value (by rw [hk]; decide)
    · exact h.col (by rw [hk]; decide)
    · exact h.spaced (by rw [hk]; decide)
  · exact .inr ⟨t, t', rfl, rfl, h⟩

/-- Corresponding tokens are prepared alike. -/
lemma settle_alike (h : TokensAlike n ts ts') (depth : Nat) (last : Option TokenKind) :
    TokensAlike n (Parser.settle depth last ts).1 (Parser.settle depth last ts').1
      ∧ List.Forall₂ Node.Matches (Parser.settle depth last ts).2
        (Parser.settle depth last ts').2 := by
  induction h generalizing depth last with
  | nil => exact ⟨.nil, .nil⟩
  | @cons t t' ts ts' h _ ih =>
    rw [settle_cons, settle_cons, depthAfter, depthAfter, h.kind]
    rcases keptToken?_alike h depth last with ⟨ht, ht'⟩ | ⟨u, u', ht, ht', hu⟩
    · rw [ht, ht']
      exact ⟨(ih depth last).1, .cons (h.matches_comment (keptToken?_none ht)) (ih depth last).2⟩
    · rw [ht, ht']
      dsimp only
      rw [hu.kind]
      exact ⟨.cons hu (ih _ _).1, (ih _ _).2⟩

end

/-! ### Phrases -/

/-- Corresponding phrases: what is read behind corresponding operands, and
corresponding pieces of strings. -/
def Phrase.Alike (n : Nat) : Phrase → Phrase → Prop
  | .operators least m lhs, p' => ∃ lhs', lhs.Alike lhs' ∧ p' = .operators least m lhs'
  | .suffixes operand, p' => ∃ operand', operand.Alike operand' ∧ p' = .suffixes operand'
  | .segments segs, p' =>
    ∃ segs', List.Forall₂ (Segment.Alike (SnippetsAlike n)) segs segs' ∧ p' = .segments segs'
  | p, p' => p' = p

/-- A phrase ends before a sign unless it takes the sign in. -/
def Phrase.beforeSign : Phrase → Bool
  | .expression _ m | .operators _ m _ => m
  | _ => false

/-- Corresponding tokens become corresponding nodes. -/
def Carries (n a : Nat) (p : Phrase) (ts k : List Token) (ns : List Node) : Prop :=
  ∀ ⦃p' ts' k'⦄, Phrase.Alike n p p' → TokensAlike n ts ts' → TokensAlike n k k' →
    (p.beforeSign = true → Clear k) → ∃ ns', Derives a p' ts' k' ns' ∧ NodesAlike ns ns'

/-- The nodes of further names are names. -/
lemma Derives.kind_members {a : Nat} {m : Bool} {ts k : List Token} {ns : List Node}
    (h : Derives a (.members m) ts k ns) : ∀ x ∈ ns, x.kind = .identifier := by
  generalize hp : Phrase.members m = p at h
  induction h with
  | membersEnd => simp
  | membersMore _ _ _ ih => exact List.forall_mem_cons.mpr ⟨rfl, ih hp⟩
  | _ => cases hp

/-- Corresponding names have the same texts. -/
lemma values_alike {ns ns' : List Node} (h : NodesAlike ns ns')
    (hns : ∀ x ∈ ns, x.kind = .identifier) :
    ns'.map (·.value.getD "") = ns.map (·.value.getD "") := by
  induction h with
  | nil => rfl
  | cons hx _ ih =>
    rw [List.forall_mem_cons] at hns
    obtain ⟨-, hvalue, -, -, -, -⟩ := hx
    have hsame := hvalue.resolve_right fun hc => absurd (hns.1.symm.trans hc.1) (by decide)
    rw [List.map_cons, List.map_cons, ih hns.2, hsame]

lemma Node.Alike.member {n : Nat} {t t' : Token} {ns ns' : List Node}
    (h : t.Alike (SnippetsAlike n) t') (ht : t.kind = .identifier) (hns : NodesAlike ns ns')
    (hkind : ∀ x ∈ ns, x.kind = .identifier) (stop stop' : Nat) :
    (memberNode t stop ns).Alike (memberNode t' stop' ns') := by
  have hall : NodesAlike (.leaf .identifier t :: ns) (.leaf .identifier t' :: ns') :=
    .cons (h.leaf ht (by decide) _) hns
  have hvalues := values_alike hall (List.forall_mem_cons.mpr ⟨rfl, hkind⟩)
  rw [memberNode, memberNode, hvalues]
  exact .spanning (h.place ht (by decide)) hall _ _ _ _ _

section

variable {Q : List Token → List Token → Prop} {x x' y y' : Node} {op op' : Token}

lemma Node.Alike.binary (hx : x.Alike x') (ho : op.Alike Q op') {o : Nat × Assoc}
    (hop : op.kind.binary? = some o) (hy : y.Alike y') :
    (binaryNode x op y).Alike (binaryNode x' op' y') := by
  have hk : op.kind ≠ .newline ∧ op.kind ≠ .string := by
    constructor <;> intro hk <;> rw [hk] at hop <;> cases hop
  exact .spanning hx.place (.cons hx (.cons (ho.leaf rfl hk _) (.cons hy .nil))) _ _ _ _ _

lemma Node.Alike.prefixed (ho : op.Alike Q op') (hop : op.kind.isUnary = true)
    (hx : x.Alike x') : (prefixNode op x).Alike (prefixNode op' x') := by
  have hk : op.kind ≠ .newline ∧ op.kind ≠ .string := by
    constructor <;> intro hk <;> rw [hk] at hop <;> cases hop
  exact .spanning (ho.place rfl hk.1) (.cons (ho.leaf rfl hk _) (.cons hx .nil)) _ _ _ _ _

lemma Node.Alike.suffixed (hx : x.Alike x') (ho : op.Alike Q op')
    (hop : op.kind.isSuffix = true) : (suffixNode x op).Alike (suffixNode x' op') := by
  have hk : op.kind ≠ .newline ∧ op.kind ≠ .string := by
    constructor <;> intro hk <;> rw [hk] at hop <;> cases hop
  exact .spanning hx.place (.cons hx (.cons (ho.leaf rfl hk _) .nil)) _ _ _ _ _

lemma SegmentForm.Alike.exists_snippet {form form' : SegmentForm Token} {tokens : List Token}
    (h : form.Alike Q form') (hf : form = .snippet tokens) :
    ∃ tokens', form' = .snippet tokens' ∧ Q tokens tokens' := by
  cases h with
  | snippet h =>
    cases hf
    exact ⟨_, rfl, h⟩
  | other h => exact absurd hf (h _)

/-- The node of a piece of a string that holds no expression. -/
lemma plainSegment_alike {seg seg' : Segment Token} (h : seg.Alike Q seg')
    (hf : ∀ tokens, seg.form ≠ .snippet tokens) :
    (plainSegment seg).Alike (plainSegment seg') ∧ ∀ tokens, seg'.form ≠ .snippet tokens := by
  have hplace : (segmentPlace seg).Alike (segmentPlace seg') := ⟨h.line, h.col⟩
  obtain ⟨form, text, line, col, start, stop⟩ := seg
  obtain ⟨form', text', line', col', start', stop'⟩ := seg'
  obtain ⟨hform, hchars, htext, hline, hcol⟩ := h
  dsimp only at *
  cases hform with
  | snippet => exact absurd rfl (hf _)
  | other =>
    refine ⟨?_, hf⟩
    by_cases hc : form = .chars
    · subst hc
      rw [hchars rfl]
      exact .mk rfl (.inr ⟨rfl, rfl⟩) hline hcol rfl .nil
    · rw [htext hc hf]
      cases form with
      | snippet => exact absurd rfl (hf _)
      | unicode digits =>
        refine .spanning hplace (.cons ?_ .nil) _ _ _ _ _
        exact .mk rfl (.inl rfl) hline (congrArg (· + 2) hcol) rfl .nil
      | _ => exact .spanning hplace .nil _ _ _ _ _

end

section

variable {n : Nat} {k k' : List Token}

lemma Mark.alike {ms ms' : List Token} {mark : Option String} (h : Mark ms k mark)
    (hms : TokensAlike n ms ms') (hk : TokensAlike n k k') : Mark ms' k' mark := by
  cases h with
  | none h =>
    cases hms
    exact .none (by rwa [headKind_alike hk])
  | semicolon h =>
    obtain _ | ⟨ht, _ | _⟩ := hms
    rw [← ht.value (by rw [h]; decide)]
    exact .semicolon (ht.kind_eq h)

lemma LeadingComma.alike {ls ls' : List Token} (h : LeadingComma ls k)
    (hls : TokensAlike n ls ls') (hk : TokensAlike n k k') : LeadingComma ls' k' := by
  cases h with
  | none =>
    cases hls
    exact .none
  | comma h hb =>
    obtain _ | ⟨ht, _ | _⟩ := hls
    exact .comma (ht.kind_eq h) (by rwa [bindingAhead_alike hk])

lemma lines_alike {ls ls' : List Token} (h : TokensAlike n ls ls')
    (hl : ∀ l ∈ ls, l.kind = .newline) : ∀ l ∈ ls', l.kind = .newline := by
  induction h with
  | nil => simp
  | cons h _ ih =>
    rw [List.forall_mem_cons] at hl
    exact List.forall_mem_cons.mpr ⟨h.kind_eq hl.1, ih hl.2⟩

end

/-- Corresponding tokens become corresponding expressions. -/
lemma Derives.alike_expression {a : Nat} {p : Phrase} {ts k : List Token} {ns : List Node}
    (h : Derives a p ts k ns) (n : Nat) (hp : p.holdsStatements = false) :
    Carries n a p ts k ns := by
  have hno {q : Prop} : false = true → q := by rintro ⟨⟩
  induction h generalizing n with
  -- binary operators
  | expression hl ho ihl iho =>
    rintro _ _ k' rfl hall hk hc
    obtain ⟨ts', us', rfl, hts, hus⟩ := exists_append_of_forall₂ hall
    obtain ⟨_, hl', _ | ⟨hlhs, _ | _⟩⟩ := ihl n rfl rfl hts (append_forall₂ hus hk) hno
    obtain ⟨_, ho', _ | ⟨hx, _ | _⟩⟩ := iho n rfl ⟨_, hlhs, rfl⟩ hus hk hc
    exact ⟨_, .expression hl' ho', .cons hx .nil⟩
  | operatorsEnd h =>
    rintro _ _ k' ⟨lhs', hlhs, rfl⟩ ⟨⟩ hk hc
    exact ⟨_, .operatorsEnd ((operatorAhead_alike _ hk hc).trans h), .cons hlhs .nil⟩
  | operatorsMore hop h hr hh ho ihr iho =>
    rintro _ _ k' ⟨lhs', hlhs, rfl⟩ (_ | ⟨hop', hall⟩) hk hc
    obtain ⟨ts', us', rfl, hts, hus⟩ := exists_append_of_forall₂ hall
    have hnext := append_forall₂ (append_forall₂ hts hus) hk
    obtain ⟨_, hr', _ | ⟨hrhs, _ | _⟩⟩ := ihr n rfl rfl hts (append_forall₂ hus hk)
      fun hm => ho.clear_operators (hc hm)
    have hnode := Node.Alike.binary hlhs hop' hop hrhs
    obtain ⟨_, ho', _ | ⟨hx, _ | _⟩⟩ := iho n rfl ⟨_, hnode, rfl⟩ hus hk hc
    refine ⟨_, .operatorsMore (by rw [hop'.kind, hop]) ?_ hr' (by rwa [hnode.height]) ho',
      .cons hx .nil⟩
    refine (operatorAhead_alike _ (.cons hop' hnext) fun _ => ?_).trans h
    cases hr with
    | expression hl =>
      rw [Clear, List.append_assoc, List.append_assoc]
      exact fun _ => headKind_ne_newline hl _
  -- prefix and suffix operators
  | unaryPrefix hop h ih =>
    rintro _ _ k' rfl (_ | ⟨ho, hts⟩) hk -
    obtain ⟨_, h', _ | ⟨hx, _ | _⟩⟩ := ih n rfl rfl hts hk hno
    exact ⟨_, .unaryPrefix (by rw [ho.kind, hop]) h', .cons (.prefixed ho hop hx) .nil⟩
  | unaryPlain hp hs ihp ihs =>
    rintro _ _ k' rfl hall hk -
    obtain ⟨ts', us', rfl, hts, hus⟩ := exists_append_of_forall₂ hall
    obtain ⟨_, hp', _ | ⟨hoperand, _ | _⟩⟩ := ihp n rfl rfl hts (append_forall₂ hus hk) hno
    obtain ⟨_, hs', _ | ⟨hx, _ | _⟩⟩ := ihs n rfl ⟨_, hoperand, rfl⟩ hus hk hno
    exact ⟨_, .unaryPlain hp' hs', .cons hx .nil⟩
  | suffixesEnd h =>
    rintro _ _ k' ⟨x', hx, rfl⟩ ⟨⟩ hk -
    exact ⟨_, .suffixesEnd (by rwa [suffixAhead_alike hk]), .cons hx .nil⟩
  | suffixesMore hop hh h ih =>
    rintro _ _ k' ⟨x', hx, rfl⟩ (_ | ⟨ho, hts⟩) hk -
    have hnode := Node.Alike.suffixed hx ho (by
      simp only [suffixAhead, headKind_cons, Bool.and_eq_true] at hop
      exact hop.1)
    obtain ⟨_, h', _ | ⟨hx, _ | _⟩⟩ := ih n rfl ⟨_, hnode, rfl⟩ hts hk hno
    refine ⟨_, .suffixesMore ?_ (by rwa [hnode.height]) h', .cons hx .nil⟩
    rwa [suffixAhead_alike (.cons ho .nil)]
  -- operands
  | matrix ho h hc ih =>
    rintro _ _ k' rfl (_ | ⟨hopener, hall⟩) hk -
    obtain ⟨ts', _, rfl, hts, _ | ⟨hcloser, _ | _⟩⟩ := exists_append_of_forall₂ hall
    obtain ⟨_, h', hns⟩ := ih n rfl rfl hts (.cons hcloser hk) hno
    exact ⟨_, .matrix (hopener.kind_eq ho) h' (hcloser.kind_eq hc),
      .cons (.spanning (hopener.place ho (by decide)) hns _ _ _ _ _) .nil⟩
  | bracketed ho h hc ih =>
    rintro _ _ k' rfl (_ | ⟨hopener, hall⟩) hk -
    obtain ⟨ts', _, rfl, hts, _ | ⟨hcloser, _ | _⟩⟩ := exists_append_of_forall₂ hall
    obtain ⟨_, h', _ | ⟨hx, _ | _⟩⟩ := ih n rfl rfl hts (.cons hcloser hk) hno
    exact ⟨_, .bracketed (hopener.kind_eq ho) h' (hcloser.kind_eq hc),
      .cons (.spanning (hopener.place ho (by decide)) (.cons hx .nil) _ _ _ _ _) .nil⟩
  | plainName h hn ih =>
    rintro _ _ k' rfl hts hk -
    obtain ⟨_, h', _ | ⟨hx, _ | _⟩⟩ := ih n rfl rfl hts hk hno
    exact ⟨_, .plainName h' (by rwa [callAhead_alike _ hk]), .cons hx .nil⟩
  | call hn ho hx hy hc ihn ihx ihy =>
    rintro _ _ k' rfl hall hk -
    obtain ⟨ts', _, rfl, hts, _ | ⟨hopener, hmore⟩⟩ := exists_append_of_forall₂ hall
    obtain ⟨us', _, rfl, hus, hlast⟩ := exists_append_of_forall₂ hmore
    obtain ⟨vs', _, rfl, hvs, _ | ⟨hcloser, _ | _⟩⟩ := exists_append_of_forall₂ hlast
    have hend := append_forall₂ hvs (.cons hcloser hk)
    obtain ⟨_, hn', _ | ⟨hname, _ | _⟩⟩ :=
      ihn n rfl rfl hts (.cons hopener (append_forall₂ hus hend)) hno
    obtain ⟨_, hx', hxs⟩ := ihx n rfl rfl hus hend hno
    obtain ⟨_, hy', hys⟩ := ihy n rfl rfl hvs (.cons hcloser hk) hno
    have hparen := eq_of_beq (Bool.and_eq_true_iff.mp ho).1
    rw [headKind_cons] at hparen
    have hplace := hopener.place hparen (by decide)
    have hopen := (callAhead_alike _ (.cons hopener .nil)).trans ho
    exact ⟨_, .call hn' hopen hx' hy' (hcloser.kind_eq hc),
      .cons (.spanning hname.place (.cons hname (.cons (.spanning hplace hxs _ _ _ _ _)
        (.cons (.spanning hplace hys _ _ _ _ _) .nil))) _ _ _ _ _) .nil⟩
  | rangeOfTwo hx hd hy hend =>
    rintro _ _ k' rfl (_ | ⟨hx', _ | ⟨hd', _ | ⟨hy', _ | _⟩⟩⟩) hk -
    exact ⟨_, .rangeOfTwo (hx'.kind_eq hx) (hd'.kind_eq hd) (hy'.kind_eq hy)
        (by rwa [headKind_alike hk]),
      .cons (.spanning (hx'.place hx (by decide)) (.cons (hx'.leaf hx (by decide) _)
        (.cons (hy'.leaf hy (by decide) _) .nil)) _ _ _ _ _) .nil⟩
  | rangeOfThree hx hd hy he hz hend =>
    rintro _ _ k' rfl (_ | ⟨hx', _ | ⟨hd', _ | ⟨hy', _ | ⟨he', _ | ⟨hz', _ | _⟩⟩⟩⟩⟩) hk -
    exact ⟨_, .rangeOfThree (hx'.kind_eq hx) (hd'.kind_eq hd) (hy'.kind_eq hy) (he'.kind_eq he)
        (hz'.kind_eq hz) (by rwa [headKind_alike hk]),
      .cons (.spanning (hx'.place hx (by decide)) (.cons (hx'.leaf hx (by decide) _)
        (.cons (hy'.leaf hy (by decide) _) (.cons (hz'.leaf hz (by decide) _) .nil))) _ _ _ _ _)
        .nil⟩
  | number ht hend hp =>
    rintro _ _ k' rfl (_ | ⟨ht', _ | _⟩) hk -
    exact ⟨_, .number (ht'.kind_eq ht) (by rwa [headKind_alike hk])
      (by rwa [percentAhead_alike hk]),
      .cons (ht'.leaf ht (by decide) _) .nil⟩
  | percentage ht hs =>
    rintro _ _ k' rfl (_ | ⟨ht', _ | ⟨hs', _ | _⟩⟩) hk -
    have hpercent := eq_of_beq (Bool.and_eq_true_iff.mp hs).1
    rw [headKind_cons] at hpercent
    have hvalue := ht'.value (by rw [ht]; decide)
    have hsign := hs'.value (by rw [hpercent]; decide)
    refine ⟨_, .percentage (ht'.kind_eq ht) ((percentAhead_alike (.cons hs' .nil)).trans hs),
      .cons ?_ .nil⟩
    rw [hvalue, hsign]
    exact .spanning (ht'.place ht (by decide)) .nil _ _ _ _ _
  | string ht h ih =>
    rintro _ _ k' rfl (_ | ⟨ht', _ | _⟩) hk -
    obtain ⟨_, h', hns⟩ := ih n rfl ⟨_, ht'.segments, rfl⟩ .nil .nil hno
    refine ⟨_, .string (ht'.kind_eq ht) h', .cons ?_ .nil⟩
    rw [stringNode, stringNode, ← hns.length_eq]
    exact .spanning (ht'.place ht (by decide)) hns _ _ _ _ _
  -- names
  | name ht h ih =>
    rintro _ _ k' rfl (_ | ⟨ht', hts⟩) hk -
    obtain ⟨_, h', hns⟩ := ih n rfl rfl hts hk hno
    exact ⟨_, .name (ht'.kind_eq ht) h', .cons (.member ht' ht hns h.kind_members _ _) .nil⟩
  | membersEnd h =>
    rintro _ _ k' rfl ⟨⟩ hk -
    exact ⟨_, .membersEnd (by rwa [dotAhead_alike _ hk]), .nil⟩
  | membersMore hd ht h ih =>
    rintro _ _ k' rfl (_ | ⟨hd', _ | ⟨ht', hts⟩⟩) hk -
    obtain ⟨_, h', hns⟩ := ih n rfl rfl hts hk hno
    exact ⟨_, .membersMore ((dotAhead_alike _ (.cons hd' .nil)).trans hd) (ht'.kind_eq ht) h',
      .cons (ht'.leaf ht (by decide) _) hns⟩
  -- arguments
  | argumentValue h hb ih =>
    rintro _ _ k' rfl hts hk -
    obtain ⟨_, h', _ | ⟨hx, _ | _⟩⟩ := ih n rfl rfl hts hk hno
    exact ⟨_, .argumentValue h' ((bindingAhead_alike (append_forall₂ hts hk)).trans hb),
      .cons hx .nil⟩
  | argumentName ht hb =>
    rintro _ _ k' rfl (_ | ⟨ht', _ | _⟩) hk -
    exact ⟨_, .argumentName (ht'.kind_eq ht) ((bindingAhead_alike (.cons ht' hk)).trans hb),
      .cons (ht'.leaf ht (by decide) _) .nil⟩
  | argumentKeyword ht he h ih =>
    rintro _ _ k' rfl (_ | ⟨ht', _ | ⟨he', hts⟩⟩) hk -
    obtain ⟨_, h', _ | ⟨hx, _ | _⟩⟩ := ih n rfl rfl hts hk hno
    exact ⟨_, .argumentKeyword (ht'.kind_eq ht) (he'.kind_eq he) h',
      .cons (.spanning (ht'.place ht (by decide)) (.cons (ht'.leaf ht (by decide) _)
        (.cons hx .nil)) _ _ _ _ _) .nil⟩
  | argumentsEnd h =>
    rintro _ _ k' rfl ⟨⟩ hk -
    exact ⟨_, .argumentsEnd (by rwa [headKind_alike hk, bindingAhead_alike hk]), .nil⟩
  | argumentsLast h hend ih =>
    rintro _ _ k' rfl hts hk -
    obtain ⟨_, h', hns⟩ := ih n rfl rfl hts hk hno
    obtain _ | ⟨hx, _ | _⟩ := hns
    exact ⟨_, .argumentsLast h' (by rwa [headKind_alike hk]), .cons hx .nil⟩
  | argumentsMore h hc hend hs ih ihs =>
    rintro _ _ k' rfl hall hk -
    obtain ⟨ts', _, rfl, hts, _ | ⟨hcomma, hus⟩⟩ := exists_append_of_forall₂ hall
    have hnext := append_forall₂ hus hk
    obtain ⟨_, h', _ | ⟨hx, _ | _⟩⟩ := ih n rfl rfl hts (.cons hcomma hnext) hno
    obtain ⟨_, hs', hns⟩ := ihs n rfl rfl hus hk hno
    exact ⟨_, .argumentsMore h' (hcomma.kind_eq hc) (by rwa [headKind_alike hnext]) hs',
      .cons hx hns⟩
  -- matrices
  | elementsEnd h =>
    rintro _ _ k' rfl ⟨⟩ hk -
    exact ⟨_, .elementsEnd (by rwa [headKind_alike hk]), .nil⟩
  | elementsMore h hend hs ih ihs =>
    rintro _ _ k' rfl hall hk -
    obtain ⟨ts', us', rfl, hts, hus⟩ := exists_append_of_forall₂ hall
    have hnext := append_forall₂ hus hk
    obtain ⟨_, h', _ | ⟨hx, _ | _⟩⟩ := ih n rfl rfl hts hnext fun _ => hs.clear_elements
    obtain ⟨_, hs', hns⟩ := ihs n rfl rfl hus hk hno
    exact ⟨_, .elementsMore h' (by rwa [headKind_alike hnext]) hs', .cons hx hns⟩
  | elementsComma h hc hs ih ihs =>
    rintro _ _ k' rfl hall hk -
    obtain ⟨ts', _, rfl, hts, _ | ⟨hcomma, hus⟩⟩ := exists_append_of_forall₂ hall
    obtain ⟨_, h', _ | ⟨hx, _ | _⟩⟩ := ih n rfl rfl hts (.cons hcomma (append_forall₂ hus hk))
      fun _ => clear_of_kind hc (by decide)
    obtain ⟨_, hs', hns⟩ := ihs n rfl rfl hus hk hno
    exact ⟨_, .elementsComma h' (hcomma.kind_eq hc) hs', .cons hx hns⟩
  | rowsLast h hl hend ih =>
    rintro _ _ k' rfl (_ | ⟨ht, hts⟩) hk -
    obtain ⟨ns', h', hns⟩ := ih n rfl rfl (.cons ht hts) hk hno
    have hne : ns' ≠ [] := by
      rintro rfl
      cases hns
      cases hl
    refine ⟨_, .rowsLast h' (List.getLast?_eq_some_getLast hne) (by rwa [headKind_alike hk]),
      .cons (.spanning ?_ hns _ _ _ _ _) .nil⟩
    exact ht.place rfl (h.headKind_elements (by simp))
  | rowsMore h hn hc hs ih ihs =>
    rintro _ _ k' rfl (_ | ⟨ht, hall⟩) hk -
    obtain ⟨ts', _, rfl, hts, _ | ⟨hc', hus⟩⟩ := exists_append_of_forall₂ hall
    obtain ⟨ns', h', hns⟩ := ih n rfl rfl (.cons ht hts) (.cons hc' (append_forall₂ hus hk)) hno
    obtain ⟨_, hs', hms⟩ := ihs n rfl rfl hus hk hno
    have hne : ns' ≠ [] := by
      rintro rfl
      cases hns
      exact hn rfl
    refine ⟨_, .rowsMore h' hne (hc'.kind_eq hc) hs', .cons (.spanning ?_ hns _ _ _ _ _) hms⟩
    exact ht.place rfl (h.headKind_elements (by simp))
  -- strings
  | segmentsNil =>
    rintro _ _ k' ⟨_, ⟨⟩, rfl⟩ ⟨⟩ ⟨⟩ -
    exact ⟨_, .segmentsNil, .nil⟩
  | segmentsPlain hf h ih =>
    rintro _ _ k' ⟨_, _ | ⟨hseg, hsegs⟩, rfl⟩ ⟨⟩ ⟨⟩ -
    obtain ⟨_, h', hns⟩ := ih n rfl ⟨_, hsegs, rfl⟩ .nil .nil hno
    obtain ⟨hnode, hf'⟩ := plainSegment_alike hseg hf
    exact ⟨_, .segmentsPlain hf' h', .cons hnode hns⟩
  | segmentsSnippet hf hs he hend h ihe ih =>
    rintro _ _ k' ⟨_, _ | ⟨hseg, hsegs⟩, rfl⟩ ⟨⟩ ⟨⟩ -
    obtain ⟨tokens', hf', htokens⟩ := hseg.form.exists_snippet hf
    cases n with
    | zero => exact htokens.elim
    | succ n =>
      have hsettled := (settle_alike htokens 0 none).1
      rw [hs] at hsettled
      obtain ⟨ts', k', hs', hts, hk⟩ := exists_append_of_forall₂ hsettled
      obtain ⟨_, he', _ | ⟨hx, _ | _⟩⟩ := ihe n rfl rfl hts hk hno
      obtain ⟨_, h', hns⟩ := ih (n + 1) rfl ⟨_, hsegs, rfl⟩ .nil .nil hno
      exact ⟨_, .segmentsSnippet hf' hs' he' (by rwa [headKind_alike hk]) h',
        .cons (.spanning ⟨hseg.line, hseg.col⟩ (.cons hx .nil) _ _ _ _ _) hns⟩
  | _ => cases hp

/-- Corresponding tokens become corresponding statements. -/
lemma Derives.alike_statement {a : Nat} {p : Phrase} {ts k : List Token} {ns : List Node}
    (h : Derives a p ts k ns) (n : Nat) (hp : p.holdsStatements = true) :
    Carries n a p ts k ns := by
  have hno {q : Prop} : false = true → q := by rintro ⟨⟩
  induction h generalizing n with
  -- statements of one token, and simple ones
  | comment ht =>
    rintro _ _ k' rfl (_ | ⟨ht', _ | _⟩) hk -
    exact ⟨_, .comment (ht'.kind_eq ht), .cons (ht'.leaf ht (by decide) _) .nil⟩
  | exit ht =>
    rintro _ _ k' rfl (_ | ⟨ht', _ | _⟩) hk -
    exact ⟨_, .exit (ht'.kind_eq ht), .cons (ht'.leaf ht (by decide) _) .nil⟩
  | @loopControl a loops t k ht hl =>
    rintro _ _ k' rfl (_ | ⟨ht', _ | _⟩) hk -
    have hplain : t.kind ≠ .newline ∧ t.kind ≠ .string := by
      rcases ht with ht | ht <;> rw [ht] <;> decide
    refine ⟨_, .loopControl (by rwa [ht'.kind]) hl, .cons ?_ .nil⟩
    rw [ht'.value hplain.2]
    exact ht'.leaf rfl hplain _
  | symbolDeclaration ht hx =>
    rintro _ _ k' rfl (_ | ⟨ht', _ | ⟨hx', _ | _⟩⟩) hk -
    exact ⟨_, .symbolDeclaration (ht'.kind_eq ht) (hx'.kind_eq hx),
      .cons (.spanning (ht'.place ht (by decide)) (.cons (hx'.leaf hx (by decide) _) .nil)
        _ _ _ _ _)
        .nil⟩
  | importStatement ht h _ =>
    rintro _ _ k' rfl (_ | ⟨ht', hts⟩) hk -
    obtain ⟨_, h', _ | ⟨hx, _ | _⟩⟩ := h.alike_expression n rfl rfl hts hk hno
    exact ⟨_, .importStatement (ht'.kind_eq ht) h',
      .cons (.spanning (ht'.place ht (by decide)) (.cons hx .nil) _ _ _ _ _) .nil⟩
  | returnStatement ht h _ =>
    rintro _ _ k' rfl (_ | ⟨ht', hts⟩) hk -
    obtain ⟨_, h', _ | ⟨hx, _ | _⟩⟩ := h.alike_expression n rfl rfl hts hk hno
    exact ⟨_, .returnStatement (ht'.kind_eq ht) h',
      .cons (.spanning (ht'.place ht (by decide)) (.cons hx .nil) _ _ _ _ _) .nil⟩
  | assignment hx he h hm _ =>
    rintro _ _ k' rfl (_ | ⟨hx', _ | ⟨he', hall⟩⟩) hk -
    obtain ⟨ts', ms', rfl, hts, hms⟩ := exists_append_of_forall₂ hall
    obtain ⟨_, h', _ | ⟨hn, _ | _⟩⟩ := h.alike_expression n rfl rfl hts (append_forall₂ hms hk) hno
    exact ⟨_, .assignment (hx'.kind_eq hx) (he'.kind_eq he) h' (hm.alike hms hk),
      .cons (.spanning (hx'.place hx (by decide)) (.cons (hx'.leaf hx (by decide) _)
        (.cons hn .nil)) _ _ _ _ _) .nil⟩
  | expressionStatement h hb hm _ =>
    rintro _ _ k' rfl hall hk -
    obtain ⟨ts', ms', rfl, hts, hms⟩ := exists_append_of_forall₂ hall
    have hnext := append_forall₂ hms hk
    obtain ⟨_, h', _ | ⟨hn, _ | _⟩⟩ := h.alike_expression n rfl rfl hts hnext hno
    exact ⟨_, .expressionStatement h' ((bindingAhead_alike (append_forall₂ hts hnext)).trans hb)
        (hm.alike hms hk), .cons (.spanning hn.place (.cons hn .nil) _ _ _ _ _) .nil⟩
  -- statements with blocks
  | ifStatement ht h hb hc _ ihb ihc =>
    rintro _ _ k' rfl (_ | ⟨ht', hall⟩) hk -
    obtain ⟨ts', _, rfl, hts, hmore⟩ := exists_append_of_forall₂ hall
    obtain ⟨us', vs', rfl, hus, hvs⟩ := exists_append_of_forall₂ hmore
    have hend := append_forall₂ hvs hk
    obtain ⟨_, h', _ | ⟨hn, _ | _⟩⟩ :=
      h.alike_expression n rfl rfl hts (append_forall₂ hus hend) hno
    obtain ⟨_, hb', _ | ⟨hbody, _ | _⟩⟩ := ihb n rfl rfl hus hend hno
    obtain ⟨_, hc', hns⟩ := ihc n rfl rfl hvs hk hno
    exact ⟨_, .ifStatement (ht'.kind_eq ht) h' hb' hc',
      .cons (.spanning (ht'.place ht (by decide)) (.cons hn (.cons hbody hns)) _ _ _ _ _) .nil⟩
  | whileLoop ht h hb _ ihb =>
    rintro _ _ k' rfl (_ | ⟨ht', hall⟩) hk -
    obtain ⟨ts', us', rfl, hts, hus⟩ := exists_append_of_forall₂ hall
    obtain ⟨_, h', _ | ⟨hn, _ | _⟩⟩ := h.alike_expression n rfl rfl hts (append_forall₂ hus hk) hno
    obtain ⟨_, hb', _ | ⟨hbody, _ | _⟩⟩ := ihb n rfl rfl hus hk hno
    exact ⟨_, .whileLoop (ht'.kind_eq ht) h' hb',
      .cons (.spanning (ht'.place ht (by decide)) (.cons hn (.cons hbody .nil)) _ _ _ _ _) .nil⟩
  | forLoop ht hx hi h hb _ ihb =>
    rintro _ _ k' rfl (_ | ⟨ht', _ | ⟨hx', _ | ⟨hi', hall⟩⟩⟩) hk -
    obtain ⟨ts', us', rfl, hts, hus⟩ := exists_append_of_forall₂ hall
    obtain ⟨_, h', _ | ⟨hn, _ | _⟩⟩ := h.alike_expression n rfl rfl hts (append_forall₂ hus hk) hno
    obtain ⟨_, hb', _ | ⟨hbody, _ | _⟩⟩ := ihb n rfl rfl hus hk hno
    exact ⟨_, .forLoop (ht'.kind_eq ht) (hx'.kind_eq hx) (hi'.kind_eq hi) h' hb',
      .cons (.spanning (ht'.place ht (by decide)) (.cons (hx'.leaf hx (by decide) _)
        (.cons hn (.cons hbody .nil))) _ _ _ _ _) .nil⟩
  | functionDefinition ht hx ho hl hargs hnamed hc hb _ _ ihb =>
    rintro _ _ k' rfl (_ | ⟨ht', _ | ⟨hx', _ | ⟨ho', hall⟩⟩⟩) hk -
    obtain ⟨ls', _, rfl, hls, hmore⟩ := exists_append_of_forall₂ hall
    obtain ⟨us', _, rfl, hus, hlast⟩ := exists_append_of_forall₂ hmore
    obtain ⟨vs', _, rfl, hvs, _ | ⟨hcloser, hws⟩⟩ := exists_append_of_forall₂ hlast
    have hbody := append_forall₂ hws hk
    have hend := append_forall₂ hvs (.cons hcloser hbody)
    obtain ⟨_, hp', hxs⟩ := hargs.alike_expression n rfl rfl hus hend hno
    obtain ⟨_, hy', hys⟩ := hnamed.alike_expression n rfl rfl hvs (.cons hcloser hbody) hno
    obtain ⟨_, hb', _ | ⟨hblock, _ | _⟩⟩ := ihb n rfl rfl hws hk hno
    have hplace := ho'.place ho (by decide)
    exact ⟨_, .functionDefinition (ht'.kind_eq ht) (hx'.kind_eq hx) (ho'.kind_eq ho)
        (hl.alike hls (append_forall₂ hus hend)) hp' hy' (hcloser.kind_eq hc) hb',
      .cons (.spanning (ht'.place ht (by decide)) (.cons (hx'.leaf hx (by decide) _)
        (.cons (.spanning hplace hxs _ _ _ _ _) (.cons (.spanning hplace hys _ _ _ _ _)
          (.cons hblock .nil)))) _ _ _ _ _) .nil⟩
  -- blocks and sequences
  | block ho h hc ih =>
    rintro _ _ k' rfl (_ | ⟨hopener, hall⟩) hk -
    obtain ⟨ts', _, rfl, hts, _ | ⟨hcloser, _ | _⟩⟩ := exists_append_of_forall₂ hall
    obtain ⟨_, h', hns⟩ := ih n rfl rfl hts (.cons hcloser hk) hno
    exact ⟨_, .block (hopener.kind_eq ho) h' (hcloser.kind_eq hc),
      .cons (.spanning (hopener.place ho (by decide)) hns _ _ _ _ _) .nil⟩
  | clausesEnd h =>
    rintro _ _ k' rfl ⟨⟩ hk -
    exact ⟨_, .clausesEnd (by rwa [clauseAhead_alike hk]), .nil⟩
  | clausesElseif hl ht h hb hc _ ihb ihc =>
    rintro _ _ k' rfl hall hk -
    obtain ⟨ls', _, rfl, hls, _ | ⟨ht', hrest⟩⟩ := exists_append_of_forall₂ hall
    obtain ⟨ts', _, rfl, hts, hmore⟩ := exists_append_of_forall₂ hrest
    obtain ⟨us', vs', rfl, hus, hvs⟩ := exists_append_of_forall₂ hmore
    have hend := append_forall₂ hvs hk
    obtain ⟨_, h', _ | ⟨hn, _ | _⟩⟩ :=
      h.alike_expression n rfl rfl hts (append_forall₂ hus hend) hno
    obtain ⟨_, hb', _ | ⟨hbody, _ | _⟩⟩ := ihb n rfl rfl hus hend hno
    obtain ⟨_, hc', hns⟩ := ihc n rfl rfl hvs hk hno
    exact ⟨_, .clausesElseif (lines_alike hls hl) (ht'.kind_eq ht) h' hb' hc',
      .cons (.spanning (ht'.place ht (by decide)) (.cons hn (.cons hbody .nil)) _ _ _ _ _) hns⟩
  | clausesElse hl ht hb hc ihb ihc =>
    rintro _ _ k' rfl hall hk -
    obtain ⟨ls', _, rfl, hls, _ | ⟨ht', hmore⟩⟩ := exists_append_of_forall₂ hall
    obtain ⟨us', vs', rfl, hus, hvs⟩ := exists_append_of_forall₂ hmore
    obtain ⟨_, hb', _ | ⟨hbody, _ | _⟩⟩ := ihb n rfl rfl hus (append_forall₂ hvs hk) hno
    obtain ⟨_, hc', hns⟩ := ihc n rfl rfl hvs hk hno
    exact ⟨_, .clausesElse (lines_alike hls hl) (ht'.kind_eq ht) hb' hc',
      .cons (.spanning (ht'.place ht (by decide)) (.cons hbody .nil) _ _ _ _ _) hns⟩
  | statementsEnd h =>
    rintro _ _ k' rfl ⟨⟩ hk -
    exact ⟨_, .statementsEnd (by rwa [headKind_alike hk]), .nil⟩
  | statementsSeparator ht h ih =>
    rintro _ _ k' rfl (_ | ⟨ht', hts⟩) hk -
    obtain ⟨_, h', hns⟩ := ih n rfl rfl hts hk hno
    exact ⟨_, .statementsSeparator (by rwa [ht'.kind]) h', hns⟩
  | statementsMore h hs ih ihs =>
    rintro _ _ k' rfl hall hk -
    obtain ⟨ts', us', rfl, hts, hus⟩ := exists_append_of_forall₂ hall
    obtain ⟨_, h', _ | ⟨hn, _ | _⟩⟩ := ih n rfl rfl hts (append_forall₂ hus hk) hno
    obtain ⟨_, hs', hns⟩ := ihs n rfl rfl hus hk hno
    exact ⟨_, .statementsMore h' hs', .cons hn hns⟩
  | _ => cases hp

/-- **Corresponding tokens become corresponding nodes.** -/
theorem Derives.alike {a : Nat} {p : Phrase} {ts k : List Token} {ns : List Node}
    (h : Derives a p ts k ns) (n : Nat) : Carries n a p ts k ns := by
  cases hp : p.holdsStatements with
  | false => exact h.alike_expression n hp
  | true => exact h.alike_statement n hp

end StpLang
