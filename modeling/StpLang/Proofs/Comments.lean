import StpLang.Proofs.Accepted

/-!
Where the comments of a program go.

A comment is a statement of its own, or the tree keeps it aside because it stands
within parentheses, brackets or a snippet. A snippet hands its comments up to the
program, but a snippet of a snippet does not.

* `Derives.sorts`: comments occur in phrases only as statements.
* `Derives.comments`: the comments among the nodes are those among the tokens.
* `comments_perm` counts the comments of a program, and says when none is lost.
* `comment_lost` is a comment in a snippet of a snippet.
-/

namespace StpLang

open Grammar Lexer StpLang.Parser

/-! ### Tokens within tokens -/

/-- The tokens in a snippet. -/
def Segment.snippetTokens (seg : Segment Token) : List Token :=
  match seg.form with
  | .snippet tokens => tokens
  | _ => []

/-- The tokens in the snippets of a string. -/
def Token.snippetTokens (t : Token) : List Token := t.segments.flatMap Segment.snippetTokens

mutual

/-- A token and those in its snippets, at any depth. -/
def Token.walk : Token → List Token
  | ⟨kind, value, line, col, start, stop, spaced, segments⟩ =>
    ⟨kind, value, line, col, start, stop, spaced, segments⟩ :: Token.walkSegments segments

/-- The tokens in the snippets of some pieces, at any depth. -/
def Token.walkSegments : List (Segment Token) → List Token
  | [] => []
  | seg :: segs => Token.walkSegment seg ++ Token.walkSegments segs

/-- The tokens in a piece, at any depth. -/
def Token.walkSegment : Segment Token → List Token
  | ⟨form, _, _, _, _, _⟩ => Token.walkForm form

/-- The tokens in a snippet, at any depth. -/
def Token.walkForm : SegmentForm Token → List Token
  | .snippet tokens => Token.walkAll tokens
  | _ => []

/-- Some tokens and those in their snippets, at any depth. -/
def Token.walkAll : List Token → List Token
  | [] => []
  | t :: ts => Token.walk t ++ Token.walkAll ts

end

namespace Token

lemma walkAll_eq (ts : List Token) : walkAll ts = ts.flatMap walk := by
  induction ts with
  | nil => rfl
  | cons t ts ih => rw [walkAll, ih, List.flatMap_cons]

/-- A token comes first, then what its snippets hold. -/
lemma walk_eq (t : Token) : t.walk = t :: t.snippetTokens.flatMap walk := by
  obtain ⟨kind, value, line, col, start, stop, spaced, segments⟩ := t
  rw [walk, snippetTokens]
  congr 1
  dsimp only
  induction segments with
  | nil => rfl
  | cons seg segs ih =>
    obtain ⟨form, text, line, col, start, stop⟩ := seg
    rw [walkSegments, walkSegment, ih, List.flatMap_cons, List.flatMap_append]
    cases form with
    | snippet tokens => rw [walkForm, walkAll_eq]; rfl
    | _ => simp [walkForm, Segment.snippetTokens]

/-- The comments among some tokens. -/
def comments (ts : List Token) : List Token := ts.filter (·.kind == .comment)

lemma comments_append (ts us : List Token) : comments (ts ++ us) = comments ts ++ comments us :=
  List.filter_append ..

lemma comments_eq_nil {ts : List Token} : comments ts = [] ↔ ∀ t ∈ ts, t.kind ≠ .comment := by
  simp [comments, List.filter_eq_nil_iff]

end Token

/-! ### Tokens of phrases -/

/-- The phrases that hold statements. -/
def Phrase.holdsStatements : Phrase → Bool
  | .statement _ | .statements .. | .block _ | .clauses .. => true
  | _ => false

/-- A comment belongs to a statement, and the pieces of a string are derived. -/
structure Token.Sorts (p : Phrase) (t : Token) : Prop where
  comment : t.kind = .comment → p.holdsStatements = true
  string : t.kind = .string → ∃ a ns, Derives a (.segments t.segments) [] [] ns

section

variable {p q : Phrase} {t : Token} {ts k : List Token} {ns : List Node} {a : Nat}

lemma Token.Sorts.mono (h : t.Sorts p) (hp : p.holdsStatements = true → q.holdsStatements = true) :
    t.Sorts q := ⟨fun ht => hp (h.comment ht), h.string⟩

/-- A token that is neither a comment nor a string. -/
lemma sorts_of_kind {kind : TokenKind} (ht : t.kind = kind)
    (hk : kind ≠ .comment ∧ kind ≠ .string) : t.Sorts p :=
  ⟨fun hc => absurd (ht.symm.trans hc) hk.1, fun hs => absurd (ht.symm.trans hs) hk.2⟩

lemma sorts_all {kind : TokenKind} (h : ∀ t ∈ ts, t.kind = kind)
    (hk : kind ≠ .comment ∧ kind ≠ .string) : ∀ t ∈ ts, t.Sorts p :=
  fun t ht => sorts_of_kind (h t ht) hk

lemma TokenKind.sorts_binary? {kind : TokenKind} {o : Nat × Assoc} (h : kind.binary? = some o) :
    kind ≠ .comment ∧ kind ≠ .string := by
  constructor <;> rintro rfl <;> cases h

lemma TokenKind.sorts_isUnary {kind : TokenKind} (h : kind.isUnary = true) :
    kind ≠ .comment ∧ kind ≠ .string := by
  constructor <;> rintro rfl <;> cases h

lemma TokenKind.sorts_isSeparator {kind : TokenKind} (h : kind.isSeparator = true) :
    kind ≠ .comment ∧ kind ≠ .string := by
  constructor <;> rintro rfl <;> cases h

lemma sorts_suffix (h : suffixAhead [t] = true) : t.Sorts p := by
  simp only [suffixAhead, headKind_cons, Bool.and_eq_true] at h
  constructor <;> intro hk <;> rw [hk] at h <;> cases h.1

lemma Mark.sorts {mark : Option String} (h : Mark ts k mark) : ∀ t ∈ ts, t.Sorts p := by
  cases h with
  | none => simp
  | semicolon h => exact List.forall_mem_singleton.mpr (sorts_of_kind h (by decide))

lemma LeadingComma.sorts (h : LeadingComma ts k) : ∀ t ∈ ts, t.Sorts p := by
  cases h with
  | none => simp
  | comma h => exact List.forall_mem_singleton.mpr (sorts_of_kind h (by decide))

/-- Comments occur in phrases only as statements, and strings only with pieces
that are derived. -/
theorem Derives.sorts (h : Derives a p ts k ns) : ∀ t ∈ ts, t.Sorts p := by
  have up {p q : Phrase} {ts : List Token} (h : ∀ t ∈ ts, t.Sorts p)
      (hp : p.holdsStatements = true → q.holdsStatements = true) : ∀ t ∈ ts, t.Sorts q :=
    fun t ht => (h t ht).mono hp
  have cons {p : Phrase} {t : Token} {ts : List Token} (ht : t.Sorts p) (h : ∀ t ∈ ts, t.Sorts p) :
      ∀ u ∈ t :: ts, u.Sorts p := List.forall_mem_cons.mpr ⟨ht, h⟩
  have append {p : Phrase} {ts us : List Token} (h : ∀ t ∈ ts, t.Sorts p)
      (h' : ∀ t ∈ us, t.Sorts p) : ∀ t ∈ ts ++ us, t.Sorts p :=
    List.forall_mem_append.mpr ⟨h, h'⟩
  have nil {p : Phrase} : ∀ t ∈ ([] : List Token), t.Sorts p := fun t ht => by cases ht
  have kind {p : Phrase} {t : Token} {kind : TokenKind} (ht : t.kind = kind)
      (hk : kind ≠ .comment ∧ kind ≠ .string := by decide) : t.Sorts p := sorts_of_kind ht hk
  induction h with
  | expression _ _ ihl iho => exact append (up ihl id) (up iho id)
  | operatorsMore hop _ _ _ _ ihr iho =>
    exact cons (kind rfl (TokenKind.sorts_binary? hop)) (append (up ihr id) (up iho id))
  | unaryPrefix hop _ ih => exact cons (kind rfl (TokenKind.sorts_isUnary hop)) ih
  | unaryPlain _ _ ihp ihs => exact append (up ihp id) (up ihs id)
  | suffixesMore hop _ _ ih => exact cons (sorts_suffix hop) (up ih id)
  | matrix ho _ hc ih => exact cons (kind ho) (append (up ih id) (cons (kind hc) nil))
  | bracketed ho _ hc ih => exact cons (kind ho) (append (up ih id) (cons (kind hc) nil))
  | plainName _ _ ih => exact up ih id
  | call _ ho _ _ hc ihn ihx ihy =>
    simp only [callAhead, headKind_cons, Bool.and_eq_true, beq_iff_eq] at ho
    exact append (up ihn id) (cons (kind ho.1)
      (append (up ihx id) (append (up ihy id) (cons (kind hc) nil))))
  | rangeOfTwo hx hd hy => exact cons (kind hx) (cons (kind hd) (cons (kind hy) nil))
  | rangeOfThree hx hd hy he hz =>
    exact cons (kind hx) (cons (kind hd) (cons (kind hy) (cons (kind he) (cons (kind hz) nil))))
  | number ht => exact cons (kind ht) nil
  | percentage ht hs =>
    simp only [percentAhead, headKind_cons, Bool.and_eq_true, beq_iff_eq] at hs
    exact cons (kind ht) (cons (kind hs.1) nil)
  | string ht h =>
    exact cons ⟨fun hc => TokenKind.noConfusion (ht.symm.trans hc), fun _ => ⟨_, _, h⟩⟩ nil
  | name ht _ ih => exact cons (kind ht) (up ih id)
  | membersMore hd ht _ ih =>
    simp only [dotAhead, headKind_cons, Bool.and_eq_true, beq_iff_eq] at hd
    exact cons (kind hd.1) (cons (kind ht) ih)
  | argumentValue _ _ ih => exact up ih id
  | argumentName ht => exact cons (kind ht) nil
  | argumentKeyword ht he _ ih => exact cons (kind ht) (cons (kind he) (up ih id))
  | argumentsLast _ _ ih => exact up ih id
  | argumentsMore _ hc _ _ ih ihs => exact append (up ih id) (cons (kind hc) ihs)
  | elementsMore _ _ _ ih ihs => exact append (up ih id) ihs
  | elementsComma _ hc _ ih ihs => exact append (up ih id) (cons (kind hc) ihs)
  | rowsLast _ _ _ ih => exact up ih id
  | rowsMore _ _ hc _ ih ihs =>
    have hrow := append (up (q := .rows) ih id) (cons (kind hc) ihs)
    exact hrow
  | comment ht => exact cons ⟨fun _ => rfl, fun hs => TokenKind.noConfusion (ht.symm.trans hs)⟩ nil
  | exit ht => exact cons (kind ht) nil
  | loopControl ht => rcases ht with ht | ht <;> exact cons (kind ht) nil
  | symbolDeclaration ht hx => exact cons (kind ht) (cons (kind hx) nil)
  | importStatement ht _ ih | returnStatement ht _ ih =>
    exact cons (kind ht) (up ih fun _ => rfl)
  | assignment hx he _ hm ih =>
    exact cons (kind hx) (cons (kind he) (append (up ih fun _ => rfl) hm.sorts))
  | expressionStatement _ _ hm ih => exact append (up ih fun _ => rfl) hm.sorts
  | ifStatement ht _ _ _ ih ihb ihc =>
    exact cons (kind ht) (append (up ih fun _ => rfl) (append (up ihb id) (up ihc id)))
  | whileLoop ht _ _ ih ihb =>
    exact cons (kind ht) (append (up ih fun _ => rfl) (up ihb id))
  | forLoop ht hx hi _ _ ih ihb =>
    exact cons (kind ht) (cons (kind hx) (cons (kind hi)
      (append (up ih fun _ => rfl) (up ihb id))))
  | functionDefinition ht hx ho hl _ _ hc _ ihp ihy ihb =>
    exact cons (kind ht) (cons (kind hx) (cons (kind ho) (append hl.sorts
      (append (up ihp fun _ => rfl) (append (up ihy fun _ => rfl)
        (cons (kind hc) (up ihb id)))))))
  | block ho _ hc ih => exact cons (kind ho) (append (up ih id) (cons (kind hc) nil))
  | clausesElseif hl ht _ _ _ ih ihb ihc =>
    exact append (sorts_all hl (by decide)) (cons (kind ht)
      (append (up ih fun _ => rfl) (append (up ihb id) ihc)))
  | clausesElse hl ht _ _ ihb ihc =>
    exact append (sorts_all hl (by decide)) (cons (kind ht) (append (up ihb id) (up ihc id)))
  | statementsSeparator ht _ ih => exact cons (kind rfl (TokenKind.sorts_isSeparator ht)) ih
  | statementsMore _ _ ih ihs => exact append (up ih id) ihs
  | _ => exact nil

/-! ### Comments among the nodes -/

/-- The nodes of comments below a node. -/
def Node.comments (n : Node) : List Node := n.walk.filter (·.kind == .comment)

lemma Node.comments_eq (n : Node) :
    n.comments = (if n.kind = .comment then [n] else []) ++ n.children.flatMap comments := by
  have hbelow : n.children.flatMap (fun m => m.walk.filter (·.kind == .comment))
      = n.children.flatMap comments := rfl
  rw [comments, walk_eq, List.filter_cons, List.filter_flatMap, hbelow]
  by_cases hk : n.kind = .comment <;> simp [hk]

@[simp] lemma Node.comments_leaf (kind : Kind) (t : Token) :
    (Node.leaf kind t).comments = if kind = .comment then [.leaf kind t] else [] := by
  rw [comments_eq]
  exact List.append_nil _

lemma Node.comments_spanning {kind : Kind} (hk : kind ≠ .comment) (p : Place) (stop : Nat)
    (children : List Node) (fields : FieldTable) (value : Option String) :
    (Node.spanning kind p stop children fields value).comments = children.flatMap comments := by
  rw [comments_eq]
  simp [spanning, hk]

@[simp] lemma Token.comments_nil : Token.comments [] = [] := rfl

lemma Token.comments_cons (t : Token) (ts : List Token) :
    comments (t :: ts) = (if t.kind = .comment then [t] else []) ++ comments ts := by
  rw [comments, List.filter_cons]
  by_cases hk : t.kind = .comment <;> simp [hk, comments]

/-- The nodes that a phrase takes up. -/
def Phrase.made : Phrase → List Node
  | .operators _ _ lhs => [lhs]
  | .suffixes operand => [operand]
  | _ => []

/-- The pieces of a string are those of a text. -/
def Phrase.Textual (lo hi : Nat) : Phrase → Prop
  | .segments segs => ∀ seg ∈ segs, (∀ name, seg.form ≠ .other name)
      ∧ ∀ ts, seg.form = .snippet ts → ∀ u ∈ ts, u.Placed lo hi
  | _ => True

lemma comments_loopControl {lo hi : Nat} (h : t.Placed lo hi)
    (hk : t.kind = .kwBreak ∨ t.kind = .kwCont) :
    (Node.leaf (.ofName t.value) t).comments = [] := by
  have hword := h.word hk
  rw [Node.comments_leaf, if_neg]
  rcases hk with hk | hk
  · rw [hk] at hword
    have hv : t.value = "break" := by simpa [TokenKind.keywords] using hword
    rw [hv]
    decide
  · rw [hk] at hword
    have hv : t.value = "cont" := by simpa [TokenKind.keywords] using hword
    rw [hv]
    decide

lemma comments_plainSegment {seg : Segment Token} (h : ∀ name, seg.form ≠ .other name) :
    (plainSegment seg).comments = [] := by
  unfold plainSegment
  split
  · rw [Node.comments_spanning (by decide), List.flatMap_cons, Node.comments_eq]
    simp
  · cases hform : seg.form with
    | other name => exact absurd hform (h name)
    | _ => rw [Node.comments_spanning (by simp [segmentKind])]; rfl

lemma Mark.comments {mark : Option String} (h : Mark ts k mark) : Token.comments ts = [] :=
  Token.comments_eq_nil.mpr fun t ht hk =>
    Bool.false_ne_true ((h.sorts (p := .unary false) t ht).comment hk)

lemma LeadingComma.comments (h : LeadingComma ts k) : Token.comments ts = [] :=
  Token.comments_eq_nil.mpr fun t ht hk =>
    Bool.false_ne_true ((h.sorts (p := .unary false) t ht).comment hk)

lemma comments_lines (h : ∀ t ∈ ts, t.kind = .newline) : Token.comments ts = [] :=
  Token.comments_eq_nil.mpr fun t ht hk => TokenKind.noConfusion ((h t ht).symm.trans hk)

/-- The comments among the nodes of a phrase are those among its tokens, in the
same order. -/
theorem Derives.comments {lo hi : Nat} (h : Derives a p ts k ns) (hts : ∀ t ∈ ts, t.Placed lo hi)
    (hp : p.Textual lo hi) :
    ns.flatMap Node.comments
      = p.made.flatMap Node.comments ++ (Token.comments ts).map (Node.leaf .comment) := by
  have inner {kind : TokenKind} {t : Token} {ts : List Token} (ht : t.kind = kind)
      (hk : kind ≠ .comment := by decide) : Token.comments (t :: ts) = Token.comments ts := by
    rw [Token.comments_cons, if_neg (by rw [ht]; exact hk), List.nil_append]
  have all {p : Phrase} {ts : List Token} {ns : List Node}
      (h : ns.flatMap Node.comments
        = p.made.flatMap Node.comments ++ (Token.comments ts).map (Node.leaf .comment))
      (hp : p.made = [] := by rfl) :
      ns.flatMap Node.comments = (Token.comments ts).map (Node.leaf .comment) := by
    rw [h, hp, List.flatMap_nil, List.nil_append]
  have one {p : Phrase} {ts : List Token} {n : Node}
      (h : [n].flatMap Node.comments
        = p.made.flatMap Node.comments ++ (Token.comments ts).map (Node.leaf .comment))
      (hp : p.made = [] := by rfl) :
      n.comments = (Token.comments ts).map (Node.leaf .comment) := by
    rw [← all h hp, List.flatMap_singleton]
  induction h generalizing lo hi with
  | expression _ _ ihl iho =>
    rw [List.forall_mem_append] at hts
    have hl := one (ihl hts.1 trivial)
    rw [iho hts.2 trivial, Token.comments_append]
    simp [Phrase.made, hl]
  | operatorsEnd => simp [Phrase.made]
  | operatorsMore hop _ _ _ _ ihr iho =>
    rw [List.forall_mem_cons, List.forall_mem_append] at hts
    have hr := one (ihr hts.2.1 trivial)
    rw [iho hts.2.2 trivial, inner rfl (TokenKind.sorts_binary? hop).1, Token.comments_append]
    simp [Phrase.made, binaryNode, Node.comments_spanning, hr]
  | unaryPrefix hop _ ih =>
    rw [List.forall_mem_cons] at hts
    have hn := one (ih hts.2 trivial)
    rw [inner rfl (TokenKind.sorts_isUnary hop).1]
    simp [Phrase.made, prefixNode, Node.comments_spanning, hn]
  | unaryPlain _ _ ihp ihs =>
    rw [List.forall_mem_append] at hts
    have hp := one (ihp hts.1 trivial)
    rw [ihs hts.2 trivial, Token.comments_append]
    simp [Phrase.made, hp]
  | suffixesEnd => simp [Phrase.made]
  | suffixesMore hop _ _ ih =>
    rw [List.forall_mem_cons] at hts
    have hk := mt (sorts_suffix (p := .unary false) hop).comment Bool.false_ne_true
    rw [ih hts.2 trivial, inner rfl hk]
    simp [Phrase.made, suffixNode, Node.comments_spanning]
  | matrix ho _ hc ih | bracketed ho _ hc ih =>
    rw [List.forall_mem_cons, List.forall_mem_append] at hts
    have hns := all (ih hts.2.1 trivial)
    simp [Phrase.made, Node.comments_spanning, Token.comments_append, inner ho, inner hc, ← hns]
  | plainName _ _ ih => exact ih hts trivial
  | call _ ho _ _ hc ihn ihx ihy =>
    simp only [List.forall_mem_append, List.forall_mem_cons] at hts
    simp only [callAhead, headKind_cons, Bool.and_eq_true, beq_iff_eq] at ho
    have hn := one (ihn hts.1 trivial)
    have hx := all (ihx hts.2.2.1 trivial)
    have hy := all (ihy hts.2.2.2.1 trivial)
    simp [Phrase.made, callNode, argumentsNode, Node.comments_spanning, Token.comments_append,
      inner ho.1, inner hc, hn, hx, hy]
  | rangeOfTwo hx hd hy =>
    simp [Phrase.made, Node.comments_spanning, inner hx, inner hd, inner hy]
  | rangeOfThree hx hd hy he hz =>
    simp [Phrase.made, Node.comments_spanning, inner hx, inner hd, inner hy, inner he, inner hz]
  | number ht => simp [Phrase.made, inner ht]
  | percentage ht hs =>
    simp only [percentAhead, headKind_cons, Bool.and_eq_true, beq_iff_eq] at hs
    simp [Phrase.made, Node.comments_spanning, inner ht, inner hs.1]
  | string ht _ ih =>
    rw [List.forall_mem_singleton] at hts
    have hns := all (ih (by simp) fun seg hseg =>
      ⟨hts.forms hseg, fun ts hf u hu => hts.snippets hseg hf u hu⟩)
    simp [Phrase.made, stringNode, Node.comments_spanning, inner ht, hns]
  | name ht _ ih =>
    rw [List.forall_mem_cons] at hts
    have hns := all (ih hts.2 trivial)
    simp [Phrase.made, memberNode, Node.comments_spanning, inner ht, hns]
  | membersEnd => rfl
  | membersMore hd ht _ ih =>
    simp only [dotAhead, headKind_cons, Bool.and_eq_true, beq_iff_eq] at hd
    rw [List.forall_mem_cons, List.forall_mem_cons] at hts
    have hns := all (ih hts.2.2 trivial)
    simp [Phrase.made, inner hd.1, inner ht, hns]
  | argumentValue _ _ ih => exact ih hts trivial
  | argumentName ht => simp [Phrase.made, inner ht]
  | argumentKeyword ht he _ ih =>
    rw [List.forall_mem_cons, List.forall_mem_cons] at hts
    have hn := one (ih hts.2.2 trivial)
    simp [Phrase.made, keywordNode, Node.comments_spanning, inner ht, inner he, hn]
  | argumentsEnd => rfl
  | argumentsLast _ _ ih => exact ih hts trivial
  | argumentsMore _ hc _ _ ih ihs | elementsComma _ hc _ ih ihs =>
    rw [List.forall_mem_append, List.forall_mem_cons] at hts
    have hn := one (ih hts.1 trivial)
    have hns := all (ihs hts.2.2 trivial)
    simp [Phrase.made, Token.comments_append, inner hc, hn, hns]
  | elementsEnd => rfl
  | elementsMore _ _ _ ih ihs =>
    rw [List.forall_mem_append] at hts
    have hn := one (ih hts.1 trivial)
    have hns := all (ihs hts.2 trivial)
    simp [Phrase.made, Token.comments_append, hn, hns]
  | rowsLast _ _ _ ih =>
    have hns := all (ih hts trivial)
    simp [Phrase.made, Node.comments_spanning, hns]
  | @rowsMore _ t c ts _ _ _ _ _ _ hc _ ih ihs =>
    rw [← List.cons_append, List.forall_mem_append, List.forall_mem_cons (a := c)] at hts
    have hns := all (ih hts.1 trivial)
    have hms := all (ihs hts.2.2 trivial)
    rw [← List.cons_append, Token.comments_append, inner hc]
    simp [Phrase.made, Node.comments_spanning, hns, hms]
  | segmentsNil => rfl
  | segmentsPlain _ _ ih =>
    obtain ⟨hseg, hsegs⟩ := List.forall_mem_cons.mp hp
    have hns := all (ih hts hsegs)
    simp [Phrase.made, comments_plainSegment hseg.1, hns]
  | segmentsSnippet hf hs he _ _ ihe ih =>
    obtain ⟨hseg, hsegs⟩ := List.forall_mem_cons.mp hp
    have htokens := placed_settle (hseg.2 _ hf) 0 none
    rw [hs, List.forall_mem_append] at htokens
    have hn := one (ihe htokens.1 trivial)
    -- an expression holds no comment
    have hnone := Token.comments_eq_nil.mpr fun t ht hk =>
      Bool.false_ne_true ((he.sorts t ht).comment hk)
    have hns := all (ih hts hsegs)
    simp [Phrase.made, snippetNode, Node.comments_spanning, hn, hnone, hns]
  | comment ht => simp [Phrase.made, Token.comments_cons, ht]
  | exit ht => simp [Phrase.made, inner ht]
  | loopControl ht =>
    rw [List.forall_mem_singleton] at hts
    have hnone := comments_loopControl hts ht
    rcases ht with hk | hk <;> simp [Phrase.made, hnone, inner hk]
  | symbolDeclaration ht hx => simp [Phrase.made, Node.comments_spanning, inner ht, inner hx]
  | importStatement ht _ ih | returnStatement ht _ ih =>
    rw [List.forall_mem_cons] at hts
    have hn := one (ih hts.2 trivial)
    simp [Phrase.made, Node.comments_spanning, inner ht, hn]
  | assignment hx he _ hm ih =>
    simp only [List.forall_mem_append, List.forall_mem_cons] at hts
    have hn := one (ih hts.2.2.1 trivial)
    simp [Phrase.made, Node.comments_spanning, inner hx, inner he, Token.comments_append, hn,
      hm.comments]
  | expressionStatement _ _ hm ih =>
    rw [List.forall_mem_append] at hts
    have hn := one (ih hts.1 trivial)
    simp [Phrase.made, Node.comments_spanning, Token.comments_append, hn, hm.comments]
  | ifStatement ht _ _ _ ih ihb ihc =>
    simp only [List.forall_mem_append, List.forall_mem_cons] at hts
    have hn := one (ih hts.2.1 trivial)
    have hb := one (ihb hts.2.2.1 trivial)
    have hc := all (ihc hts.2.2.2 trivial)
    simp [Phrase.made, Node.comments_spanning, Token.comments_append, inner ht, hn, hb, hc]
  | whileLoop ht _ _ ih ihb =>
    simp only [List.forall_mem_append, List.forall_mem_cons] at hts
    have hn := one (ih hts.2.1 trivial)
    have hb := one (ihb hts.2.2 trivial)
    simp [Phrase.made, Node.comments_spanning, Token.comments_append, inner ht, hn, hb]
  | forLoop ht hx hin _ _ ih ihb =>
    simp only [List.forall_mem_append, List.forall_mem_cons] at hts
    have hn := one (ih hts.2.2.2.1 trivial)
    have hb := one (ihb hts.2.2.2.2 trivial)
    simp [Phrase.made, Node.comments_spanning, Token.comments_append, inner ht, inner hx,
      inner hin, hn, hb]
  | functionDefinition ht hx ho hl _ _ hc _ ihx ihy ihb =>
    simp only [List.forall_mem_append, List.forall_mem_cons] at hts
    have hxs := all (ihx hts.2.2.2.2.1 trivial)
    have hys := all (ihy hts.2.2.2.2.2.1 trivial)
    have hb := one (ihb hts.2.2.2.2.2.2.2 trivial)
    simp [Phrase.made, argumentsNode, Node.comments_spanning, Token.comments_append, inner ht,
      inner hx, inner ho, inner hc, hl.comments, hxs, hys, hb]
  | block ho _ hc ih =>
    rw [List.forall_mem_cons, List.forall_mem_append] at hts
    have hns := all (ih hts.2.1 trivial)
    simp [Phrase.made, Node.comments_spanning, Token.comments_append, inner ho, inner hc, hns]
  | clausesEnd => rfl
  | clausesElseif hl ht _ _ _ ih ihb ihc =>
    simp only [List.forall_mem_append, List.forall_mem_cons] at hts
    have hn := one (ih hts.2.2.1 trivial)
    have hb := one (ihb hts.2.2.2.1 trivial)
    have hc := all (ihc hts.2.2.2.2 trivial)
    simp [Phrase.made, Node.comments_spanning, Token.comments_append, comments_lines hl, inner ht,
      hn, hb, hc]
  | clausesElse hl ht _ _ ihb ihc =>
    simp only [List.forall_mem_append, List.forall_mem_cons] at hts
    have hb := one (ihb hts.2.2.1 trivial)
    have hc := all (ihc hts.2.2.2 trivial)
    simp [Phrase.made, Node.comments_spanning, Token.comments_append, comments_lines hl, inner ht,
      hb, hc]
  | statementsEnd => rfl
  | statementsSeparator ht _ ih =>
    rw [List.forall_mem_cons] at hts
    rw [ih hts.2 trivial, inner rfl (TokenKind.sorts_isSeparator ht).1]
  | statementsMore _ _ ih ihs =>
    rw [List.forall_mem_append] at hts
    have hn := one (ih hts.1 trivial)
    have hns := all (ihs hts.2 trivial)
    simp [Phrase.made, Token.comments_append, hn, hns]

/-! ### Comments set aside -/

/-- A comment is kept or set aside. -/
lemma settle_perm (depth : Nat) (last : Option TokenKind) (ts : List Token) :
    ((Token.comments (settle depth last ts).1).map (Node.leaf .comment)
      ++ (settle depth last ts).2).Perm ((Token.comments ts).map (Node.leaf .comment)) := by
  induction ts generalizing depth last with
  | nil => exact .refl _
  | cons t ts ih =>
    rw [settle_cons]
    cases hk : keptToken? depth last t with
    | none =>
      rw [Token.comments_cons, if_pos (keptToken?_none hk)]
      exact List.perm_middle.trans ((ih depth last).cons _)
    | some u =>
      dsimp only
      rw [Token.comments_cons, Token.comments_cons t]
      rcases keptToken?_some hk with rfl | ⟨hmod, rfl⟩
      · rw [List.map_append, List.map_append, List.append_assoc]
        exact (ih _ _).append_left _
      · rw [hmod]
        exact ih _ _

/-- Strings are kept as they are. -/
lemma snippetTokens_settle (h : ∀ t ∈ ts, t.kind ≠ .string → t.segments = []) (depth : Nat)
    (last : Option TokenKind) :
    (settle depth last ts).1.flatMap Token.snippetTokens = ts.flatMap Token.snippetTokens := by
  induction ts generalizing depth last with
  | nil => rfl
  | cons t ts ih =>
    rw [List.forall_mem_cons] at h
    rw [settle_cons]
    cases hk : keptToken? depth last t with
    | none =>
      have hnone := h.1 (by rw [keptToken?_none hk]; decide)
      rw [List.flatMap_cons, Token.snippetTokens, hnone, List.flatMap_nil, List.nil_append]
      exact ih h.2 _ _
    | some u =>
      rw [List.flatMap_cons, List.flatMap_cons, ih h.2]
      rcases keptToken?_some hk with rfl | ⟨-, rfl⟩ <;> rfl

/-- A snippet that is read keeps no comment. -/
lemma settle_snippet {us vs : List Token} {n : Nat} {node : Node} (hs : SnippetSpelled n us)
    (h : (settle 0 none us).1 = vs ++ k) (hd : Derives a (.expression 1 false) vs k [node])
    (hk : headKind k = .eof) :
    ((settle 0 none us).2).Perm ((Token.comments us).map (Node.leaf .comment)) := by
  cases n with
  | zero => exact hs.elim
  | succ n =>
    obtain ⟨ws, e, rfl, he, hws⟩ := hs
    obtain ⟨heq, hne⟩ := settle_eof he fun u hu => (hws u hu).1
    rw [heq] at h
    obtain ⟨rfl, rfl⟩ := eq_of_append_eof h.symm hd.balanced.ne_eof hne he hk
    have hnone : Token.comments (settle 0 none ws).1 = [] := Token.comments_eq_nil.mpr
      fun t ht hc => Bool.false_ne_true ((hd.sorts t ht).comment hc)
    have hperm := settle_perm 0 none (ws ++ [e])
    rw [heq, Token.comments_append, hnone, Token.comments_cons, if_neg (by rw [he]; decide)] at hperm
    rw [heq]
    exact hperm

/-- The comments in the snippets of a string are set aside. -/
lemma segmentComments_perm {segs : List (Segment Token)} {n : Nat}
    (h : Derives a (.segments segs) [] [] ns)
    (hs : ∀ seg ∈ segs, ∀ us, seg.form = .snippet us → SnippetSpelled n us) :
    (segmentComments segs).Perm
      ((Token.comments (segs.flatMap Segment.snippetTokens)).map (Node.leaf .comment)) := by
  induction segs generalizing ns with
  | nil => exact .refl _
  | cons seg segs ih =>
    rw [List.forall_mem_cons] at hs
    cases h with
    | segmentsPlain hf h =>
      have hplain : segmentComments (seg :: segs) = segmentComments segs
          ∧ seg.snippetTokens = [] := by
        unfold segmentComments Segment.snippetTokens
        cases hform : seg.form with
        | snippet tokens => exact absurd hform (hf tokens)
        | _ => simp [hform]
      rw [hplain.1, List.flatMap_cons, hplain.2]
      exact ih h hs.2
    | @segmentsSnippet _ _ _ tokens us k n _ hf hsettle hd hk h =>
      have hsnippet : segmentComments (seg :: segs)
            = (settle 0 none tokens).2 ++ segmentComments segs
          ∧ seg.snippetTokens = tokens := by
        simp [segmentComments, Segment.snippetTokens, hf]
      rw [hsnippet.1, List.flatMap_cons, hsnippet.2, Token.comments_append, List.map_append]
      exact (settle_snippet (hs.1 _ hf) hsettle hd hk).append (ih h hs.2)

/-- The comments in the snippets of the tokens of a phrase are set aside. -/
lemma snippetComments_perm {n : Nat} (hs : ∀ t ∈ ts, t.Spelled n) (hd : ∀ t ∈ ts, t.Sorts p) :
    (ts.flatMap Token.snippetComments).Perm
      ((Token.comments (ts.flatMap Token.snippetTokens)).map (Node.leaf .comment)) := by
  induction ts with
  | nil => exact .refl _
  | cons t ts ih =>
    rw [List.forall_mem_cons] at hs hd
    rw [List.flatMap_cons, List.flatMap_cons, Token.comments_append, List.map_append]
    refine List.Perm.append ?_ (ih hs.2 hd.2)
    by_cases hk : t.kind = .string
    · obtain ⟨a, ns, h⟩ := hd.1.string hk
      obtain ⟨w, -, hparts⟩ := (Spells.parts (by rw [← hk]; exact hs.1))
      rw [Token.snippetComments, if_pos hk]
      exact segmentComments_perm h fun seg hseg us hf => hparts.tokens hseg hf
    · rw [Token.snippetComments_of_kind hk, Token.snippetTokens, hs.1.segments_eq_nil hk]
      exact .refl _

/-! ### Comments of programs -/

variable {source : String} {limit : Int} {us : List Token} {e : Token}

/-- The comments of an accepted program, those in snippets of snippets aside. -/
lemma Accepted.shallow_comments (h : Accepted source limit ts us e ns) :
    ((programTree ts us e ns).root.comments ++ (programTree ts us e ns).trivia).Perm
      ((Token.comments (ts ++ ts.flatMap Token.snippetTokens)).map (Node.leaf .comment)) := by
  obtain ⟨⟨s, hlexes⟩, -⟩ := h.lexes
  have hplaced := placed_settle hlexes.placed 0 none
  rw [h.settled] at hplaced
  have hroot : (programTree ts us e ns).root.comments
      = (Token.comments us).map (Node.leaf .comment) := by
    have hns := h.derives.comments hplaced trivial
    rw [programTree, Tree.ofNode, Node.comments_spanning (by decide), hns]
    rfl
  have hsame := snippetTokens_settle (fun t ht hk => (hlexes.spelled t ht).segments_eq_nil hk) 0 none
  rw [h.settled] at hsame
  have hkept := settle_perm 0 none ts
  rw [h.settled] at hkept
  rw [hroot, programTree, Tree.ofNode, ← List.append_assoc, Token.comments_append, List.map_append,
    ← hsame]
  exact hkept.append (snippetComments_perm h.spelled h.derives.sorts)

/-- All tokens are those of the text and those in its snippets, at any depth. -/
lemma walk_perm (ts : List Token) :
    (ts.flatMap Token.walk).Perm (ts ++ (ts.flatMap Token.snippetTokens).flatMap Token.walk) := by
  induction ts with
  | nil => exact .refl _
  | cons t ts ih =>
    rw [List.flatMap_cons, List.flatMap_cons, List.flatMap_append, Token.walk_eq, List.cons_append,
      List.cons_append]
    exact ((ih.append_left _).trans (List.perm_append_comm_assoc _ _ _)).cons _

/-- The tokens in the snippets of snippets, at any depth. -/
def deepTokens (ts : List Token) : List Token :=
  ((ts.flatMap Token.snippetTokens).flatMap Token.snippetTokens).flatMap Token.walk

lemma comments_walk (ts : List Token) :
    (Token.comments (ts.flatMap Token.walk)).Perm
      (Token.comments (ts ++ ts.flatMap Token.snippetTokens) ++ Token.comments (deepTokens ts)) := by
  rw [← Token.comments_append, List.append_assoc]
  exact ((walk_perm ts).trans ((walk_perm _).append_left ts)).filter _

/-- **Where the comments of a program go.** The nodes of comments and those set
aside are, one for one, the comments of the text and of its snippets. So they are
all comments, at any depth, exactly when no comment stands in a snippet of a
snippet. -/
theorem comments_perm {t : Tree} (h : parse source true limit = .ok t) :
    ∃ tokens, tokenize source limit = .ok tokens
      ∧ (t.root.comments ++ t.trivia).Perm
        ((Token.comments (tokens ++ tokens.flatMap Token.snippetTokens)).map (Node.leaf .comment))
      ∧ ((t.root.comments ++ t.trivia).Perm
          ((Token.comments (tokens.flatMap Token.walk)).map (Node.leaf .comment))
        ↔ ∀ u ∈ deepTokens tokens, u.kind ≠ .comment) := by
  obtain ⟨ts, us, e, ns, ha, rfl⟩ := parse_strict_iff.mp h
  have hend : Token.comments (ts ++ [e] ++ (ts ++ [e]).flatMap Token.snippetTokens)
      = Token.comments (ts ++ ts.flatMap Token.snippetTokens) := by
    simp [Token.comments_append, Token.comments_cons, ha.eof, Token.snippetTokens, ha.lexes.2]
  have hperm := ha.shallow_comments
  rw [← hend] at hperm
  refine ⟨ts ++ [e], ha.tokens, hperm, ?_⟩
  have hall := (comments_walk (ts ++ [e])).map (Node.leaf .comment)
  rw [List.map_append] at hall
  rw [← Token.comments_eq_nil]
  constructor
  · intro hsame
    have hlen := ((hperm.symm.trans hsame).trans hall).length_eq
    rw [List.length_append, List.length_map, List.length_map] at hlen
    exact List.length_eq_zero_iff.mp (by omega)
  · intro hnone
    rw [hnone, List.map_nil, List.append_nil] at hall
    exact hperm.trans hall.symm

/-- A comment within parentheses in a snippet, and one behind a statement. -/
theorem comments_perm_snippet :
    ∃ tokens t, tokenize "x = \"\\\x7b(1 # a\n)\\\x7d\" # b" 8 = .ok tokens
      ∧ parse "x = \"\\\x7b(1 # a\n)\\\x7d\" # b" true 8 = .ok t
      ∧ (Token.comments (tokens.flatMap Token.walk)).map (·.value) = ["# a", "# b"]
      ∧ (t.root.comments ++ t.trivia).Perm
          ((Token.comments (tokens.flatMap Token.walk)).map (Node.leaf .comment)) := by
  have htokens : (tokenize "x = \"\\\x7b(1 # a\n)\\\x7d\" # b" 8).toOption.map (fun tokens =>
      ((Token.comments (tokens.flatMap Token.walk)).map (·.value),
        (Token.comments (deepTokens tokens)).length)) = some (["# a", "# b"], 0) := by
    decide +kernel
  have htree : (parse "x = \"\\\x7b(1 # a\n)\\\x7d\" # b" true 8).toOption.isSome = true := by
    decide +kernel
  cases h : parse "x = \"\\\x7b(1 # a\n)\\\x7d\" # b" true 8 with
  | error err =>
    rw [h] at htree
    cases htree
  | ok t =>
    obtain ⟨tokens, hok, -, hall⟩ := comments_perm h
    rw [hok] at htokens
    obtain ⟨hvalues, hdeep⟩ := Prod.mk.inj (Option.some.inj htokens)
    exact ⟨tokens, t, hok, rfl, hvalues,
      hall.mpr (Token.comments_eq_nil.mp (List.length_eq_zero_iff.mp hdeep))⟩

/-- A comment in a snippet of a snippet becomes no node and is not set aside. -/
theorem comment_lost :
    ∃ tokens t, tokenize "\"\\\x7b\"\\\x7b(1#c\n)\\\x7d\"\\\x7d\"" 8 = .ok tokens
      ∧ parse "\"\\\x7b\"\\\x7b(1#c\n)\\\x7d\"\\\x7d\"" true 8 = .ok t
      ∧ (Token.comments (tokens.flatMap Token.walk)).map (·.value) = ["#c"]
      ∧ t.root.comments = [] ∧ t.trivia = []
      ∧ ¬(t.root.comments ++ t.trivia).Perm
          ((Token.comments (tokens.flatMap Token.walk)).map (Node.leaf .comment)) := by
  have htokens : (tokenize "\"\\\x7b\"\\\x7b(1#c\n)\\\x7d\"\\\x7d\"" 8).toOption.map (fun tokens =>
      (Token.comments (tokens.flatMap Token.walk)).map (·.value)) = some ["#c"] := by
    decide +kernel
  have htree : (parse "\"\\\x7b\"\\\x7b(1#c\n)\\\x7d\"\\\x7d\"" true 8).toOption.map (fun t =>
      (t.root.comments.length, t.trivia.length)) = some (0, 0) := by
    decide +kernel
  cases hok : tokenize "\"\\\x7b\"\\\x7b(1#c\n)\\\x7d\"\\\x7d\"" 8 with
  | error err =>
    rw [hok] at htokens
    cases htokens
  | ok tokens =>
    cases h : parse "\"\\\x7b\"\\\x7b(1#c\n)\\\x7d\"\\\x7d\"" true 8 with
    | error err =>
      rw [h] at htree
      cases htree
    | ok t =>
      rw [hok] at htokens
      rw [h] at htree
      obtain ⟨hroot, htrivia⟩ := Prod.mk.inj (Option.some.inj htree)
      have hvalues := Option.some.inj htokens
      refine ⟨tokens, t, rfl, rfl, hvalues, List.length_eq_zero_iff.mp hroot,
        List.length_eq_zero_iff.mp htrivia, fun hperm => ?_⟩
      have hlen := hperm.length_eq
      have hone := congrArg List.length hvalues
      rw [List.length_append, hroot, htrivia, List.length_map] at hlen
      rw [List.length_map] at hone
      rw [← hlen] at hone
      cases hone

end

end StpLang
