import StpLang.Proofs.Schema.Basic
import StpLang.Proofs.Spans

/-!
The grammar obeys the schema.

The nodes of a phrase fill the slots of the phrase, and each of them has the
children, the labels and the text that its kind prescribes. The tokens must be
those of a text: two kinds of nodes are named after the spelling of a token.

* `Phrase.parts` gives the slots that the nodes of a phrase fill.
* `Filled` says that nodes fill slots and obey the schema.
* `Derives.filled` follows this through the grammar and `Mends.filled` through that
  of a recovering reader.
-/

namespace StpLang

open Grammar Slot Node

/-! ### Slots of phrases -/

/-- The argument of a form. -/
def ArgumentForm.takes : ArgumentForm → Node → Bool
  | .value => of Kind.isExpression
  | .parameter => is .identifier
  | .keyword => is .keywordArg

/-- The slots that the nodes of a phrase fill. -/
def Phrase.parts : Phrase → List Slot
  | .expression .. | .operators .. => [.one (of Kind.isExpression)]
  | .unary _ => [.one (of Kind.isTerm)]
  | .suffixes _ | .primary _ => [.one (of Kind.isOperand)]
  | .name _ => [.one (is .memberAccess)]
  | .members _ => [.many (is .identifier)]
  | .argument form => [.one form.takes]
  | .arguments form => [.many form.takes]
  | .elements => [.many (of Kind.isExpression)]
  | .rows => [.many (is .matrixRow), .one (is .lastRow)]
  | .segments _ => [.many (of Kind.isSegment)]
  | .statement _ => [.one (of Kind.isEntry)]
  | .statements .. => [.many (of Kind.isEntry)]
  | .block _ => [.one (is .block)]
  | .clauses _ false => [.many (is .elseifClause), .optional (is .elseClause)]
  | .clauses _ true => []

/-- The nodes fill the slots and obey the schema. -/
structure Filled (slots : List Slot) (ns : List Node) : Prop where
  fills : fill slots ns = true
  formed : ∀ n ∈ ns, n.Formed

/-- A token spelled as those of a text are. -/
def Token.Regular (t : Token) : Prop := t.kind ≠ .eof → ∃ n, t.Spelled n

/-- The nodes of a phrase that were made before obey the schema, and its pieces are
those of a text. -/
def Phrase.Prepared : Phrase → Prop
  | .operators _ _ lhs => Filled [.one (of Kind.isExpression)] [lhs]
  | .suffixes operand => Filled [.one (of Kind.isOperand)] [operand]
  | .segments segs => ∃ n w, Parts (SnippetSpelled n) segs w
  | _ => True

section

variable {a : Nat} {p : Phrase} {ts us k : List Token} {n m : Node} {ns ms : List Node}
  {t : Token} {seg : Segment Token} {slots : List Slot} {test : Node → Bool}

lemma Filled.one (h : Filled [.one test] [n]) : test n = true ∧ n.Formed := by
  have hfill := h.fills
  rw [fill_one_cons, Bool.and_eq_true] at hfill
  exact ⟨hfill.1, h.formed n (List.mem_singleton_self n)⟩

lemma filled_one (hn : test n = true) (hf : n.Formed) : Filled [.one test] [n] := by
  refine ⟨?_, List.forall_mem_singleton.mpr hf⟩
  rw [fill_one_cons, hn]
  rfl

/-- A node before others fills a slot before theirs. -/
lemma Filled.before (h : Filled [.one test] [n]) (hs : Filled slots ns) :
    Filled (.one test :: slots) (n :: ns) := by
  obtain ⟨hn, hf⟩ := h.one
  refine ⟨?_, List.forall_mem_cons.mpr ⟨hf, hs.formed⟩⟩
  rw [fill_one_cons, hn, Bool.true_and]
  exact hs.fills

lemma Filled.many (h : Filled [.many test] ns) : ∀ n ∈ ns, test n = true :=
  fill_many_iff.mp h.fills

lemma filled_nil : Filled [.many test] [] :=
  ⟨by simp, fun _ hn => (List.not_mem_nil hn).elim⟩

/-- One more node fills a slot for many. -/
lemma Filled.cons (hn : test n = true) (hf : n.Formed) (h : Filled (.many test :: slots) ns) :
    Filled (.many test :: slots) (n :: ns) :=
  ⟨by rw [fill_many_cons hn]; exact h.fills, List.forall_mem_cons.mpr ⟨hf, h.formed⟩⟩

/-- What passes one test passes a weaker one. -/
lemma Filled.weaken {test' : Node → Bool} (h : Filled [.one test] [n])
    (hw : test n = true → test' n = true) : Filled [.one test'] [n] :=
  filled_one (hw h.one.1) h.one.2

/-! ### Nodes -/

lemma formed_leaf {kind : Kind} (h : (leaf kind t).Obeys) : (leaf kind t).Formed :=
  formed_iff.mpr ⟨h, fun _ hc => (List.not_mem_nil hc).elim⟩

/-- A node over nodes that obey the schema. -/
lemma formed_spanning {kind : Kind} {place : Place} {stop : Nat} {fields : FieldTable}
    {value : Option String} (h : Filled kind.parts ns) (hl : fields = kind.labels ns.length)
    (ht : (spanning kind place stop ns fields value).worded = true) :
    (spanning kind place stop ns fields value).Formed :=
  formed_iff.mpr ⟨⟨h.fills, hl, ht⟩, h.formed⟩

lemma filled_identifier (t : Token) : Filled [.one (is .identifier)] [leaf .identifier t] :=
  filled_one rfl (formed_leaf ⟨rfl, rfl, rfl⟩)

lemma filled_operator (t : Token) : Filled [.one (is .operator)] [leaf .operator t] :=
  filled_one rfl (formed_leaf ⟨rfl, rfl, rfl⟩)

lemma filled_number (t : Token) : Filled [.one (is .number)] [leaf .number t] :=
  filled_one rfl (formed_leaf ⟨rfl, rfl, rfl⟩)

/-- A piece of a string that holds no expression. -/
lemma formed_plainSegment {P : List Token → Prop} {segs : List (Segment Token)} {w : List Char}
    (hf : ∀ tokens, seg.form ≠ .snippet tokens) (h : Parts P (seg :: segs) w) :
    (plainSegment seg).kind.isSegment = true ∧ (plainSegment seg).Formed := by
  cases h with
  | chars form | escape form | octal form =>
    rw [plainSegment, form]
    exact ⟨rfl, formed_spanning ⟨rfl, by simp⟩ rfl rfl⟩
  | unicode form =>
    rw [plainSegment, form]
    refine ⟨rfl, formed_spanning (filled_one rfl ?_) rfl rfl⟩
    exact formed_iff.mpr ⟨⟨rfl, rfl, rfl⟩, fun _ hc => (List.not_mem_nil hc).elim⟩
  | snippet form => exact absurd form (hf _)

/-- The leaf of `break` or `cont`. -/
lemma formed_loopControl (h : t.Regular) (hk : t.kind = .kwBreak ∨ t.kind = .kwCont) :
    (leaf (.ofName t.value) t).kind.isStatement = true ∧ (leaf (.ofName t.value) t).Formed := by
  obtain ⟨m, hm⟩ := h (by rcases hk with hk | hk <;> rw [hk] <;> decide)
  rcases hk with hk | hk
  · have hv : t.value = "break" := hm.spelling (by rw [hk]; rfl)
    have hkind : Kind.ofName t.value = .breakStatement := by rw [hv]; decide
    rw [hkind]
    exact ⟨rfl, formed_leaf ⟨rfl, rfl, by simp [worded, leaf, hv]⟩⟩
  · have hv : t.value = "cont" := hm.spelling (by rw [hk]; rfl)
    have hkind : Kind.ofName t.value = .contStatement := by rw [hv]; decide
    rw [hkind]
    exact ⟨rfl, formed_leaf ⟨rfl, rfl, by simp [worded, leaf, hv]⟩⟩

/-- The text of the semicolon that ends a statement. -/
lemma Mark.text {mark : Option String} (h : Mark ts k mark) (hts : ∀ t ∈ ts, t.Regular) :
    mark = .none ∨ mark = some ";" := by
  cases h with
  | none => exact .inl rfl
  | semicolon hk =>
    obtain ⟨m, hm⟩ := hts _ (List.mem_singleton_self _) (by rw [hk]; decide)
    exact .inr (congrArg some (hm.spelling (by rw [hk]; rfl)))

/-- A row of a matrix. -/
lemma formed_row {kind : Kind} (place : Place) (stop : Nat)
    (hk : kind = .matrixRow ∨ kind = .lastRow) (h : Filled [.many (of Kind.isExpression)] ns)
    (hne : ns ≠ []) : (spanning kind place stop ns).Formed := by
  obtain ⟨n, ms, rfl⟩ := List.exists_cons_of_ne_nil hne
  have hall := List.forall_mem_cons.mp h.many
  have hformed := List.forall_mem_cons.mp h.formed
  have hrow : Filled [.one (of Kind.isExpression), .many (of Kind.isExpression)] (n :: ms) :=
    (filled_one hall.1 hformed.1).before ⟨fill_many_iff.mpr hall.2, hformed.2⟩
  rcases hk with rfl | rfl <;> exact formed_spanning hrow rfl rfl

/-- The positional arguments of a call or a definition. -/
lemma filled_positional (members : Kind → Bool) (opener closer : Token)
    (h : Filled [.many (of members)] ns)
    (hclass : ∀ k, members k = true → (k == .identifier || k.isExpression) = true) :
    Filled [.one (holding .positionalArgs members)]
      [argumentsNode .positionalArgs opener closer ns] := by
  refine filled_one ?_ (formed_spanning ⟨?_, h.formed⟩ rfl rfl)
  · exact List.all_eq_true.mpr h.many
  · exact fill_many_iff.mpr fun n hn => hclass _ (h.many n hn)

lemma filled_keyword (opener closer : Token) (h : Filled [.many (is .keywordArg)] ns) :
    Filled [.one (is .keywordArgs)] [argumentsNode .keywordArgs opener closer ns] :=
  filled_one rfl (formed_spanning h rfl rfl)

/-- The node of a definition. -/
lemma filled_definition {xs ys : List Node} {body : Node} {place : Place} {stop : Nat}
    (x opener closer : Token) (hx : Filled [.many (is .identifier)] xs)
    (hy : Filled [.many (is .keywordArg)] ys) (hb : Filled [.one (is .block)] [body]) :
    Filled [.one (of Kind.isEntry)] [spanning .functionDefinition place stop
      [leaf .identifier x, argumentsNode .positionalArgs opener closer xs,
        argumentsNode .keywordArgs opener closer ys, body]
      [(.fnName, [0]), (.posArgs, [1]), (.keywordArgs, [2]), (.fnBody, [3])]] := by
  refine filled_one rfl (formed_spanning ((filled_identifier x).before ?_) rfl rfl)
  refine (filled_positional (· == .identifier) opener closer hx fun k hk => ?_).before
    ((filled_keyword opener closer hy).before hb)
  rw [hk, Bool.true_or]

/-- Nothing follows the last clause. -/
lemma filled_else (h : Filled [] ns) (hk : n.kind = .elseClause) (hf : n.Formed) :
    Filled [.many (is .elseifClause), .optional (is .elseClause)] (n :: ns) := by
  obtain rfl : ns = [] := List.isEmpty_iff.mp h.fills
  refine ⟨?_, List.forall_mem_singleton.mpr hf⟩
  rw [fill_many_of_neg (by rw [is, hk]; rfl), fill_optional_cons, is, hk]
  rfl

/-- The tokens of a snippet up to its end mark are those of a text. -/
lemma regular_of_snippet {tokens : List Token} {b : Nat} (h : SnippetSpelled b tokens) :
    ∀ t ∈ (Parser.settle 0 none tokens).1, t.Regular := by
  cases b with
  | zero => exact h.elim
  | succ b =>
    obtain ⟨us, e, rfl, he, hus⟩ := h
    have hspelled := spelled_settle (n := b) (fun u hu => (hus u hu).2) 0 none
    rw [(settle_eof he fun u hu => (hus u hu).1).1]
    intro t ht hk
    rcases List.mem_append.mp ht with ht | ht
    · exact ⟨b, hspelled t ht⟩
    · rw [List.mem_singleton.mp ht] at hk
      exact absurd he hk

/-! ### Rules -/

/-- The nodes of a phrase over the tokens of a text obey the schema. -/
theorem Derives.filled (h : Derives a p ts k ns) (hts : ∀ t ∈ ts, t.Regular) (hp : p.Prepared) :
    Filled p.parts ns := by
  induction h with
  | expression _ _ ihl iho =>
    rw [List.forall_mem_append] at hts
    exact iho hts.2 ((ihl hts.1 trivial).weaken Kind.isExpression_of_isTerm)
  | operatorsEnd | suffixesEnd => exact hp
  | operatorsMore _ _ _ _ _ ihr iho =>
    rw [List.forall_mem_cons, List.forall_mem_append] at hts
    refine iho hts.2.2 (filled_one rfl (formed_spanning ?_ rfl rfl))
    exact hp.before ((filled_operator _).before (ihr hts.2.1 trivial))
  | unaryPrefix _ _ ih =>
    rw [List.forall_mem_cons] at hts
    exact filled_one rfl (formed_spanning ((filled_operator _).before (ih hts.2 trivial)) rfl rfl)
  | unaryPlain _ _ ihp ihs =>
    rw [List.forall_mem_append] at hts
    exact (ihs hts.2 (ihp hts.1 trivial)).weaken Kind.isTerm_of_isOperand
  | suffixesMore _ _ _ ih =>
    rw [List.forall_mem_cons] at hts
    refine ih hts.2 (filled_one rfl (formed_spanning ?_ rfl rfl))
    exact hp.before (filled_operator _)
  | matrix _ _ _ ih | bracketed _ _ _ ih =>
    rw [List.forall_mem_cons, List.forall_mem_append] at hts
    exact filled_one rfl (formed_spanning (ih hts.2.1 trivial) rfl rfl)
  | plainName _ _ ih =>
    exact (ih hts trivial).weaken fun hk => by rw [of, eq_of_beq hk]; rfl
  | call _ _ _ _ _ ihn ihx ihy =>
    simp only [List.forall_mem_append, List.forall_mem_cons] at hts
    obtain ⟨hn, -, hx, hy, -⟩ := hts
    refine filled_one rfl (formed_spanning ((ihn hn trivial).before ?_) rfl rfl)
    refine (filled_positional _ _ _ (ihx hx trivial) fun k hk => ?_).before
      (filled_keyword _ _ (ihy hy trivial))
    rw [hk, Bool.or_true]
  | rangeOfTwo =>
    exact filled_one rfl (formed_spanning ⟨rfl, by simp [(filled_number _).one.2]⟩ rfl rfl)
  | rangeOfThree =>
    exact filled_one rfl (formed_spanning ⟨rfl, by simp [(filled_number _).one.2]⟩ rfl rfl)
  | number => exact filled_one rfl (filled_number _).one.2
  | percentage => exact filled_one rfl (formed_spanning ⟨rfl, by simp⟩ rfl rfl)
  | string ht _ ih =>
    obtain ⟨m, hm⟩ := hts _ (List.mem_singleton_self _) (by rw [ht]; decide)
    obtain ⟨w, -, hparts⟩ := Spells.parts (by rw [← ht]; exact hm)
    exact filled_one rfl (formed_spanning (ih (by simp) ⟨m, w, hparts⟩) rfl rfl)
  | name _ _ ih =>
    rw [List.forall_mem_cons] at hts
    refine filled_one rfl (formed_spanning ((filled_identifier _).before (ih hts.2 trivial)) rfl ?_)
    simp [worded, Node.spanning]
  | membersEnd | argumentsEnd | elementsEnd | segmentsNil | statementsEnd => exact filled_nil
  | membersMore _ _ _ ih =>
    rw [List.forall_mem_cons, List.forall_mem_cons] at hts
    exact (ih hts.2.2 trivial).cons rfl (filled_identifier _).one.2
  | argumentValue _ _ ih => exact ih hts trivial
  | argumentName => exact filled_identifier _
  | argumentKeyword _ _ _ ih =>
    rw [List.forall_mem_cons, List.forall_mem_cons] at hts
    refine filled_one rfl (formed_spanning ?_ rfl rfl)
    exact (filled_identifier _).before (ih hts.2.2 trivial)
  | argumentsLast _ _ ih =>
    obtain ⟨hk, hf⟩ := (ih hts trivial).one
    exact filled_nil.cons hk hf
  | argumentsMore _ _ _ _ ih ihs =>
    rw [List.forall_mem_append, List.forall_mem_cons] at hts
    obtain ⟨hk, hf⟩ := (ih hts.1 trivial).one
    exact (ihs hts.2.2 trivial).cons hk hf
  | elementsMore _ _ _ ih ihs =>
    rw [List.forall_mem_append] at hts
    obtain ⟨hk, hf⟩ := (ih hts.1 trivial).one
    exact (ihs hts.2 trivial).cons hk hf
  | elementsComma _ _ _ ih ihs =>
    rw [List.forall_mem_append, List.forall_mem_cons] at hts
    obtain ⟨hk, hf⟩ := (ih hts.1 trivial).one
    exact (ihs hts.2.2 trivial).cons hk hf
  | rowsLast _ hl _ ih =>
    refine ⟨rfl, List.forall_mem_singleton.mpr (formed_row _ _ (.inr rfl) (ih hts trivial) ?_)⟩
    rintro rfl
    cases hl
  | rowsMore _ hne _ _ ih ihs =>
    simp only [List.forall_mem_append, List.forall_mem_cons] at hts
    obtain ⟨h1, h2, -, h3⟩ := hts
    have hrow := ih (List.forall_mem_cons.mpr ⟨h1, h2⟩) trivial
    exact (ihs h3 trivial).cons rfl (formed_row _ _ (.inl rfl) hrow hne)
  | segmentsPlain hf _ ih =>
    obtain ⟨m, w, hparts⟩ := hp
    obtain ⟨hk, hformed⟩ := formed_plainSegment hf hparts
    obtain ⟨v, hv⟩ := hparts.tail
    exact (ih hts ⟨m, v, hv⟩).cons hk hformed
  | segmentsSnippet hf hs _ _ _ ihe ih =>
    obtain ⟨m, w, hparts⟩ := hp
    obtain ⟨v, hv⟩ := hparts.tail
    have hinner := regular_of_snippet (hparts.tokens List.mem_cons_self hf)
    rw [hs, List.forall_mem_append] at hinner
    exact (ih hts ⟨m, v, hv⟩).cons rfl (formed_spanning (ihe hinner.1 trivial) rfl rfl)
  | comment => exact filled_one rfl (formed_leaf ⟨rfl, rfl, rfl⟩)
  | exit ht =>
    obtain ⟨m, hm⟩ := hts _ (List.mem_singleton_self _) (by rw [ht]; decide)
    have hv := hm.spelling (s := "exit") (by rw [ht]; rfl)
    exact filled_one rfl (formed_leaf ⟨rfl, rfl, by simp [worded, leaf, hv]⟩)
  | loopControl ht =>
    obtain ⟨hk, hf⟩ := formed_loopControl (hts _ (List.mem_singleton_self _)) ht
    exact filled_one (Kind.isEntry_of_isStatement hk) hf
  | symbolDeclaration =>
    exact filled_one rfl (formed_spanning (filled_identifier _) rfl rfl)
  | importStatement _ _ ih | returnStatement _ _ ih =>
    rw [List.forall_mem_cons] at hts
    exact filled_one rfl (formed_spanning (ih hts.2 trivial) rfl rfl)
  | assignment _ _ _ hm ih =>
    simp only [List.forall_mem_append, List.forall_mem_cons] at hts
    refine filled_one rfl (formed_spanning ?_ rfl ?_)
    · exact (filled_identifier _).before (ih hts.2.2.1 trivial)
    · rcases hm.text hts.2.2.2 with rfl | rfl <;> rfl
  | expressionStatement _ _ hm ih =>
    rw [List.forall_mem_append] at hts
    refine filled_one rfl (formed_spanning (ih hts.1 trivial) rfl ?_)
    rcases hm.text hts.2 with rfl | rfl <;> rfl
  | ifStatement _ _ _ _ ih ihb ihc =>
    simp only [List.forall_mem_append, List.forall_mem_cons] at hts
    obtain ⟨-, h1, h2, h3⟩ := hts
    refine filled_one rfl (formed_spanning ?_ rfl rfl)
    exact (ih h1 trivial).before ((ihb h2 trivial).before (ihc h3 trivial))
  | whileLoop _ _ _ ih ihb =>
    simp only [List.forall_mem_append, List.forall_mem_cons] at hts
    obtain ⟨-, h1, h2⟩ := hts
    exact filled_one rfl (formed_spanning ((ih h1 trivial).before (ihb h2 trivial)) rfl rfl)
  | forLoop _ _ _ _ _ ih ihb =>
    simp only [List.forall_mem_append, List.forall_mem_cons] at hts
    obtain ⟨-, -, -, h1, h2⟩ := hts
    refine filled_one rfl (formed_spanning ?_ rfl rfl)
    exact (filled_identifier _).before ((ih h1 trivial).before (ihb h2 trivial))
  | functionDefinition _ _ _ _ _ _ _ _ ihx ihy ihb =>
    simp only [List.forall_mem_append, List.forall_mem_cons] at hts
    obtain ⟨-, -, -, -, h1, h2, -, h3⟩ := hts
    exact filled_definition _ _ _ (ihx h1 trivial) (ihy h2 trivial) (ihb h3 trivial)
  | block _ _ _ ih =>
    rw [List.forall_mem_cons, List.forall_mem_append] at hts
    exact filled_one rfl (formed_spanning (ih hts.2.1 trivial) rfl rfl)
  | @clausesEnd _ _ seenElse => cases seenElse <;> exact ⟨rfl, by simp⟩
  | clausesElseif _ _ _ _ _ ih ihb ihc =>
    simp only [List.forall_mem_append, List.forall_mem_cons] at hts
    obtain ⟨-, -, h1, h2, h3⟩ := hts
    refine (ihc h3 trivial).cons rfl (formed_spanning ?_ rfl rfl)
    exact (ih h1 trivial).before (ihb h2 trivial)
  | clausesElse _ _ _ _ ihb ihc =>
    simp only [List.forall_mem_append, List.forall_mem_cons] at hts
    obtain ⟨-, -, h1, h2⟩ := hts
    exact filled_else (ihc h2 trivial) rfl (formed_spanning (ihb h1 trivial) rfl rfl)
  | statementsSeparator _ _ ih =>
    rw [List.forall_mem_cons] at hts
    exact ih hts.2 trivial
  | statementsMore _ _ ih ihs =>
    rw [List.forall_mem_append] at hts
    obtain ⟨hk, hf⟩ := (ih hts.1 trivial).one
    exact (ihs hts.2 trivial).cons hk hf

/-- The nodes of a recovering reader obey the schema. -/
theorem Mends.filled (h : Mends a p ts k ns) (hts : ∀ t ∈ ts, t.Regular) : Filled p.parts ns := by
  induction h with
  | simple h => exact h.filled hts trivial
  | ifStatement _ h _ _ ihb ihc =>
    simp only [List.forall_mem_append, List.forall_mem_cons] at hts
    obtain ⟨-, h1, h2, h3⟩ := hts
    refine filled_one rfl (formed_spanning ?_ rfl rfl)
    exact (h.filled h1 trivial).before ((ihb h2).before (ihc h3))
  | whileLoop _ h _ ihb =>
    simp only [List.forall_mem_append, List.forall_mem_cons] at hts
    obtain ⟨-, h1, h2⟩ := hts
    exact filled_one rfl (formed_spanning ((h.filled h1 trivial).before (ihb h2)) rfl rfl)
  | forLoop _ _ _ h _ ihb =>
    simp only [List.forall_mem_append, List.forall_mem_cons] at hts
    obtain ⟨-, -, -, h1, h2⟩ := hts
    refine filled_one rfl (formed_spanning ?_ rfl rfl)
    exact (filled_identifier _).before ((h.filled h1 trivial).before (ihb h2))
  | functionDefinition _ _ _ _ hx hy _ _ ihb =>
    simp only [List.forall_mem_append, List.forall_mem_cons] at hts
    obtain ⟨-, -, -, -, h1, h2, -, h3⟩ := hts
    exact filled_definition _ _ _ (hx.filled h1 trivial) (hy.filled h2 trivial) (ihb h3)
  | block _ _ _ ih =>
    rw [List.forall_mem_cons, List.forall_mem_append] at hts
    exact filled_one rfl (formed_spanning (ih hts.2.1) rfl rfl)
  | @clausesEnd _ _ seenElse => cases seenElse <;> exact ⟨rfl, by simp⟩
  | clausesElseif _ _ h _ _ ihb ihc =>
    simp only [List.forall_mem_append, List.forall_mem_cons] at hts
    obtain ⟨-, -, h1, h2, h3⟩ := hts
    refine (ihc h3).cons rfl (formed_spanning ?_ rfl rfl)
    exact (h.filled h1 trivial).before (ihb h2)
  | clausesElse _ _ _ _ ihb ihc =>
    simp only [List.forall_mem_append, List.forall_mem_cons] at hts
    obtain ⟨-, -, h1, h2⟩ := hts
    exact filled_else (ihc h2) rfl (formed_spanning (ihb h1) rfl rfl)
  | statementsEnd => exact filled_nil
  | statementsSeparator _ _ ih =>
    rw [List.forall_mem_cons] at hts
    exact ih hts.2
  | statementsMore _ _ ih ihs =>
    rw [List.forall_mem_append] at hts
    obtain ⟨hk, hf⟩ := (ih hts.1).one
    exact (ihs hts.2).cons hk hf
  | statementsBroken _ ihs =>
    rw [List.forall_mem_append] at hts
    exact (ihs hts.2).cons rfl (formed_spanning ⟨rfl, by simp⟩ rfl rfl)

end

end StpLang
