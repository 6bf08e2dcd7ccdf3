import StpLang.Proofs.Grammar.Derivation
import StpLang.Proofs.Lex.Placed
import StpLang.Proofs.Node

/-!
What is derived from the tokens of a text stands for no error.

The grammar names two kinds of nodes after the text of a token, those of
`break` and `cont` and those of the pieces of strings. For tokens of a text these
are never the kind of an error.

* `Derives.clean` shows that derived nodes hold no error.
-/

namespace StpLang

open Grammar

variable {lo hi : Nat} {t : Token} {seg : Segment Token}

@[simp] lemma Node.hasError_leaf (kind : Kind) (t : Token) :
    (Node.leaf kind t).hasError = (kind == .error) := by
  rw [hasError_eq]
  simp [leaf]

@[simp] lemma Node.hasError_spanning (kind : Kind) (p : Place) (stop : Nat) (children : List Node)
    (fields : FieldTable) (value : Option String) :
    (Node.spanning kind p stop children fields value).hasError
      = (kind == .error || children.any (·.hasError)) := by
  rw [hasError_eq]
  rfl

/-- The nodes of a phrase that were made before hold no error, and its pieces are
those of a text. -/
def Phrase.Clean (lo hi : Nat) : Phrase → Prop
  | .operators _ _ lhs => lhs.hasError = false
  | .suffixes operand => operand.hasError = false
  | .segments segs => ∀ seg ∈ segs, (∀ name, seg.form ≠ .other name)
      ∧ ∀ ts, seg.form = .snippet ts → ∀ u ∈ ts, u.Placed lo hi
  | _ => True

lemma clean_loopControl (h : t.Placed lo hi) (hk : t.kind = .kwBreak ∨ t.kind = .kwCont) :
    (Node.leaf (.ofName t.value) t).hasError = false := by
  have hword := h.word hk
  have hvalue : t.value = "break" ∨ t.value = "cont" := by
    rcases hk with hk | hk
    · rw [hk] at hword
      exact .inl (by simpa [TokenKind.keywords] using hword)
    · rw [hk] at hword
      exact .inr (by simpa [TokenKind.keywords] using hword)
  rw [Node.hasError_leaf]
  rcases hvalue with hv | hv <;> rw [hv] <;> decide

lemma clean_plainSegment (h : ∀ name, seg.form ≠ .other name) :
    (plainSegment seg).hasError = false := by
  unfold plainSegment
  split
  · rw [Node.hasError_spanning, List.any_cons, List.any_nil, Node.hasError_eq]
    rfl
  · rw [Node.hasError_spanning]
    cases hform : seg.form with
    | other name => exact absurd hform (h name)
    | _ => rfl

lemma clean_one {n : Node} (h : ∀ m ∈ [n], m.hasError = false) : n.hasError = false :=
  h n (List.mem_singleton_self n)

/-- What is derived from the tokens of a text holds no error. -/
theorem Derives.clean {a : Nat} {p : Phrase} {ts k : List Token} {ns : List Node}
    (h : Derives a p ts k ns) (hts : ∀ t ∈ ts, t.Placed lo hi) (hp : p.Clean lo hi) :
    ∀ n ∈ ns, n.hasError = false := by
  induction h generalizing lo hi with
  | expression _ _ ihl iho =>
    rw [List.forall_mem_append] at hts
    exact iho hts.2 (clean_one (ihl hts.1 trivial))
  | operatorsEnd => exact List.forall_mem_singleton.mpr hp
  | operatorsMore _ _ _ _ _ ihr iho =>
    rw [List.forall_mem_cons, List.forall_mem_append] at hts
    have hr := clean_one (ihr hts.2.1 trivial)
    refine iho hts.2.2 ?_
    have hl : Node.hasError _ = false := hp
    simp [Phrase.Clean, binaryNode, hl, hr]
  | unaryPrefix _ _ ih =>
    rw [List.forall_mem_cons] at hts
    have hn := clean_one (ih hts.2 trivial)
    simp [prefixNode, hn]
  | unaryPlain _ _ ihp ihs =>
    rw [List.forall_mem_append] at hts
    exact ihs hts.2 (clean_one (ihp hts.1 trivial))
  | suffixesEnd => exact List.forall_mem_singleton.mpr hp
  | suffixesMore _ _ _ ih =>
    rw [List.forall_mem_cons] at hts
    refine ih hts.2 ?_
    have ho : Node.hasError _ = false := hp
    simp [Phrase.Clean, suffixNode, ho]
  | matrix _ _ _ ih =>
    rw [List.forall_mem_cons, List.forall_mem_append] at hts
    have hn := ih hts.2.1 trivial
    simpa using hn
  | bracketed _ _ _ ih =>
    rw [List.forall_mem_cons, List.forall_mem_append] at hts
    have hn := ih hts.2.1 trivial
    simpa using hn
  | plainName _ _ ih => exact ih hts trivial
  | call _ _ _ _ _ ihn ihx ihy =>
    simp only [List.forall_mem_append, List.forall_mem_cons] at hts
    obtain ⟨hn, -, hx, hy, -⟩ := hts
    simpa [callNode, argumentsNode] using
      ⟨clean_one (ihn hn trivial), ihx hx trivial, ihy hy trivial⟩
  | rangeOfTwo => simp
  | rangeOfThree => simp
  | number => simp
  | percentage => simp
  | string _ _ ih =>
    rw [List.forall_mem_singleton] at hts
    have hn := ih (by simp) fun seg hseg =>
      ⟨hts.forms hseg, fun ts hf u hu => hts.snippets hseg hf u hu⟩
    simpa [stringNode] using hn
  | name _ _ ih =>
    rw [List.forall_mem_cons] at hts
    simpa [memberNode] using ih hts.2 trivial
  | membersEnd => simp
  | membersMore _ _ _ ih =>
    rw [List.forall_mem_cons, List.forall_mem_cons] at hts
    simpa using ih hts.2.2 trivial
  | argumentValue _ _ ih => exact ih hts trivial
  | argumentName => simp
  | argumentKeyword _ _ _ ih =>
    rw [List.forall_mem_cons, List.forall_mem_cons] at hts
    simpa [keywordNode] using ih hts.2.2 trivial
  | argumentsEnd => simp
  | argumentsLast _ _ ih => exact ih hts trivial
  | argumentsMore _ _ _ _ ih ihs =>
    rw [List.forall_mem_append, List.forall_mem_cons] at hts
    rw [List.forall_mem_cons]
    exact ⟨clean_one (ih hts.1 trivial), ihs hts.2.2 trivial⟩
  | elementsEnd => simp
  | elementsMore _ _ _ ih ihs =>
    rw [List.forall_mem_append] at hts
    rw [List.forall_mem_cons]
    exact ⟨clean_one (ih hts.1 trivial), ihs hts.2 trivial⟩
  | elementsComma _ _ _ ih ihs =>
    rw [List.forall_mem_append, List.forall_mem_cons] at hts
    rw [List.forall_mem_cons]
    exact ⟨clean_one (ih hts.1 trivial), ihs hts.2.2 trivial⟩
  | rowsLast _ _ _ ih => simpa using ih hts trivial
  | rowsMore _ _ _ _ ih ihs =>
    simp only [List.forall_mem_append, List.forall_mem_cons] at hts
    obtain ⟨h1, h2, -, h3⟩ := hts
    rw [List.forall_mem_cons]
    have hrow := ih (List.forall_mem_cons.mpr ⟨h1, h2⟩) trivial
    exact ⟨by simpa using hrow, ihs h3 trivial⟩
  | segmentsNil => simp
  | segmentsPlain _ _ ih =>
    obtain ⟨hseg, hsegs⟩ := List.forall_mem_cons.mp hp
    rw [List.forall_mem_cons]
    exact ⟨clean_plainSegment hseg.1, ih hts hsegs⟩
  | segmentsSnippet hf hs _ _ _ ihe ih =>
    obtain ⟨hseg, hsegs⟩ := List.forall_mem_cons.mp hp
    have htokens := placed_settle (hseg.2 _ hf) 0 none
    rw [hs, List.forall_mem_append] at htokens
    rw [List.forall_mem_cons]
    refine ⟨?_, ih hts hsegs⟩
    simpa [snippetNode] using ihe htokens.1 trivial
  | comment => simp
  | exit => simp
  | loopControl ht =>
    rw [List.forall_mem_singleton] at hts ⊢
    exact clean_loopControl hts ht
  | symbolDeclaration => simp
  | importStatement _ _ ih =>
    rw [List.forall_mem_cons] at hts
    simpa using ih hts.2 trivial
  | returnStatement _ _ ih =>
    rw [List.forall_mem_cons] at hts
    simpa using ih hts.2 trivial
  | assignment _ _ _ _ ih =>
    simp only [List.forall_mem_append, List.forall_mem_cons] at hts
    simpa using ih hts.2.2.1 trivial
  | expressionStatement _ _ _ ih =>
    rw [List.forall_mem_append] at hts
    simpa using ih hts.1 trivial
  | ifStatement _ _ _ _ ih ihb ihc =>
    simp only [List.forall_mem_append, List.forall_mem_cons] at hts
    obtain ⟨-, h1, h2, h3⟩ := hts
    simpa using ⟨clean_one (ih h1 trivial), clean_one (ihb h2 trivial), ihc h3 trivial⟩
  | whileLoop _ _ _ ih ihb =>
    simp only [List.forall_mem_append, List.forall_mem_cons] at hts
    simpa using ⟨clean_one (ih hts.2.1 trivial), clean_one (ihb hts.2.2 trivial)⟩
  | forLoop _ _ _ _ _ ih ihb =>
    simp only [List.forall_mem_append, List.forall_mem_cons] at hts
    simpa using ⟨clean_one (ih hts.2.2.2.1 trivial), clean_one (ihb hts.2.2.2.2 trivial)⟩
  | functionDefinition _ _ _ _ _ _ _ _ ihx ihy ihb =>
    simp only [List.forall_mem_append, List.forall_mem_cons] at hts
    obtain ⟨-, -, -, -, h1, h2, -, h3⟩ := hts
    simpa [argumentsNode] using ⟨ihx h1 trivial, ihy h2 trivial, clean_one (ihb h3 trivial)⟩
  | block _ _ _ ih =>
    rw [List.forall_mem_cons, List.forall_mem_append] at hts
    simpa using ih hts.2.1 trivial
  | clausesEnd => simp
  | clausesElseif _ _ _ _ _ ih ihb ihc =>
    simp only [List.forall_mem_append, List.forall_mem_cons] at hts
    obtain ⟨-, -, h1, h2, h3⟩ := hts
    rw [List.forall_mem_cons]
    exact ⟨by simpa using ⟨clean_one (ih h1 trivial), clean_one (ihb h2 trivial)⟩, ihc h3 trivial⟩
  | clausesElse _ _ _ _ ihb ihc =>
    simp only [List.forall_mem_append, List.forall_mem_cons] at hts
    obtain ⟨-, -, h1, h2⟩ := hts
    rw [List.forall_mem_cons]
    exact ⟨by simpa using ihb h1 trivial, ihc h2 trivial⟩
  | statementsEnd => simp
  | statementsSeparator _ _ ih =>
    rw [List.forall_mem_cons] at hts
    exact ih hts.2 trivial
  | statementsMore _ _ ih ihs =>
    rw [List.forall_mem_append] at hts
    rw [List.forall_mem_cons]
    exact ⟨clean_one (ih hts.1 trivial), ihs hts.2 trivial⟩

end StpLang
