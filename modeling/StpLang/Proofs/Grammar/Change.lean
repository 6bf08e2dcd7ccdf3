import StpLang.Proofs.Grammar.Derivation

/-!
Phrases before a change of the tokens.

What follows a phrase matters to the grammar only up to the next separator. The
one exception is an `if`, behind which line ends are passed over in search of a
further clause.

* `Shares` says that two continuations agree up to a separator.
* `Derives.change` puts one for the other.
-/

namespace StpLang

open Grammar

/-- Two sequences of tokens agree up to and including a separator. -/
def Shares (k k' : List Token) : Prop :=
  ∃ us x l l', k = us ++ x :: l ∧ k' = us ++ x :: l' ∧ x.kind.isSeparator = true

namespace Shares

variable {k k' : List Token}

lemma append (h : Shares k k') (ts : List Token) : Shares (ts ++ k) (ts ++ k') := by
  obtain ⟨us, x, l, l', rfl, rfl, hx⟩ := h
  exact ⟨ts ++ us, x, l, l', by simp, by simp, hx⟩

lemma cons (h : Shares k k') (t : Token) : Shares (t :: k) (t :: k') := h.append [t]

lemma of_separator {x : Token} (hx : x.kind.isSeparator = true) (us l l' : List Token) :
    Shares (us ++ x :: l) (us ++ x :: l') := ⟨us, x, l, l', rfl, rfl, hx⟩

/-- The first tokens are the same, and unless they are a separator also the
second ones. -/
lemma heads (h : Shares k k') :
    ∃ t l l', k = t :: l ∧ k' = t :: l'
      ∧ (t.kind.isSeparator = true ∨ ∃ u m m', l = u :: m ∧ l' = u :: m') := by
  obtain ⟨us, x, l, l', rfl, rfl, hx⟩ := h
  match us with
  | [] => exact ⟨x, l, l', rfl, rfl, .inl hx⟩
  | [t] => exact ⟨t, _, _, rfl, rfl, .inr ⟨x, l, l', rfl, rfl⟩⟩
  | t :: u :: us => exact ⟨t, _, _, rfl, rfl, .inr ⟨u, _, _, rfl, rfl⟩⟩

lemma headKind_eq (h : Shares k k') : headKind k' = headKind k := by
  obtain ⟨t, l, l', rfl, rfl, -⟩ := h.heads
  rfl

lemma headSpaced_eq (h : Shares k k') : headSpaced k' = headSpaced k := by
  obtain ⟨t, l, l', rfl, rfl, -⟩ := h.heads
  rfl

lemma signAhead_eq (h : Shares k k') : signAhead k' = signAhead k := by
  obtain ⟨t, l, l', rfl, rfl, ht | ⟨u, m, m', rfl, rfl⟩⟩ := h.heads
  · have hplus : (t.kind == .plus) = false ∧ (t.kind == .minus) = false := by
      constructor
      all_goals
        rw [beq_eq_false_iff_ne]
        rintro hk
        rw [hk] at ht
        cases ht
    simp [signAhead, hplus]
  · rfl

lemma bindingAhead_eq (h : Shares k k') : bindingAhead k' = bindingAhead k := by
  obtain ⟨t, l, l', rfl, rfl, ht | ⟨u, m, m', rfl, rfl⟩⟩ := h.heads
  · have hname : (t.kind == .identifier) = false := by
      rw [beq_eq_false_iff_ne]
      rintro hk
      rw [hk] at ht
      cases ht
    simp [bindingAhead, hname]
  · rfl

lemma operatorAhead_eq (h : Shares k k') (least : Nat) (m : Bool) :
    operatorAhead least m k' = operatorAhead least m k := by
  simp only [operatorAhead, h.headKind_eq, h.signAhead_eq]

lemma suffixAhead_eq (h : Shares k k') : suffixAhead k' = suffixAhead k := by
  simp only [suffixAhead, h.headKind_eq, h.headSpaced_eq]

lemma dotAhead_eq (h : Shares k k') (m : Bool) : dotAhead m k' = dotAhead m k := by
  simp only [dotAhead, h.headKind_eq, h.headSpaced_eq]

lemma callAhead_eq (h : Shares k k') (m : Bool) : callAhead m k' = callAhead m k := by
  simp only [callAhead, h.headKind_eq, h.headSpaced_eq]

lemma percentAhead_eq (h : Shares k k') : percentAhead k' = percentAhead k := by
  simp only [percentAhead, h.headKind_eq, h.headSpaced_eq]

end Shares

section

variable {k k' : List Token}

/-- Behind a token that is no line end, clauses do not matter. -/
lemma clauseAhead_cons {t : Token} (ht : t.kind ≠ .newline) :
    clauseAhead (t :: k') = clauseAhead (t :: k) := by
  have hn : (t.kind == .newline) = false := by simpa using ht
  simp [clauseAhead, clauseKind, hn]

lemma clauseAhead_append (h : clauseAhead k' = clauseAhead k) (ts : List Token) :
    clauseAhead (ts ++ k') = clauseAhead (ts ++ k) := by
  induction ts with
  | nil => exact h
  | cons t ts ih =>
    by_cases ht : t.kind = .newline
    · simpa [clauseAhead, clauseKind, ht] using ih
    · exact clauseAhead_cons ht

/-- Some token other than a line end comes first. -/
lemma clauseAhead_of_mem {ts : List Token} (h : ∃ t ∈ ts, t.kind ≠ .newline) :
    clauseAhead (ts ++ k') = clauseAhead (ts ++ k) := by
  obtain ⟨t, ht, hk⟩ := h
  obtain ⟨us, vs, rfl⟩ := List.append_of_mem ht
  rw [List.append_assoc, List.append_assoc]
  exact clauseAhead_append (clauseAhead_cons hk) us

lemma Mark.change {ms : List Token} {mark : Option String} (h : Mark ms k mark)
    (hs : Shares k k') : Mark ms k' mark := by
  cases h with
  | none h => exact .none (by rwa [hs.headKind_eq])
  | semicolon h => exact .semicolon h

lemma LeadingComma.change {ls : List Token} (h : LeadingComma ls k) (hs : Shares k k') :
    LeadingComma ls k' := by
  cases h with
  | none => exact .none
  | comma h hk => exact .comma h (by rwa [hs.bindingAhead_eq])

end

/-- The phrases that may go on with a further clause. -/
def Clausal : Phrase → List Node → Prop
  | .clauses .., _ => True
  | .statements .., _ => True
  | .statement _, ns => ∃ n ∈ ns, n.kind = .ifStatement
  | _, _ => False

/-- A phrase stays a phrase when what follows it changes behind a separator. -/
theorem Derives.change {a : Nat} {p : Phrase} {ts k k' : List Token} {ns : List Node}
    (h : Derives a p ts k ns) (hs : Shares k k')
    (hclause : Clausal p ns → clauseAhead k' = clauseAhead k) : Derives a p ts k' ns := by
  induction h generalizing k' with
  | expression _ _ ihl iho =>
    exact .expression (ihl (hs.append _) False.elim) (iho hs False.elim)
  | operatorsEnd h => exact .operatorsEnd (by rwa [hs.operatorAhead_eq])
  | operatorsMore hop h _ hh _ ihr iho =>
    rw [← ((hs.append _).cons _).operatorAhead_eq] at h
    exact .operatorsMore hop h (ihr (hs.append _) False.elim) hh (iho hs False.elim)
  | unaryPrefix hop _ ih => exact .unaryPrefix hop (ih hs False.elim)
  | unaryPlain _ _ ihp ihs =>
    exact .unaryPlain (ihp (hs.append _) False.elim) (ihs hs False.elim)
  | suffixesEnd h => exact .suffixesEnd (by rwa [hs.suffixAhead_eq])
  | suffixesMore hop hh _ ih => exact .suffixesMore hop hh (ih hs False.elim)
  | matrix ho _ hc ih => exact .matrix ho (ih (hs.cons _) False.elim) hc
  | bracketed ho _ hc ih => exact .bracketed ho (ih (hs.cons _) False.elim) hc
  | plainName _ hk ih => exact .plainName (ih hs False.elim) (by rwa [hs.callAhead_eq])
  | call _ ho _ _ hc ihn ihx ihy =>
    exact .call (ihn ((((hs.cons _).append _).append _).cons _) False.elim) ho
      (ihx ((hs.cons _).append _) False.elim) (ihy (hs.cons _) False.elim) hc
  | rangeOfTwo hx hd hy hk => exact .rangeOfTwo hx hd hy (by rwa [hs.headKind_eq])
  | rangeOfThree hx hd hy he hz hk => exact .rangeOfThree hx hd hy he hz (by rwa [hs.headKind_eq])
  | number ht hk hp =>
    exact .number ht (by rwa [hs.headKind_eq]) (by rwa [hs.percentAhead_eq])
  | percentage ht hp => exact .percentage ht hp
  | string ht h => exact .string ht h
  | name ht _ ih => exact .name ht (ih hs False.elim)
  | membersEnd h => exact .membersEnd (by rwa [hs.dotAhead_eq])
  | membersMore hd ht _ ih => exact .membersMore hd ht (ih hs False.elim)
  | argumentValue _ hb ih =>
    exact .argumentValue (ih hs False.elim) (by rwa [(hs.append _).bindingAhead_eq])
  | argumentName ht hb => exact .argumentName ht (by rwa [(hs.cons _).bindingAhead_eq])
  | argumentKeyword ht he _ ih => exact .argumentKeyword ht he (ih hs False.elim)
  | argumentsEnd h => exact .argumentsEnd (by rwa [hs.headKind_eq, hs.bindingAhead_eq])
  | argumentsLast _ hk ih => exact .argumentsLast (ih hs False.elim) (by rwa [hs.headKind_eq])
  | argumentsMore _ hc hk _ ih ihs =>
    exact .argumentsMore (ih ((hs.append _).cons _) False.elim) hc
      (by rwa [(hs.append _).headKind_eq]) (ihs hs False.elim)
  | elementsEnd h => exact .elementsEnd (by rwa [hs.headKind_eq])
  | elementsMore _ hk _ ih ihs =>
    exact .elementsMore (ih (hs.append _) False.elim) (by rwa [(hs.append _).headKind_eq])
      (ihs hs False.elim)
  | elementsComma _ hc _ ih ihs =>
    exact .elementsComma (ih ((hs.append _).cons _) False.elim) hc (ihs hs False.elim)
  | rowsLast _ hl hk ih => exact .rowsLast (ih hs False.elim) hl (by rwa [hs.headKind_eq])
  | rowsMore _ hn hc _ ih ihs =>
    exact .rowsMore (ih ((hs.append _).cons _) False.elim) hn hc (ihs hs False.elim)
  | segmentsNil | segmentsPlain | segmentsSnippet =>
    obtain ⟨t, l, l', hk, -⟩ := hs.heads
    cases hk
  | comment ht => exact .comment ht
  | exit ht => exact .exit ht
  | loopControl ht hl => exact .loopControl ht hl
  | symbolDeclaration ht hx => exact .symbolDeclaration ht hx
  | importStatement ht _ ih => exact .importStatement ht (ih hs False.elim)
  | returnStatement ht _ ih => exact .returnStatement ht (ih hs False.elim)
  | assignment hx he _ hm ih =>
    exact .assignment hx he (ih (hs.append _) False.elim) (hm.change hs)
  | expressionStatement _ hb hm ih =>
    exact .expressionStatement (ih (hs.append _) False.elim)
      (by rwa [((hs.append _).append _).bindingAhead_eq]) (hm.change hs)
  | ifStatement ht _ _ _ ih ihb ihc =>
    have hmore := hclause ⟨_, List.mem_singleton_self _, rfl⟩
    exact .ifStatement ht (ih ((hs.append _).append _) False.elim) (ihb (hs.append _) False.elim)
      (ihc hs fun _ => hmore)
  | whileLoop ht _ _ ih ihb =>
    exact .whileLoop ht (ih (hs.append _) False.elim) (ihb hs False.elim)
  | forLoop ht hx hi _ _ ih ihb =>
    exact .forLoop ht hx hi (ih (hs.append _) False.elim) (ihb hs False.elim)
  | functionDefinition ht hx ho hl _ _ hc _ ihp ihy ihb =>
    exact .functionDefinition ht hx ho (hl.change ((((hs.append _).cons _).append _).append _))
      (ihp (((hs.append _).cons _).append _) False.elim) (ihy ((hs.append _).cons _) False.elim) hc
      (ihb hs False.elim)
  | block ho _ hc ih =>
    exact .block ho (ih (hs.cons _) fun _ => clauseAhead_cons (by rw [hc]; decide)) hc
  | clausesEnd h => exact .clausesEnd (by rwa [hclause trivial])
  | clausesElseif hl ht _ _ _ ih ihb ihc =>
    exact .clausesElseif hl ht (ih ((hs.append _).append _) False.elim)
      (ihb (hs.append _) False.elim) (ihc hs fun _ => hclause trivial)
  | clausesElse hl ht _ _ ihb ihc =>
    exact .clausesElse hl ht (ihb (hs.append _) False.elim) (ihc hs fun _ => hclause trivial)
  | statementsEnd h => exact .statementsEnd (by rwa [hs.headKind_eq])
  | statementsSeparator ht _ ih => exact .statementsSeparator ht (ih hs fun _ => hclause trivial)
  | statementsMore _ _ ih ihs =>
    exact .statementsMore (ih (hs.append _) fun _ => clauseAhead_append (hclause trivial) _)
      (ihs hs fun _ => hclause trivial)

end StpLang
