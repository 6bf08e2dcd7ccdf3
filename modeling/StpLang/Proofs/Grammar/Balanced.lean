import StpLang.Proofs.Grammar.Series
import StpLang.Proofs.Lex.Leading

/-!
Phrases close the groups that they open.

* `Balanced` says that every parenthesis and bracket has its partner.
* `Derives.balanced` shows it of phrases, `Series.balanced` of statements.
* `Balanced.groups` and `Balanced.depth` draw the conclusions for the lexer and
  for the preparation of the tokens.
-/

namespace StpLang

open Grammar Lexer

/-- The kinds of tokens that neither open nor close a group nor end the
input. -/
def TokenKind.isInner (k : TokenKind) : Bool :=
  !k.opensGroup && !k.closesGroup && k != .eof

lemma TokenKind.isInner_iff (k : TokenKind) :
    k.isInner = true ↔ k.opensGroup = false ∧ k.closesGroup = false ∧ k ≠ .eof := by
  simp [isInner, and_assoc]

/-- Every parenthesis and bracket has its partner, and the input does not
end. -/
inductive Balanced : List Token → Prop
  | nil : Balanced []
  | plain {t : Token} {ts : List Token} (ht : t.kind.isInner = true) (h : Balanced ts) :
      Balanced (t :: ts)
  | group {o c : Token} {ts us : List Token} (ho : o.kind.opensGroup = true)
      (hc : o.kind.closer? = some c.kind) (h : Balanced ts) (hs : Balanced us) :
      Balanced (o :: (ts ++ c :: us))

namespace Balanced

variable {t o c : Token} {ts us : List Token}

lemma append (h : Balanced ts) (h' : Balanced us) : Balanced (ts ++ us) := by
  induction h with
  | nil => exact h'
  | plain ht _ ih => exact .plain ht ih
  | group ho hc h _ _ ih =>
    rw [List.cons_append, List.append_assoc, List.cons_append]
    exact .group ho hc h ih

/-- A token of a known kind. -/
lemma one {kind : TokenKind} (ht : t.kind = kind) (hk : kind.isInner = true)
    (h : Balanced ts) : Balanced (t :: ts) := .plain (by rw [ht, hk]) h

lemma parens (ho : o.kind = .leftParen) (hc : c.kind = .rightParen) (h : Balanced ts) :
    Balanced (o :: (ts ++ [c])) := .group (by rw [ho]; rfl) (by rw [ho, hc]; rfl) h .nil

lemma brackets (ho : o.kind = .leftBracket) (hc : c.kind = .rightBracket) (h : Balanced ts) :
    Balanced (o :: (ts ++ [c])) := .group (by rw [ho]; rfl) (by rw [ho, hc]; rfl) h .nil

lemma lines (h : ∀ t ∈ ts, t.kind = .newline) : Balanced ts := by
  induction ts with
  | nil => exact .nil
  | cons t ts ih =>
    rw [List.forall_mem_cons] at h
    exact .one h.1 rfl (ih h.2)

end Balanced

lemma TokenKind.isInner_of_binary? {kind : TokenKind} {o : Nat × Assoc}
    (h : kind.binary? = some o) : kind.isInner = true := by
  cases kind <;> first | rfl | cases h

lemma TokenKind.isInner_of_isUnary {kind : TokenKind} (h : kind.isUnary = true) :
    kind.isInner = true := by
  cases kind <;> first | rfl | cases h

lemma TokenKind.isInner_of_isSuffix {kind : TokenKind} (h : kind.isSuffix = true) :
    kind.isInner = true := by
  cases kind <;> first | rfl | cases h

lemma TokenKind.isInner_of_isSeparator {kind : TokenKind} (h : kind.isSeparator = true) :
    kind.isInner = true := by
  cases kind <;> first | rfl | cases h

/-- The partner of a token that opens a group closes one. -/
lemma TokenKind.closesGroup_of_closer? {k l : TokenKind} (ho : k.opensGroup = true)
    (hc : k.closer? = some l) : l.closesGroup = true ∧ l.opensGroup = false := by
  cases k with
  | leftParen | leftBracket =>
    cases hc
    exact ⟨rfl, rfl⟩
  | _ => cases ho

lemma Mark.balanced {ms k : List Token} {mark : Option String} (h : Mark ms k mark) :
    Balanced ms := by
  cases h with
  | none => exact .nil
  | semicolon h => exact .one h rfl .nil

lemma LeadingComma.balanced {ls k : List Token} (h : LeadingComma ls k) : Balanced ls := by
  cases h with
  | none => exact .nil
  | comma h => exact .one h rfl .nil

/-- A phrase closes the groups that it opens. -/
theorem Derives.balanced {a : Nat} {p : Phrase} {ts k : List Token} {ns : List Node}
    (h : Derives a p ts k ns) : Balanced ts := by
  induction h with
  | expression _ _ ihl iho => exact ihl.append iho
  | operatorsMore hop _ _ _ _ ihr iho =>
    exact .plain (TokenKind.isInner_of_binary? hop) (ihr.append iho)
  | unaryPrefix hop _ ih =>
    exact .plain (TokenKind.isInner_of_isUnary hop) ih
  | unaryPlain _ _ ihp ihs => exact ihp.append ihs
  | suffixesMore hop _ _ ih =>
    simp only [suffixAhead, headKind_cons, Bool.and_eq_true] at hop
    exact .plain (TokenKind.isInner_of_isSuffix hop.1) ih
  | matrix ho _ hc ih => exact .brackets ho hc ih
  | bracketed ho _ hc ih => exact .parens ho hc ih
  | plainName _ _ ih => exact ih
  | call _ ho _ _ hc ihn ihx ihy =>
    simp only [callAhead, headKind_cons, Bool.and_eq_true, beq_iff_eq] at ho
    have hargs := Balanced.parens ho.1 hc (ihx.append ihy)
    rw [List.append_assoc] at hargs
    exact ihn.append hargs
  | rangeOfTwo hx hd hy =>
    exact .one hx rfl (.one hd rfl (.one hy rfl .nil))
  | rangeOfThree hx hd hy he hz =>
    exact .one hx rfl (.one hd rfl (.one hy rfl (.one he rfl (.one hz rfl .nil))))
  | number ht => exact .one ht rfl .nil
  | percentage ht hs =>
    simp only [percentAhead, headKind_cons, Bool.and_eq_true, beq_iff_eq] at hs
    exact .one ht rfl (.one hs.1 rfl .nil)
  | string ht => exact .one ht rfl .nil
  | name ht _ ih => exact .one ht rfl ih
  | membersMore hd ht _ ih =>
    simp only [dotAhead, headKind_cons, Bool.and_eq_true, beq_iff_eq] at hd
    exact .one hd.1 rfl (.one ht rfl ih)
  | argumentValue _ _ ih => exact ih
  | argumentName ht => exact .one ht rfl .nil
  | argumentKeyword ht he _ ih => exact .one ht rfl (.one he rfl ih)
  | argumentsLast _ _ ih => exact ih
  | argumentsMore _ hc _ _ ih ihs => exact ih.append (.one hc rfl ihs)
  | elementsMore _ _ _ ih ihs => exact ih.append ihs
  | elementsComma _ hc _ ih ihs => exact ih.append (.one hc rfl ihs)
  | rowsLast _ _ _ ih => exact ih
  | rowsMore _ _ hc _ ih ihs => exact ih.append (.one hc rfl ihs)
  | comment ht | exit ht => exact .one ht rfl .nil
  | loopControl ht =>
    rcases ht with ht | ht
    · exact .one ht rfl .nil
    · exact .one ht rfl .nil
  | symbolDeclaration ht hx => exact .one ht rfl (.one hx rfl .nil)
  | importStatement ht _ ih | returnStatement ht _ ih => exact .one ht rfl ih
  | assignment hx he _ hm ih =>
    exact .one hx rfl (.one he rfl (ih.append hm.balanced))
  | expressionStatement _ _ hm ih => exact ih.append hm.balanced
  | ifStatement ht _ _ _ ih ihb ihc => exact .one ht rfl (ih.append (ihb.append ihc))
  | whileLoop ht _ _ ih ihb => exact .one ht rfl (ih.append ihb)
  | forLoop ht hx hi _ _ ih ihb =>
    exact .one ht rfl (.one hx rfl (.one hi rfl (ih.append ihb)))
  | functionDefinition ht hx ho hl _ _ hc _ ihp ihy ihb =>
    have hargs := (Balanced.parens ho hc (hl.balanced.append (ihp.append ihy))).append ihb
    simp only [List.cons_append, List.append_assoc, List.nil_append] at hargs
    exact .one ht rfl (.one hx rfl hargs)
  | block ho _ hc ih => exact .one ho rfl (ih.append (.one hc rfl .nil))
  | clausesElseif hl ht _ _ _ ih ihb ihc =>
    exact (Balanced.lines hl).append (.one ht rfl (ih.append (ihb.append ihc)))
  | clausesElse hl ht _ _ ihb ihc =>
    exact (Balanced.lines hl).append (.one ht rfl (ihb.append ihc))
  | statementsSeparator ht _ ih =>
    exact .plain (TokenKind.isInner_of_isSeparator ht) ih
  | statementsMore _ _ ih ihs => exact ih.append ihs
  | _ => exact .nil

lemma Series.balanced {a loops : Nat} {ts k : List Token} {ns : List Node}
    (h : Series a loops ts k ns) : Balanced ts := by
  induction h with
  | nil => exact .nil
  | separator ht _ ih =>
    exact .plain (TokenKind.isInner_of_isSeparator ht) ih
  | more h _ ih => exact h.balanced.append ih

/-! ### Groups and depth -/

/-- The open groups behind some tokens. -/
abbrev groupsBehind (groups ts : List Token) : List Token :=
  ts.foldl (fun groups u => groupsAfter u groups) groups

/-- The number of open groups behind a token. -/
def depthAfter (depth : Nat) (t : Token) : Nat :=
  if t.kind.opensGroup then depth + 1 else if t.kind.closesGroup then depth - 1 else depth

/-- The number of open groups behind some tokens. -/
abbrev depthBehind (depth : Nat) (ts : List Token) : Nat := ts.foldl depthAfter depth

namespace Balanced

variable {ts : List Token}

/-- Behind balanced tokens the same groups are open as before. -/
lemma groups (h : Balanced ts) {gs : List Token} (hgs : ∀ g ∈ gs, g.kind.opensGroup = true) :
    groupsBehind gs ts = gs := by
  induction h generalizing gs with
  | nil => rfl
  | @plain t ts ht _ ih =>
    obtain ⟨ho, hc, -⟩ := t.kind.isInner_iff.mp ht
    have hsame : groupsAfter t gs = gs := by
      unfold groupsAfter
      rw [ho]
      cases gs with
      | nil => rfl
      | cons g gs =>
        have hne : g.kind.closer? ≠ some t.kind := fun heq => by
          rw [(TokenKind.closesGroup_of_closer? (hgs g (by simp)) heq).1] at hc
          contradiction
        simp [hne]
    rw [groupsBehind, List.foldl_cons, hsame]
    exact ih hgs
  | @group o c ts us ho hc _ _ ih ihs =>
    have hopen : groupsAfter o gs = o :: gs := by simp [groupsAfter, ho]
    have hclose : groupsAfter c (o :: gs) = gs := by
      simp [groupsAfter, (TokenKind.closesGroup_of_closer? ho hc).2, hc]
    rw [groupsBehind, List.foldl_cons, hopen, List.foldl_append, List.foldl_cons]
    have hin : List.foldl (fun groups u => groupsAfter u groups) (o :: gs) ts = o :: gs :=
      ih (List.forall_mem_cons.mpr ⟨ho, hgs⟩)
    rw [hin, hclose]
    exact ihs hgs

lemma ne_eof (h : Balanced ts) : ∀ t ∈ ts, t.kind ≠ .eof := by
  induction h with
  | nil => simp
  | @plain t ts ht _ ih =>
    exact List.forall_mem_cons.mpr ⟨(t.kind.isInner_iff.mp ht).2.2, ih⟩
  | @group o c ts us ho hc _ _ ih ihs =>
    rw [List.forall_mem_cons, List.forall_mem_append, List.forall_mem_cons]
    refine ⟨fun hk => ?_, ih, fun hk => ?_, ihs⟩
    · rw [hk] at ho
      cases ho
    · have := (TokenKind.closesGroup_of_closer? ho hc).1
      rw [hk] at this
      cases this

/-- Behind balanced tokens as many groups are open as before. -/
lemma depth (h : Balanced ts) (depth : Nat) : depthBehind depth ts = depth := by
  induction h generalizing depth with
  | nil => rfl
  | @plain t ts ht _ ih =>
    obtain ⟨ho, hc, -⟩ := t.kind.isInner_iff.mp ht
    rw [depthBehind, List.foldl_cons, depthAfter, ho, hc]
    exact ih depth
  | @group o c ts us ho hc _ _ ih ihs =>
    have hopen : depthAfter depth o = depth + 1 := by simp [depthAfter, ho]
    have hclose : depthAfter (depth + 1) c = depth := by
      simp [depthAfter, TokenKind.closesGroup_of_closer? ho hc]
    have hin : List.foldl depthAfter (depth + 1) ts = depth + 1 := ih (depth + 1)
    rw [depthBehind, List.foldl_cons, hopen, List.foldl_append, List.foldl_cons, hin, hclose]
    exact ihs depth

end Balanced

end StpLang
