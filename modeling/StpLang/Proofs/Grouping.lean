import StpLang.Proofs.Grammar.Mends
import StpLang.Proofs.Grouping.Canonical

/-!
Expressions group in one way.

Climbing over the binary operators keeps one invariant: the operator ahead does
not belong to the last operand of what has been read. It is the invariant that puts
an operator above all that it has on its left.

* `Covers` says of which tokens the operands and operators of a sequence consist.
* `Derives.groups` finds the grouping of a phrase.
* `expression_groups` states the main result: an expression that is read has a
  canonical grouping, which is the only one, and it goes as far as it can.
-/

namespace StpLang

open Grammar

/-! ### The tokens of a sequence -/

/-- Before the tokens `k` the tokens `ts` are the operands and operators `es`, an
operator being one token and an operand what the grammar calls a primary. -/
inductive Covers (m : Bool) : (es : List Element) → (ts k : List Token) → Prop
  | nil {k : List Token} : Covers m [] [] k
  | operator {t : Token} {es : List Element} {ts k : List Token} (h : Covers m es ts k) :
      Covers m (.operator t :: es) (t :: ts) k
  | operand {b : Nat} {n : Node} {es : List Element} {us ts k : List Token}
      (hn : Derives b (.primary m) us (ts ++ k) [n]) (h : Covers m es ts k) :
      Covers m (.operand n :: es) (us ++ ts) k

section

variable {m : Bool} {least a : Nat} {p : Phrase} {es fs : List Element} {ts us k : List Token}
  {n : Node} {ns : List Node} {t op : Token} {g : Grouping}

lemma Covers.append (h : Covers m es ts (us ++ k)) (h' : Covers m fs us k) :
    Covers m (es ++ fs) (ts ++ us) k := by
  generalize hw : us ++ k = w at h
  induction h with
  | nil => exact h'
  | operator _ ih => exact .operator (ih hw)
  | operand hn _ ih =>
    subst hw
    rw [List.append_assoc]
    exact .operand (by rwa [List.append_assoc]) (ih rfl)

/-- The operators are among the tokens. -/
lemma Covers.mem (h : Covers m es ts k) (ht : Element.operator t ∈ es) : t ∈ ts := by
  induction h with
  | nil => cases ht
  | operator _ ih =>
    rcases List.mem_cons.mp ht with ht | ht
    · cases ht
      exact List.mem_cons_self
    · exact List.mem_cons_of_mem _ (ih ht)
  | operand _ _ ih => exact List.mem_append_right _ (ih (by simpa using ht))

lemma Covers.single (m : Bool) (t : Token) (k : List Token) :
    Covers m [.operator t] [t] k := .operator .nil

/-! ### Phrases and their groupings -/

/-- The node of an operand is not that of an operator. -/
lemma Derives.isOperation_primary (h : Derives a (.primary m) ts k [n]) :
    n.kind.isOperation = false := by
  cases h with
  | plainName h => cases h; rfl
  | _ => rfl

/-- When a binary operator is taken. -/
lemma operatorAhead_iff {level : Nat} {assoc : Assoc}
    (hop : op.kind.binary? = some (level, assoc)) : operatorAhead least m (op :: k) = true
      ↔ least ≤ level ∧ (m && signAhead (op :: k)) = false := by
  simp only [operatorAhead, headKind_cons, hop, Bool.not_eq_true', Bool.or_eq_false_iff,
    decide_eq_false_iff_not, Nat.not_lt]

/-- No operand has to bind tighter than a prefix operator does. -/
lemma leftLevel_le {kind : TokenKind} {level : Nat} {assoc : Assoc}
    (hop : kind.binary? = some (level, assoc)) : leftLevel level assoc ≤ 5 := by
  have h := TokenKind.level_of_assoc hop
  cases assoc <;> simp only [leftLevel, reduceCtorEq, if_true, if_false] at h ⊢ <;> omega

lemma rightLevel_le {kind : TokenKind} {level : Nat} {assoc : Assoc}
    (hop : kind.binary? = some (level, assoc)) : rightLevel level assoc ≤ 5 := by
  have h := TokenKind.level_of_assoc hop
  cases assoc <;> simp only [rightLevel, reduceCtorEq, if_true, if_false] at h ⊢ <;> omega

/-- An operator ahead which does not belong to the last operand of `g` takes the
whole of `g` as its left operand. -/
lemma leftLevel_le_level {level : Nat} {assoc : Assoc} (hg : g.Canonical)
    (hop : op.kind.binary? = some (level, assoc))
    (hleast : operatorAhead least m (op :: k) = true)
    (hreach : operatorAhead g.reach m (op :: k) = false) : leftLevel level assoc ≤ g.level := by
  have hlt : level < g.reach := by
    have hsign := ((operatorAhead_iff hop).mp hleast).2
    have hnot := mt (operatorAhead_iff hop).mpr (by rw [hreach]; exact Bool.false_ne_true)
    exact Nat.lt_of_not_le fun h => hnot ⟨h, hsign⟩
  have h := TokenKind.level_of_assoc hop
  have hbound := leftLevel_le hop
  cases hg with
  | primary | suffix => exact Nat.le_succ_of_le hbound
  | unary => exact hbound
  | @binary l r op' level' assoc' hop' =>
    rw [Grouping.reach_binary hop'] at hlt
    rw [Grouping.level_binary hop']
    have h' := TokenKind.level_of_assoc hop'
    cases assoc <;> cases assoc' <;>
      simp only [rightLevel, leftLevel, reduceCtorEq, if_true, if_false] at hlt h h' ⊢ <;> omega

/-- What a phrase says about the grouping of its node: an expression has one, and
operators extend the grouping of what stands before them. -/
def Grouped : Phrase → (ts k : List Token) → (ns : List Node) → Prop
  | .expression least m, ts, k, ns => ∃ g : Grouping, ns = [g.node] ∧ g.Canonical
      ∧ Covers m g.sequence ts k ∧ min least 5 ≤ g.level ∧ operatorAhead least m k = false
  | .operators least m lhs, ts, k, ns => ∀ l : Grouping, l.node = lhs → l.Canonical →
      min least 5 ≤ l.level → operatorAhead l.reach m (ts ++ k) = false →
        ∃ (g : Grouping) (es : List Element), ns = [g.node] ∧ g.Canonical
          ∧ g.sequence = l.sequence ++ es ∧ Covers m es ts k ∧ min least 5 ≤ g.level
          ∧ operatorAhead least m k = false
  | .unary m, ts, k, ns => ∃ g : Grouping, ns = [g.node] ∧ g.Canonical ∧ Covers m g.sequence ts k
      ∧ 5 ≤ g.level
  | .suffixes operand, ts, k, ns => ∀ x : Grouping, x.node = operand → x.Canonical →
      6 ≤ x.level → ∃ (g : Grouping) (es : List Element), ns = [g.node] ∧ g.Canonical
        ∧ g.sequence = x.sequence ++ es ∧ (∀ m, Covers m es ts k) ∧ 6 ≤ g.level
  | _, _, _, _ => True

/-- No binary operator binds tighter than a prefix operator. -/
lemma operatorAhead_of_level (h : 5 ≤ least) (m : Bool) (ts : List Token) :
    operatorAhead least m ts = false := by
  unfold operatorAhead
  split
  · rfl
  · next level assoc hop =>
    have := (TokenKind.level_le hop).2
    simp only [Bool.not_eq_false', Bool.or_eq_true, decide_eq_true_eq]
    omega

/-- Nothing behind an operand goes to a part of it. -/
lemma Grouping.operatorAhead_reach (h : 5 ≤ g.level) (m : Bool) (ts : List Token) :
    operatorAhead g.reach m ts = false := by
  refine operatorAhead_of_level (Nat.le_trans h ?_) m ts
  exact level_le_rightLevel g.binding.1 g.binding.2

/-- Every expression that the grammar derives has its grouping. -/
lemma Derives.groups (h : Derives a p ts k ns) : Grouped p ts k ns := by
  induction h with
  | expression _ _ ihl iho =>
    obtain ⟨l, hn, hl, hcover, hlevel⟩ := ihl
    cases hn
    obtain ⟨g, es, hg, hcg, hs, hc, hgl, hend⟩ :=
      iho l rfl hl (Nat.le_trans (Nat.min_le_right ..) hlevel) (l.operatorAhead_reach hlevel ..)
    exact ⟨g, hg, hcg, by rw [hs]; exact hcover.append hc, hgl, hend⟩
  | operatorsEnd h =>
    exact fun l hn hl hlevel _ => ⟨l, [], by rw [hn], hl, by simp, .nil, hlevel, h⟩
  | operatorsMore hop hahead _ _ _ ihr iho =>
    intro l hn hl hlevel hreach
    subst hn
    obtain ⟨r, hrn, hr, hcover, hrl, hrest⟩ := ihr
    cases hrn
    rw [Nat.min_eq_left (rightLevel_le hop)] at hrl
    -- the operator ahead is not one for the last operand of `l`
    have hll := leftLevel_le_level hl hop hahead (by simpa [List.append_assoc] using hreach)
    have hleast := ((operatorAhead_iff hop).mp hahead).1
    obtain ⟨g, es, hg, hcg, hs, hc, hgl, hend⟩ := iho _ rfl (.binary hop hl hr hll hrl)
      (by rw [Grouping.level_binary hop]; omega) (by rw [Grouping.reach_binary hop]; exact hrest)
    exact ⟨g, _, hg, hcg, by rw [hs, Grouping.sequence, List.append_assoc, List.cons_append],
      .operator (hcover.append hc), hgl, hend⟩
  | unaryPrefix hop _ ih =>
    obtain ⟨x, hn, hx, hcover, hlevel⟩ := ih
    cases hn
    exact ⟨.unary _ x, rfl, .unary hop hx hlevel, .operator hcover, Nat.le_refl 5⟩
  | unaryPlain hp _ _ ihs =>
    obtain ⟨g, es, hn, hg, hs, hcover, hlevel⟩ :=
      ihs (.primary _) rfl (.primary hp.isOperation_primary) (Nat.le_refl 6)
    refine ⟨g, hn, hg, ?_, Nat.le_of_succ_le hlevel⟩
    rw [hs]
    exact .operand hp (hcover _)
  | suffixesEnd =>
    exact fun x hn hx hlevel => ⟨x, [], by rw [hn], hx, by simp, fun _ => .nil, hlevel⟩
  | suffixesMore hop _ _ ih =>
    intro x hn hx hlevel
    subst hn
    have hop' := (Bool.and_eq_true_iff.mp hop).1
    obtain ⟨g, es, hg, hcg, hs, hc, hgl⟩ :=
      ih (.suffix x _) rfl (.suffix hop' hx hlevel) (Nat.le_refl 6)
    exact ⟨g, _, hg, hcg, by rw [hs, Grouping.sequence, List.append_assoc, List.singleton_append],
      fun m => .operator (hc m), hgl⟩
  | _ => trivial

end

/-! ### Expressions that are read -/

/-- Strict or not, an expression that is read is one that the grammar derives. -/
lemma reads_expression_level (limit : Int) (strict : Bool) (a least : Nat) (m : Bool) :
    Reads a (.expression least m) (expression (level limit strict a) least m) := by
  have hr := reads_expression (phraseLevel limit a) least m
  cases strict
  · exact hr.of_starts (starts_expression (levelPair .parting limit a) least m)
  · exact hr

/-- An expression that is read has one canonical grouping and no other, over all the
tokens that were taken. No operator loose enough is left behind it, unless it is a
sign with which an element of a matrix row begins. -/
theorem expression_groups {limit : Int} {strict : Bool} {a least : Nat} {m : Bool}
    {s t : Parser} {n : Node} (h : expression (level limit strict a) least m s = .ok n t) :
    ∃ g : Grouping, g.node = n
      ∧ (∃ ts, s.rest = ts ++ t.rest ∧ t.before = ts.reverse ++ s.before
        ∧ Covers m g.sequence ts t.rest)
      ∧ g.Canonical
      ∧ (∀ l op r, g = .binary l op r → least ≤ g.level)
      ∧ (∀ g' : Grouping, g'.Canonical → g'.sequence = g.sequence → g' = g)
      ∧ ∀ level assoc, t.current.kind.binary? = some (level, assoc) → least ≤ level →
        m = true ∧ startsElement t.current t = true := by
  obtain ⟨ts, hts, hd⟩ := (reads_expression_level limit strict a least m).run h
  obtain ⟨g, hn, hg, hcover, hlevel, hend⟩ := hd.groups
  cases hn
  refine ⟨g, rfl, ⟨ts, hts.rest, Moves.before hts, hcover⟩, hg, ?_,
    fun g' hg' he => hg'.unique hg he, fun level assoc hop hle => ?_⟩
  · rintro l op r rfl
    obtain - | - | - | ⟨hop, -, -, -, -⟩ := hg
    rw [Grouping.level_binary hop] at hlevel ⊢
    have := (TokenKind.level_le hop).2
    omega
  · rw [Parser.current_kind] at hop
    rw [startsElement_eq, ← Bool.and_eq_true_iff, ← Bool.not_eq_false]
    intro hsign
    simp only [operatorAhead, hop, hsign, Bool.or_false, Bool.not_eq_false',
      decide_eq_true_eq] at hend
    omega

/-- The words of `a - b^c^d -e`. -/
def signedRow : List Token :=
  [{ kind := .identifier, value := "a" }, { kind := .minus, value := "-", spaced := true },
    { kind := .identifier, value := "b", spaced := true }, { kind := .power, value := "^" },
    { kind := .identifier, value := "c" }, { kind := .power, value := "^" },
    { kind := .identifier, value := "d" }, { kind := .minus, value := "-", spaced := true },
    { kind := .identifier, value := "e" }]

/-- In a row of a matrix the difference ends before the sign of the next element. -/
theorem expression_groups_signedRow :
    ∃ n t, expression (level 9 true 9) 1 true { rest := signedRow } = .ok n t
      ∧ t.rest.map (·.value) = ["-", "e"]
      ∧ n.children.map (·.kind) = [.memberAccess, .operator, .binary]
      ∧ ∃ g : Grouping, g.node = n ∧ g.Canonical
        ∧ ∀ g' : Grouping, g'.Canonical → g'.sequence = g.sequence → g' = g := by
  have h : expression (level 9 true 9) 1 true { rest := signedRow } = .ok _ _ := rfl
  obtain ⟨g, hn, -, hg, -, hu, -⟩ := expression_groups h
  exact ⟨_, _, h, by decide +kernel, by decide +kernel, g, hn, hg, hu⟩

end StpLang
