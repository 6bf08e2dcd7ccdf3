import StpLang.Proofs.Grammar.Balanced

/-!
Preparing the tokens piece by piece.

* `settle_append` prepares one sequence of tokens behind another.
* `settle_split` finds the token that became a given one.
* `groups_settle` and `depth_settle`: what is set aside opens and closes no
  group.
-/

namespace StpLang

open StpLang.Parser Lexer

/-- What a token becomes within `depth` groups behind a token of kind `last`; a
comment within a group is set aside. -/
def keptToken? (depth : Nat) (last : Option TokenKind) (t : Token) : Option Token :=
  if t.kind == .comment && depth > 0 then none
  else if t.kind == .mod && !last.any (·.endsOperand) then some { t with kind := .identifier }
  else some t

/-- The kind of the last of some tokens, if there are any. -/
def lastKind (last : Option TokenKind) (ts : List Token) : Option TokenKind :=
  ts.foldl (fun _ t => some t.kind) last

section

variable {depth : Nat} {last : Option TokenKind} {t u x : Token} {ts us vs : List Token}

lemma settle_cons (depth : Nat) (last : Option TokenKind) (t : Token) (ts : List Token) :
    settle depth last (t :: ts) = match keptToken? depth last t with
      | none => ((settle depth last ts).1, .leaf .comment t :: (settle depth last ts).2)
      | some u =>
        (u :: (settle (depthAfter depth t) (some u.kind) ts).1,
          (settle (depthAfter depth t) (some u.kind) ts).2) := by
  rw [settle]
  unfold keptToken? depthAfter
  by_cases ho : t.kind.opensGroup = true
  · have hc : (t.kind == .comment) = false ∧ (t.kind == .mod) = false := by
      constructor <;> rw [beq_eq_false_iff_ne] <;> rintro hk <;> rw [hk] at ho <;> cases ho
    simp [ho, hc]
  by_cases hc : t.kind.closesGroup = true
  · have hk : (t.kind == .comment) = false ∧ (t.kind == .mod) = false := by
      constructor <;> rw [beq_eq_false_iff_ne] <;> rintro hk <;> rw [hk] at hc <;> cases hc
    simp [ho, hc, hk]
  simp only [ho, hc, Bool.false_eq_true, if_false]
  split
  · rfl
  split
  · rfl
  · rfl

lemma keptToken?_none (h : keptToken? depth last t = none) : t.kind = .comment := by
  unfold keptToken? at h
  split at h
  · rename_i hk
    simp only [Bool.and_eq_true, beq_iff_eq] at hk
    exact hk.1
  · split at h <;> cases h

/-- A token that is kept stays as it is, or it is a `mod` that becomes a name. -/
lemma keptToken?_some (h : keptToken? depth last t = some u) :
    u = t ∨ (t.kind = .mod ∧ u = { t with kind := .identifier }) := by
  unfold keptToken? at h
  split at h
  · cases h
  split at h
  · rename_i hk
    simp only [Bool.and_eq_true, beq_iff_eq] at hk
    cases h
    exact .inr ⟨hk.1, rfl⟩
  · cases h
    exact .inl rfl

lemma depthAfter_kept (h : keptToken? depth last t = some u) (d : Nat) :
    depthAfter d u = depthAfter d t := by
  rcases keptToken?_some h with rfl | ⟨hk, rfl⟩
  · rfl
  · simp [depthAfter, hk, TokenKind.opensGroup, TokenKind.closesGroup]

lemma groupsAfter_kept (h : keptToken? depth last t = some u) (gs : List Token) :
    groupsAfter u gs = groupsAfter t gs := by
  rcases keptToken?_some h with rfl | ⟨hk, rfl⟩
  · rfl
  · rw [groupsAfter_eq rfl rfl, groupsAfter_eq (by rw [hk]; rfl) (by rw [hk]; rfl)]

/-- What is set aside opens and closes no group. -/
lemma depth_settle (depth : Nat) (last : Option TokenKind) (ts : List Token) (d : Nat) :
    depthBehind d (settle depth last ts).1 = depthBehind d ts := by
  induction ts generalizing depth last d with
  | nil => rfl
  | cons t ts ih =>
    rw [settle_cons]
    cases h : keptToken? depth last t with
    | none =>
      have hd : depthAfter d t = d := by
        simp [depthAfter, keptToken?_none h, TokenKind.opensGroup, TokenKind.closesGroup]
      exact (ih depth last d).trans (congrArg (depthBehind · ts) hd).symm
    | some u =>
      rw [depthBehind, depthBehind, List.foldl_cons, List.foldl_cons, depthAfter_kept h]
      exact ih _ _ _

lemma groups_settle (depth : Nat) (last : Option TokenKind) (ts gs : List Token) :
    groupsBehind gs (settle depth last ts).1 = groupsBehind gs ts := by
  induction ts generalizing depth last gs with
  | nil => rfl
  | cons t ts ih =>
    rw [settle_cons]
    cases h : keptToken? depth last t with
    | none =>
      have hk := keptToken?_none h
      have hg : groupsAfter t gs = gs := groupsAfter_eq (by rw [hk]; rfl) (by rw [hk]; rfl) gs
      exact (ih depth last gs).trans (congrArg (groupsBehind · ts) hg).symm
    | some u =>
      rw [groupsBehind, groupsBehind, List.foldl_cons, List.foldl_cons, groupsAfter_kept h]
      exact ih _ _ _

/-- Preparing one sequence of tokens behind another. -/
lemma settle_append (depth : Nat) (last : Option TokenKind) (ts us : List Token) :
    settle depth last (ts ++ us)
      = ((settle depth last ts).1
          ++ (settle (depthBehind depth ts) (lastKind last (settle depth last ts).1) us).1,
        (settle depth last ts).2
          ++ (settle (depthBehind depth ts) (lastKind last (settle depth last ts).1) us).2) := by
  induction ts generalizing depth last with
  | nil => rfl
  | cons t ts ih =>
    rw [List.cons_append, settle_cons, settle_cons]
    cases h : keptToken? depth last t with
    | none =>
      have hd : depthAfter depth t = depth := by
        simp [depthAfter, keptToken?_none h, TokenKind.opensGroup, TokenKind.closesGroup]
      simp only [ih, depthBehind, List.foldl_cons, hd, List.cons_append]
    | some u => simp only [ih, depthBehind, List.foldl_cons, lastKind, List.cons_append]

/-- The token that became a given one. -/
lemma settle_split (h : (settle depth last ts).1 = us ++ x :: vs) :
    ∃ as y bs, ts = as ++ y :: bs ∧ (settle depth last as).1 = us
      ∧ keptToken? (depthBehind depth as) (lastKind last us) y = some x := by
  induction ts generalizing depth last us with
  | nil => cases us <;> cases h
  | cons t ts ih =>
    rw [settle_cons] at h
    cases hk : keptToken? depth last t with
    | none =>
      rw [hk] at h
      have hd : depthAfter depth t = depth := by
        simp [depthAfter, keptToken?_none hk, TokenKind.opensGroup, TokenKind.closesGroup]
      obtain ⟨as, y, bs, rfl, has, hy⟩ := ih h
      refine ⟨t :: as, y, bs, rfl, ?_, ?_⟩
      · rw [settle_cons, hk]
        exact has
      · rwa [depthBehind, List.foldl_cons, hd]
    | some u =>
      rw [hk] at h
      cases us with
      | nil =>
        cases h
        exact ⟨[], t, ts, rfl, rfl, hk⟩
      | cons v us =>
        obtain ⟨rfl, hrest⟩ := List.cons.inj h
        obtain ⟨as, y, bs, rfl, has, hy⟩ := ih hrest
        refine ⟨t :: as, y, bs, rfl, ?_, ?_⟩
        · rw [settle_cons, hk]
          exact congrArg (List.cons u) has
        · rwa [depthBehind, List.foldl_cons]

end

end StpLang
