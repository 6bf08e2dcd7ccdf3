import StpLang.Proofs.Limit.Grammar
import StpLang.Proofs.Limit.Reader
import StpLang.Proofs.Recovery

/-!
Greater limits.

Where reading a text does not meet the limit on nesting, a greater limit changes
nothing: tokens, tree, errors and log stay the same.

* `readTokens_of_limit_le` compares two readings of the same tokens.
* `read_of_limit_le` compares two readings of a text.
* `parse_of_limit_le` states what follows for strict and recovering readers.
-/

namespace StpLang

open Parse Grammar

variable {limit limit' : Int}

/-- An outcome of reading shows the limit on nesting: as the error that ended the
reading, or among the errors of the tree. -/
inductive ShowsLimit : Except Error Tree → Prop
  | error {e : Error} (h : e.category = .nesting) : ShowsLimit (.error e)
  | ok {t : Tree} (h : ∃ e ∈ t.errors, e.category = .nesting) : ShowsLimit (.ok t)

/-- A program that meets the limit shows it in its outcome: a strict reader records
nothing, and recovery does not fail. -/
lemma showsLimit_of_meets {strict : Bool} {n : Nat} {tokens : List Token} {trace : List Event}
    (h : Meets Parser.errors (program (level limit strict n) 0 (startAt tokens trace))) :
    ShowsLimit (outcome (program (level limit strict n) 0 (startAt tokens trace))) := by
  cases strict with
  | true =>
    have hquiet : Goes .quiet (program (level limit true n) 0) (program (level limit true n) 0) :=
      ⟨fun _ _ hs => paired_program .quiet limit n 0 hs.near⟩
    have hnone := hquiet.errors_after (startAt tokens trace)
    generalize program (level limit true n) 0 (startAt tokens trace) = r at h hnone
    cases h with
    | error he => exact .error he
    | ok h => exact .ok h
    | failed h =>
      obtain ⟨e, he, -⟩ := h
      have hnil : e ∈ (startAt tokens trace).errors := hnone ▸ he
      cases hnil
  | false =>
    obtain ⟨root, t, hroot, -⟩ := program_ok limit n 0 (startAt tokens trace)
    rw [hroot] at h ⊢
    cases h with
    | ok h => exact .ok h

/-- The same tokens are read alike under a greater limit. -/
lemma readTokens_of_limit_le (h : limit ≤ limit') (strict : Bool) (tokens : List Token)
    (trace : List Event) :
    ShowsLimit (readTokens limit strict tokens trace).result
      ∨ readTokens limit' strict tokens trace = readTokens limit strict tokens trace := by
  have hprogram : ParseWidens (program (level limit strict limit.toNat) 0)
      (program (level limit' strict limit'.toNat) 0) :=
    widens_program strict (Int.toNat_le_toNat h) 0
  rcases hprogram.run (startAt tokens trace) with hm | heq
  · left
    rw [readTokens_result]
    exact showsLimit_of_meets hm
  · right
    simp only [startAt] at heq
    simp only [readTokens, levelAt, Int.sub_zero, heq]

/-- What could not be cut into tokens hides no error. -/
lemma ShowsLimit.withUnreadable {result : Except Error Tree} (h : ShowsLimit result)
    (fault : LexFault) (length : Nat) :
    ShowsLimit (result.map (·.withUnreadable fault length)) := by
  cases h with
  | error he => exact .error he
  | ok h =>
    obtain ⟨e, he, hn⟩ := h
    exact .ok ⟨e, List.mem_append_left _ he, hn⟩

/-- A text is read alike under a greater limit, unless reading it shows the
limit. -/
theorem read_of_limit_le (h : limit ≤ limit') (source : String) (strict : Bool) :
    ShowsLimit (parse source strict limit)
      ∨ read source strict limit' = read source strict limit := by
  unfold parse read readFrom
  dsimp only
  rcases run_of_limit_le h (.ofText source) with ⟨fault, hfault, he⟩ | heq
  · left
    generalize Lexed.run limit (.ofText source) = lexed at hfault ⊢
    rw [hfault]
    dsimp only
    cases strict with
    | true =>
      rw [if_pos rfl]
      exact .error he
    | false =>
      obtain ⟨t, ht⟩ := readTokens_ok limit lexed.tokens
        (.lexingStopped fault.error :: lexed.trace)
      rw [if_neg Bool.false_ne_true, ht]
      exact .ok ⟨fault.error, by simp [Tree.withUnreadable], he⟩
  · rw [heq]
    generalize Lexed.run limit (.ofText source) = lexed
    cases lexed.fault with
    | none => exact readTokens_of_limit_le h strict ..
    | some fault =>
      dsimp only
      cases strict with
      | true =>
        rw [if_pos rfl, if_pos rfl]
        exact .inr rfl
      | false =>
        rw [if_neg Bool.false_ne_true]
        refine (readTokens_of_limit_le h false _ _).imp (·.withUnreadable ..) fun heq => ?_
        rw [if_neg Bool.false_ne_true, heq]

/-- A tree that is read strictly has no errors. -/
lemma errors_of_strict {source : String} {t : Tree} (h : parse source true limit = .ok t) :
    t.errors = [] := by
  rcases parse_either source limit with ⟨u, hu, hnil⟩ | ⟨e, u, he, -⟩
  · cases (hu true).symm.trans h
    exact hnil
  · cases he.symm.trans h

/-- Raising the limit changes no verdict that is not about nesting. A strict reader
that does not fail for the limit gives the same tree or the same error, with its
range, under every greater limit. A reader that recovers gives the same tree with
the same errors, unless one of them is about nesting. -/
theorem parse_of_limit_le (source : String) (h : limit ≤ limit') :
    (failure? (parse source true limit) ≠ some .nesting →
      parse source true limit' = parse source true limit)
    ∧ ∃ t, parse source false limit = .ok t
      ∧ ((∀ e ∈ t.errors, e.category ≠ .nesting) → parse source false limit' = .ok t) := by
  refine ⟨fun hnone => ?_, ?_⟩
  · rcases read_of_limit_le h source true with hshows | heq
    · generalize heq : parse source true limit = result at hnone hshows
      cases hshows with
      | error he => exact absurd (congrArg some he) hnone
      | ok hshows =>
        obtain ⟨e, he, -⟩ := hshows
        rw [errors_of_strict heq] at he
        cases he
    · exact congrArg Reading.result heq
  · obtain ⟨t, ht⟩ := readFrom_ok limit (.ofText source)
    refine ⟨t, ht, fun hnone => ?_⟩
    rcases read_of_limit_le h source false with hshows | heq
    · rw [show parse source false limit = .ok t from ht] at hshows
      cases hshows with
      | ok hshows =>
        obtain ⟨e, he, hn⟩ := hshows
        exact absurd hn (hnone e he)
    · exact (congrArg Reading.result heq).trans ht

/-- A call with a string and a closer too many, under two limits. -/
theorem parse_of_limit_le_broken :
    failure? (parse "y = f(\"a\\\x7bb\\\x7d\")); 2]" true 6) = some .unbalanced
      ∧ parse "y = f(\"a\\\x7bb\\\x7d\")); 2]" true 9
        = parse "y = f(\"a\\\x7bb\\\x7d\")); 2]" true 6
      ∧ ∃ t, parse "y = f(\"a\\\x7bb\\\x7d\")); 2]" false 6 = .ok t
        ∧ t.errors.map (·.category) = [.unbalanced, .unbalanced]
        ∧ parse "y = f(\"a\\\x7bb\\\x7d\")); 2]" false 9 = .ok t := by
  have hstrict : failure? (parse "y = f(\"a\\\x7bb\\\x7d\")); 2]" true 6) = some .unbalanced := by
    decide +kernel
  obtain ⟨u, hu, hcategories⟩ := exists_of_map_toOption (show
    (parse "y = f(\"a\\\x7bb\\\x7d\")); 2]" false 6).toOption.map (·.errors.map (·.category))
      = some [.unbalanced, .unbalanced] by decide +kernel)
  obtain ⟨hmain, t, ht, hrecovery⟩ :=
    parse_of_limit_le "y = f(\"a\\\x7bb\\\x7d\")); 2]" (show (6 : Int) ≤ 9 by decide)
  obtain rfl : t = u := Except.ok.inj (ht.symm.trans hu)
  have hother : ∀ e ∈ t.errors, e.category ≠ .nesting := by
    intro e he hnesting
    have hmem : e.category ∈ [Category.unbalanced, .unbalanced] :=
      hcategories ▸ List.mem_map_of_mem he
    rw [hnesting] at hmem
    revert hmem
    decide
  exact ⟨hstrict, hmain (hstrict ▸ by decide), t, ht, hcategories, hrecovery hother⟩

end StpLang
