import StpLang.Proofs.Schema.Grammar

/-!
Every tree obeys the schema.

Whatever the text, the limit and the mode, each node of the tree has the children,
the labels and the text that its kind prescribes. Statements, and the errors that a
recovering reader puts in their place, stand in programs and blocks only.

* `formed_of_readFrom` reads what is ahead of a cursor.
* `hasError_of_strict`: a strict reader makes no node for an error.
* `parse_schema` is the result for trees.
-/

namespace StpLang

open Grammar StpLang.Parser Slot Node

section

variable {source : String} {limit : Int} {us : List Token} {s v : Lexer} {e : Token}
  {trace : List Event} {t : Tree}

/-- Up to the end mark, the tokens that the grammar is given are those of a
text. -/
lemma spelled_of_settle (hlex : Lexes limit s us v) (he : e.kind = .eof) :
    ∀ u ∈ (settle 0 none (us ++ [e])).1, u.kind ≠ .eof → u.Spelled limit.toNat := by
  have hspelled := spelled_settle hlex.spelled 0 none
  rw [(settle_eof he hlex.ne_eof).1]
  intro u hu hk
  rcases List.mem_append.mp hu with hu | hu
  · exact hspelled u hu
  · rw [List.mem_singleton.mp hu] at hk
    exact absurd he hk

/-- The statements of a program obey the schema. -/
lemma filled_of_readTokens (hlex : Lexes limit s us v)
    (he : e.kind = .eof) (h : (readTokens limit false (us ++ [e]) trace).result = .ok t) :
    Filled [.many (of Kind.isEntry)] t.root.children
      ∧ ∃ stop, t.root = .spanning .sourceFile ⟨1, 1, 0⟩ stop t.root.children := by
  rw [readTokens_result] at h
  cases hs : program (level limit false limit.toNat) 0 (startAt (us ++ [e]) trace) with
  | error e s => rw [hs] at h; cases h
  | ok root s =>
    rw [hs] at h
    cases h
    obtain ⟨⟨ts, hruns, hmends⟩, -, hroot⟩ := mends_of_program hs
    have hregular : ∀ u ∈ (settle 0 none (us ++ [e])).1, u.Regular :=
      fun u hu hk => ⟨_, spelled_of_settle hlex he u hu hk⟩
    rw [show (settle 0 none (us ++ [e])).1 = ts ++ s.rest from hruns.rest,
      List.forall_mem_append] at hregular
    exact ⟨hmends.filled hregular.1, _, hroot⟩

/-- The tree of what is ahead of a cursor obeys the schema. -/
lemma formed_of_readFrom {strict : Bool} {c : Cursor}
    (h : (readFrom limit strict c).result = .ok t) :
    t.root.kind = .sourceFile ∧ t.root.Formed := by
  obtain ⟨us, v, hlex, ⟨e, w, trace, -, he, ht⟩ | ⟨-, error, trace, t', ht, rfl⟩⟩ :=
    readFrom_cases h
  · obtain ⟨hfilled, stop, hroot⟩ := filled_of_readTokens hlex he ht
    rw [hroot]
    exact ⟨rfl, formed_spanning hfilled rfl rfl⟩
  · obtain ⟨hfilled, stop, hroot⟩ := filled_of_readTokens hlex rfl ht
    -- the node for unreadable text stands among the statements
    have hlast : (unreadable ⟨error, v.cursor⟩ (c.past.length + c.rest.length)).Formed :=
      formed_spanning ⟨rfl, fun _ hc => (List.not_mem_nil hc).elim⟩ rfl rfl
    rw [Tree.withUnreadable, hroot]
    refine ⟨rfl, formed_iff.mpr ⟨⟨fill_many_iff.mpr ?_, rfl, rfl⟩, ?_⟩⟩
    · exact List.forall_mem_append.mpr ⟨hfilled.many, List.forall_mem_singleton.mpr rfl⟩
    · exact List.forall_mem_append.mpr ⟨hfilled.formed, List.forall_mem_singleton.mpr hlast⟩

/-- A strict reader makes no node for an error. -/
lemma hasError_of_strict (h : parse source true limit = .ok t) : t.root.hasError = false := by
  have hplaced := placed_lexFrom limit { cursor := .ofText source }
  rw [← run_eq_lexFrom] at hplaced
  cases hf : (Lexed.run limit (.ofText source)).fault with
  | none =>
    rw [parse_of_cut true hf] at h
    exact readTokens_clean hplaced h
  | some fault =>
    rw [parse_strict_of_fault hf] at h
    cases h

end

/-- **Every tree obeys the schema.** In the tree of any text, under any limit and
in either mode, every node has the children, the labels and the text that its kind
prescribes. Statements and errors stand in programs and blocks only, and a strict
reader makes no errors. -/
theorem parse_schema {source : String} {strict : Bool} {limit : Int} {t : Tree}
    (h : parse source strict limit = .ok t) :
    t.root.kind = .sourceFile ∧ (∀ n ∈ t.root.walk, n.Obeys)
      ∧ (∀ n ∈ t.root.walk, ∀ c ∈ n.children, c.kind.isStatement = true ∨ c.kind = .error →
        n.kind = .sourceFile ∨ n.kind = .block)
      ∧ (strict = true → ∀ n ∈ t.root.walk, n.kind ≠ .error) := by
  have hroot := formed_of_readFrom h
  refine ⟨hroot.1, hroot.2, fun n hn c hc hk => ?_, fun hs n hn hk => ?_⟩
  · refine (hroot.2 n hn).parent_of_entry hc ?_
    rw [Kind.isEntry, Bool.or_eq_true, beq_iff_eq]
    exact hk
  · subst hs
    have hclean := hasError_of_strict h
    rw [hasError, List.any_eq_false] at hclean
    exact hclean n hn (beq_iff_eq.mpr hk)

/-- A definition, an `if` with its clauses and a loop, with a broken block and an end
that cannot be read. -/
theorem parse_schema_broken :
    ∃ t, parse "fn f(a, b = 1...2...3) \x7b ret [a -b.c!; \"\\x41\\\x7b(a) mod 2\\\x7dd\"] \x7d
    if f(1%) \x7b ) \x7d elseif 2 \x7b\x7d else \x7b x = 3; \x7d
    while 1 \x7b cont; break \x7d \"" false 9 = .ok t
      ∧ t.root.walk.length = 60 ∧ t.errors.length = 2 ∧ ∀ n ∈ t.root.walk, n.Obeys := by
  obtain ⟨t, h, hcount⟩ := exists_of_map_toOption (show (parse "fn f(a, b = 1...2...3) \x7b ret [a -b.c!; \"\\x41\\\x7b(a) mod 2\\\x7dd\"] \x7d
    if f(1%) \x7b ) \x7d elseif 2 \x7b\x7d else \x7b x = 3; \x7d
    while 1 \x7b cont; break \x7d \"" false 9).toOption.map
      (fun t => (t.root.walk.length, t.errors.length)) = some (60, 2) by decide +kernel)
  obtain ⟨hnodes, herrors⟩ := Prod.mk.inj hcount
  exact ⟨t, h, hnodes, herrors, (parse_schema h).2.1⟩

end StpLang
