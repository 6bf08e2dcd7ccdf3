import StpLang.Proofs.Delimiters.Grammar

/-!
What a strict reader says of delimiters is true.

A text whose tokens a strict reader accepts has delimiters that match, and a text
whose delimiters match is not refused on account of a delimiter.

* `readTokens_delimiters` is the result for the tokens of a text.
* `parse_delimiters` is the result for texts.
-/

namespace StpLang

open Parse Grammar

variable {source : String} {limit : Int} {tokens : List Token}

/-- The verdict on the tokens of a text. -/
lemma readTokens_delimiters (h : Ended tokens) (trace : List Event) :
    ((∃ t, (readTokens limit true tokens trace).result = .ok t) → Unwinds [] tokens)
      ∧ (Unwinds [] tokens →
        failure? (readTokens limit true tokens trace).result ≠ some .unbalanced) := by
  have hsettled : Unwinds [] (startAt tokens trace).rest ↔ Unwinds [] tokens :=
    unwinds_settle h 0 none
  have hv := ((fair_program limit limit.toNat 0).fairAt (startAt tokens trace)).run
    (ended_settle h 0 none)
  rw [readTokens_result]
  cases hr : program (level limit true limit.toNat) 0 (startAt tokens trace) with
  | ok root s =>
    rw [hr] at hv
    cases hv with
    | ok hended hcl =>
      obtain ⟨ts, -, hd, -⟩ := derives_of_program hr
      obtain ⟨hrest, hsegs⟩ := hended.rest_eof (s.current_kind.trans hd.statements_end)
      have hend : Unwinds [] s.rest :=
        hrest ▸ (unwinds_eof (s.current_kind.trans hd.statements_end) hsegs).mpr rfl
      exact ⟨fun _ => hsettled.mp (hcl.mpr hend), fun _ h => by cases h⟩
  | error e s =>
    rw [hr] at hv
    cases hv with
    | error hcl =>
      refine ⟨fun ht => ?_, fun hd he => ?_⟩
      · obtain ⟨t, ht⟩ := ht
        cases ht
      · exact hcl (Option.some.inj he) (hsettled.mpr hd)

/-- **Verdicts on delimiters are truthful.** Where a text can be cut into tokens, a
strict reader that accepts it finds the delimiters of the text and of every snippet
nested and matched; and where they are so, the reader accepts the text or fails with
an error that blames no delimiter. -/
theorem parse_delimiters (h : tokenize source limit = .ok tokens) :
    ((∃ t, parse source true limit = .ok t) → WellDelimited tokens)
      ∧ (WellDelimited tokens → failure? (parse source true limit) ≠ some .unbalanced) := by
  have hended := ended_of_tokenize h
  rw [wellDelimited_iff]
  unfold parse read readFrom
  unfold tokenize tokenizeFrom Lexed.toExcept at h
  dsimp only
  cases hf : (Lexed.run limit (.ofText source)).fault with
  | some fault =>
    rw [hf] at h
    cases h
  | none =>
    rw [hf] at h
    cases h
    exact readTokens_delimiters hended _

/-- A call with a call in its string, and a string whose snippet misses an operator. -/
theorem parse_delimiters_call :
    (∃ ts, tokenize "x = [f(\"a\\\x7bg(y)\\\x7d\", 2)]" 9 = .ok ts ∧ WellDelimited ts)
      ∧ ∃ us, tokenize "\"\\\x7b(1 2)\\\x7d\"" 9 = .ok us ∧ WellDelimited us
        ∧ failure? (parse "\"\\\x7b(1 2)\\\x7d\"" true 9) ≠ some .unbalanced := by
  obtain ⟨ts, hts, -⟩ := exists_of_map_toOption (show
    (tokenize "x = [f(\"a\\\x7bg(y)\\\x7d\", 2)]" 9).toOption.map List.length = some 11 by
      decide +kernel)
  obtain ⟨t, ht, -⟩ := exists_of_map_toOption (show
    (parse "x = [f(\"a\\\x7bg(y)\\\x7d\", 2)]" true 9).toOption.map (·.errors.length) = some 0 by
      decide +kernel)
  obtain ⟨us, hus, hmatch⟩ := exists_of_map_toOption (show
    (tokenize "\"\\\x7b(1 2)\\\x7d\"" 9).toOption.map (fun us => decide (WellDelimited us))
      = some true by decide +kernel)
  have hmatch := of_decide_eq_true hmatch
  exact ⟨⟨ts, hts, (parse_delimiters hts).1 ⟨t, ht⟩⟩, us, hus, hmatch,
    (parse_delimiters hus).2 hmatch⟩

end StpLang
