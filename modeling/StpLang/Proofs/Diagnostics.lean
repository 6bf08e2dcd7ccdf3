import StpLang.Proofs.Diagnostics.Grammar
import StpLang.Proofs.Recovery

/-!
Every diagnostic points into the text.

A text is reported on by the error that ends a strict reading, or by the errors from which
a recovering reading recovers, the last of which may be one of the lexer.

* `diagnostics` lists the errors that a reading reports.
* `points_of_program` and `points_of_mem` follow an error to the range that it blames.
* `diagnostics_point` is the result.
-/

namespace StpLang

open Grammar

/-- The errors that the reading of a text reports: the one that ends it, or those from which
it recovers. -/
def diagnostics (source : String) (strict : Bool) (limit : Int) : List Error :=
  match parse source strict limit with
  | .ok t => t.errors
  | .error e => [e]

section

variable {source : String} {strict : Bool} {limit : Int} {trace : List Event} {t : Tree} {e : Error}

lemma mem_diagnostics : e ∈ diagnostics source strict limit ↔
    parse source strict limit = .error e
      ∨ ∃ t, parse source strict limit = .ok t ∧ e ∈ t.errors := by
  unfold diagnostics
  cases parse source strict limit with
  | ok t => simp
  | error e' => simp [eq_comm]

/-- The errors of the grammar, read from the tokens of the text, point into it. -/
lemma points_of_program :
    (∀ e, (readTokens limit strict (Lexed.run limit (.ofText source)).tokens trace).result
        = .error e → e.Points source.toList)
      ∧ ∀ t, (readTokens limit strict (Lexed.run limit (.ofText source)).tokens trace).result
        = .ok t → ∀ e ∈ t.errors, e.Points source.toList := by
  have hstart : (startAt (Lexed.run limit (.ofText source)).tokens trace).Ranges source.toList :=
    have h := ranges_of_lexed source limit
    ⟨h.tokens, h.eof, h.errors⟩
  have hrun := (aims_program limit strict limit.toNat 0).run _ hstart
  rw [readTokens_result]
  generalize program (level limit strict limit.toNat) 0 _ = r at hrun
  cases hrun with
  | ok h =>
    refine ⟨fun e he => (by cases he), fun t ht => ?_⟩
    cases ht
    exact h.errors
  | error _ hpoints =>
    refine ⟨fun e he => ?_, fun t ht => (by cases ht)⟩
    cases he
    exact hpoints

/-- A reported error is one of the grammar or the one that stopped the lexer. -/
lemma points_of_mem (h : e ∈ diagnostics source strict limit) : e.Points source.toList := by
  rw [mem_diagnostics] at h
  obtain ⟨us, v, -, ⟨u, w, -, -, -, hfault⟩ | ⟨x, hx, -, hfault⟩⟩ := lexed_cases source limit
  · rw [parse_of_cut strict hfault] at h
    rcases h with he | ⟨t, ht, he⟩
    · exact points_of_program.1 e he
    · exact points_of_program.2 t ht e he
  cases strict with
  | true =>
    rw [parse_strict_of_fault hfault] at h
    rcases h with he | ⟨t, ht, -⟩
    · cases he
      exact hx
    · cases ht
  | false =>
    obtain ⟨trace, t', ht', hparse⟩ := parse_of_fault hfault
    rw [hparse] at h
    rcases h with he | ⟨t, ht, he⟩
    · cases he
    · cases ht
      rcases List.mem_append.mp he with he | he
      · exact points_of_program.2 t' ht' e he
      · rw [List.mem_singleton.mp he]
        exact hx

end

/-- **Every diagnostic points into the text.** An error that ends the reading of a text, or
from which the reading recovers, has a range that lies in the text and names the line and
the column of its start. When the text ends within a string, that is the empty range at its
end. -/
theorem diagnostics_point {source : String} {strict : Bool} {limit : Int} {e : Error}
    (h : e ∈ diagnostics source strict limit) :
    (e.span.start ≤ e.span.stop ∧ e.span.stop ≤ source.toList.length)
      ∧ (e.span.line = Text.lineAt source.toList e.span.start
        ∧ e.span.col = Text.colAt source.toList e.span.start)
      ∧ (e.category = .unterminatedString →
        e.span.start = source.toList.length ∧ e.span.stop = source.toList.length) := by
  obtain ⟨hspan, hend⟩ := points_of_mem h
  exact ⟨⟨hspan.order, hspan.inside⟩, ⟨hspan.line, hspan.col⟩, hend⟩

/-- A snippet that is never closed behind an empty one, and the error that ends a strict
reading of the lines before. -/
theorem diagnostics_point_snippet :
    (∃ e ∈ diagnostics "x = )\nf(\"\\\x7b\\\x7d\"\n\"a\\\x7bb" false 5,
      e.category = .unterminatedString ∧ e.span.start = 20 ∧ e.span.stop = 20 ∧ e.span.line = 3
        ∧ e.span.col = 6)
    ∧ ∃ e ∈ diagnostics "x = )\nf(\"\\\x7b\\\x7d\"\n" true 5,
      e.span.line = Text.lineAt "x = )\nf(\"\\\x7b\\\x7d\"\n".toList e.span.start
        ∧ e.span.stop ≤ 15 := by
  have hend : (⟨.unclosedSnippet, .of 20 20 3 6⟩ : Error)
      ∈ diagnostics "x = )\nf(\"\\\x7b\\\x7d\"\n\"a\\\x7bb" false 5 := by decide +kernel
  have hparen : (⟨.expectedExpression (.text ")"), .of 4 5 1 5⟩ : Error)
      ∈ diagnostics "x = )\nf(\"\\\x7b\\\x7d\"\n" true 5 := by decide +kernel
  obtain ⟨-, -, hlast⟩ := diagnostics_point hend
  obtain ⟨⟨-, hinside⟩, ⟨hline, -⟩, -⟩ := diagnostics_point hparen
  exact ⟨⟨_, hend, rfl, (hlast rfl).1, (hlast rfl).2, rfl, rfl⟩, ⟨_, hparen, hline, hinside⟩⟩

end StpLang
