import StpLang.Proofs.Grammar.Change
import StpLang.Proofs.Grammar.Complete
import StpLang.Proofs.Lex.Placed

/-!
Leading statements of a program.

* `Series` is a sequence of statements and separators, whatever follows it.
* `Derives.split_statements` splits a program before and behind a statement.
* `Derives.statement_stop` and `Derives.statement_marked` tell where a statement
  ends.
* `Series.change` puts one continuation for another.
-/

namespace StpLang

open Grammar

/-- Statements and separators before the tokens `k`. -/
inductive Series (a loops : Nat) : (ts k : List Token) → (ns : List Node) → Prop
  | nil {k : List Token} : Series a loops [] k []
  | separator {t : Token} {ts k : List Token} {ns : List Node} (ht : t.kind.isSeparator = true)
      (h : Series a loops ts k ns) : Series a loops (t :: ts) k ns
  | more {ts us k : List Token} {n : Node} {ns : List Node}
      (h : Derives a (.statement loops) ts (us ++ k) [n]) (hs : Series a loops us k ns) :
      Series a loops (ts ++ us) k (n :: ns)

section

variable {a loops : Nat} {ts us vs ws k k' : List Token} {n : Node} {ns ms os : List Node}

lemma Series.trans (h : Series a loops us (vs ++ k) ms) (h' : Series a loops vs k ns) :
    Series a loops (us ++ vs) k (ms ++ ns) := by
  generalize hk : vs ++ k = l at h
  induction h with
  | nil => exact h'
  | separator ht _ ih => exact .separator ht (ih hk)
  | more h _ ih =>
    subst hk
    rw [List.append_assoc]
    rw [← List.append_assoc] at h
    exact .more h (ih rfl)

/-- A statement by itself. -/
lemma Series.one (h : Derives a (.statement loops) ts k [n]) : Series a loops ts k [n] := by
  have hone : Series a loops (ts ++ []) k [n] := .more h .nil
  rwa [List.append_nil] at hone

/-- The statements before a change of what follows them. -/
lemma Series.change (h : Series a loops ts k ns) (hs : Shares k k')
    (hc : clauseAhead k' = clauseAhead k) : Series a loops ts k' ns := by
  induction h with
  | nil => exact .nil
  | separator ht _ ih => exact .separator ht (ih hs hc)
  | more h _ ih =>
    exact .more (h.change (hs.append _) fun _ => clauseAhead_append hc _) (ih hs hc)

/-- A program split before and behind a statement. -/
lemma Derives.split_statements (h : Derives a (.statements loops false) ts k (ms ++ n :: os)) :
    ∃ us ws vs, ts = us ++ (ws ++ vs) ∧ Series a loops us (ws ++ (vs ++ k)) ms
      ∧ Derives a (.statement loops) ws (vs ++ k) [n]
      ∧ Derives a (.statements loops false) vs k os := by
  generalize hp : Phrase.statements loops false = p at h
  generalize hns : ms ++ n :: os = ns at h
  induction h generalizing ms with
  | statementsEnd => cases ms <;> cases hns
  | statementsSeparator ht h ih =>
    obtain ⟨us, ws, vs, rfl, hseries, hn, hos⟩ := ih hp hns
    cases hp
    exact ⟨_ :: us, ws, vs, rfl, .separator ht hseries, hn, hos⟩
  | @statementsMore a loops inBlock xs ys k n' ns' h hs _ ih =>
    cases ms with
    | nil =>
      cases hns
      cases hp
      exact ⟨[], xs, ys, rfl, .nil, h, hs⟩
    | cons m ms =>
      obtain ⟨rfl, hrest⟩ := List.cons.inj hns
      obtain ⟨us, ws, vs, rfl, hseries, hn, hos⟩ := ih hp hrest
      cases hp
      refine ⟨xs ++ us, ws, vs, by simp, .more ?_ hseries, hn, hos⟩
      simpa using h
  | _ => cases hp

/-- Behind the statements of a program comes the end. -/
lemma Derives.statements_end (h : Derives a (.statements loops false) ts k ns) :
    headKind k = .eof := by
  generalize hp : Phrase.statements loops false = p at h
  induction h with
  | statementsEnd h =>
    cases hp
    exact h.resolve_right fun h => by cases h.1
  | statementsSeparator _ _ ih => exact ih (by cases hp; rfl)
  | statementsMore _ _ _ ih => exact ih (by cases hp; rfl)
  | _ => cases hp

/-! ### Where a statement ends -/

lemma lastStop_cons {t : Token} (h : ts ≠ []) : lastStop (t :: ts) = lastStop ts := by
  show lastStop ([t] ++ ts) = _
  exact lastStop_append h

lemma Derives.name_ne_nil {m : Bool} (h : Derives a (.name m) ts k ns) : ts ≠ [] := by
  obtain ⟨t, us, rfl, -⟩ := h.first rfl
  exact List.cons_ne_nil t us

/-- A statement ends with its last token. -/
lemma Derives.statement_stop (h : Derives a (.statement loops) ts k [n]) :
    n.stop = lastStop ts := by
  cases h with
  | comment | exit | loopControl | symbolDeclaration => rfl
  | importStatement _ h => exact (lastStop_cons h.name_ne_nil).symm
  | returnStatement _ h => exact (lastStop_cons h.ne_nil).symm
  | assignment _ _ h =>
    have hne := List.append_ne_nil_of_left_ne_nil h.ne_nil
    rw [lastStop_cons (by simp), lastStop_cons (hne _)]
    rfl
  | expressionStatement => rfl
  | ifStatement _ h hb =>
    have hne := List.append_ne_nil_of_left_ne_nil hb.block_ne_nil
    rw [lastStop_cons (List.append_ne_nil_of_left_ne_nil h.ne_nil _), lastStop_append (hne _)]
    rfl
  | whileLoop _ h hb =>
    rw [lastStop_cons (List.append_ne_nil_of_left_ne_nil h.ne_nil _),
      lastStop_append hb.block_ne_nil]
    rfl
  | forLoop _ _ _ h hb =>
    rw [lastStop_cons (by simp), lastStop_cons (by simp),
      lastStop_cons (List.append_ne_nil_of_left_ne_nil h.ne_nil _),
      lastStop_append hb.block_ne_nil]
    rfl
  | functionDefinition _ _ _ _ _ _ _ hb =>
    rw [lastStop_cons (by simp), lastStop_cons (by simp), lastStop_cons (by simp),
      lastStop_append (by simp), lastStop_append (by simp), lastStop_append (by simp),
      lastStop_cons hb.block_ne_nil]
    rfl

/-- A statement that is marked by a semicolon ends with it, and does not depend
on what follows. -/
lemma Derives.statement_marked {lo hi : Nat} (h : Derives a (.statement loops) ts k [n])
    (hp : ∀ t ∈ ts, t.Placed lo hi) (hn : n.value = some ";") :
    (∃ us x, ts = us ++ [x] ∧ x.kind.isSeparator = true)
      ∧ ∀ k', Derives a (.statement loops) ts k' [n] := by
  cases h with
  | @comment _ _ t _ ht =>
    have := (hp t (by simp)).semicolon (by simpa [Node.leaf] using hn)
    rw [this] at ht
    cases ht
  | @exit _ _ t _ ht =>
    have := (hp t (by simp)).semicolon (by simpa [Node.leaf] using hn)
    rw [this] at ht
    cases ht
  | @loopControl _ _ t _ ht =>
    have := (hp t (by simp)).semicolon (by simpa [Node.leaf] using hn)
    rw [this] at ht
    rcases ht with ht | ht <;> cases ht
  | @assignment _ _ x e ts ms _ _ mark hx he h hm =>
    cases hm with
    | none => cases hn
    | @semicolon t _ ht =>
      have hsep : t.kind.isSeparator = true := by rw [ht]; rfl
      refine ⟨⟨x :: e :: ts, t, rfl, hsep⟩, fun k' => .assignment hx he ?_ (.semicolon ht)⟩
      exact h.change (.of_separator hsep [] _ _) False.elim
  | @expressionStatement _ _ ts ms _ _ mark h hb hm =>
    cases hm with
    | none => cases hn
    | @semicolon t _ ht =>
      have hsep : t.kind.isSeparator = true := by rw [ht]; rfl
      refine ⟨⟨ts, t, rfl, hsep⟩, fun k' => .expressionStatement ?_ ?_ (.semicolon ht)⟩
      · exact h.change (.of_separator hsep [] _ _) False.elim
      · rw [← hb]
        exact Shares.bindingAhead_eq (.of_separator hsep ts _ _)
  | _ => cases hn

end

end StpLang
