import StpLang.Proofs.Returns.Grammar
import StpLang.Proofs.Schema

/-!
Line ends do not matter.

A program keeps its tree when every line end gets a carriage return, as long as no
string goes over several lines.

* `Accepted.returned` carries an accepted text over.
* `Node.Alike.same`: corresponding nodes are the same where no string holds a line end.
* `parse_withReturns` is the result for trees.
-/

namespace StpLang

open Lexer

section

variable {source : String} {limit : Int} {ts us : List Token} {e : Token} {ns : List Node}

/-- The beginnings of the two texts. -/
lemma returned_ofText (h : '\r' ∉ source.toList) :
    Lexer.InStep { cursor := .ofText source }
      { cursor := .ofText (String.ofList (withReturns source.toList)) } := by
  have hrest : ∀ s : String, (Cursor.ofText s).rest = s.toList := fun s => rfl
  refine ⟨.inl ⟨?_, ?_, rfl, rfl, rfl⟩, rfl, rfl⟩
  · rw [hrest, hrest, String.toList_ofList]
  · rwa [hrest]

/-- At the ends of the two texts. -/
lemma Lexer.InStep.at_end {s s' : Lexer} (hs : Lexer.InStep s s')
    (hr : (s.cursor.forward (gap false s.groups s.cursor)).rest = []) :
    Returned (s.cursor.forward (gap false s.groups s.cursor))
        (s'.cursor.forward (gap false s'.groups s'.cursor))
      ∧ (gap false s'.groups s'.cursor != 0) = (gap false s.groups s.cursor != 0) := by
  have hgap : gap false s'.groups s'.cursor
      = Scan.blankLength (false || !s.groups.isEmpty) s'.cursor.rest := by
    rw [gap, hs.groups.isEmpty]
  rw [hgap]
  cases hs.cursor.spaceEnds (false || !s.groups.isEmpty) with
  | same hat _ hblank => exact ⟨hat, hblank⟩
  | midway hat =>
    obtain ⟨k, hk, -⟩ := hat.rest
    rw [gap, hk] at hr
    cases hr

/-- The end marks of the two texts correspond. -/
lemma end_returned {s s' : Lexer} (hs : Lexer.InStep s s') {v v' : Lexer} {e e' : Token}
    (h : textToken limit s = .ok e v) (he : e.kind = .eof) (h' : textToken limit s' = .ok e' v')
    (he' : e'.kind = .eof) (Q : List Token → List Token → Prop) : e.Alike Q e' := by
  obtain ⟨hat, hblank⟩ := hs.at_end (rest_of_eof h he)
  cases textToken_inv h with
  | token hcut => exact absurd he (by obtain ⟨hlex⟩ := hcut; exact hlex.plain.1)
  | snippet hb => cases hb
  | text _ _ hcur hu =>
    cases textToken_inv h' with
    | token hcut => exact absurd he' (by obtain ⟨hlex⟩ := hcut; exact hlex.plain.1)
    | snippet hb => cases hb
    | text _ _ hcur' hu' =>
      rw [hu, hu', hcur, hcur']
      refine ⟨rfl, fun _ => rfl, hat.line, fun _ => hat.col, fun _ => ?_, .nil⟩
      change (s'.spaced || gap false s'.groups s'.cursor != 0)
        = (s.spaced || gap false s.groups s.cursor != 0)
      rw [hs.spaced, hblank]

/-- An accepted text is accepted with returns at the ends of its lines. -/
lemma Accepted.returned (h : Accepted source limit ts us e ns) (hr : '\r' ∉ source.toList) :
    ∃ ts' us' e' ns',
      Accepted (String.ofList (withReturns source.toList)) limit ts' us' e' ns'
        ∧ TokensAlike limit.toNat ts ts' ∧ TokensAlike limit.toNat us us' ∧ NodesAlike ns ns' := by
  obtain ⟨vs, u, s, v, heq, hlexes, hu, hk⟩ := lexes_of_tokenize h.tokens
  obtain ⟨rfl, hlast⟩ := List.append_inj' heq rfl
  obtain rfl : e = u := (List.cons.inj hlast).1
  obtain ⟨ts', s', hlexes', hs, hts⟩ := hlexes.returned (returned_ofText hr)
  have hend : (s'.cursor.forward (gap false s'.groups s'.cursor)).rest = [] := by
    rw [(hs.at_end (rest_of_eof hu hk)).1.rest, rest_of_eof hu hk]
    rfl
  obtain ⟨e', v', hu', he', htokens⟩ := tokenize_of_lexes hlexes' hend
  have halike := end_returned hs hu hk hu' he' (SnippetsAlike limit.toNat)
  have hus := (settle_alike hts 0 none).1
  rw [h.settled] at hus
  obtain ⟨ns', hd, hns⟩ := h.derives.alike limit.toNat rfl hus (.cons halike .nil) (by rintro ⟨⟩)
  exact ⟨ts', _, e', ns', ⟨htokens, hlexes'.ne_eof, he', rfl, hd⟩, hts, hus, hns⟩

/-- The comments within corresponding strings. -/
lemma snippetComments_alike {n : Nat} {ts ts' : List Token} (h : TokensAlike n ts ts') :
    List.Forall₂ Node.Matches (ts.flatMap Token.snippetComments)
      (ts'.flatMap Token.snippetComments) := by
  induction h with
  | nil => exact .nil
  | @cons t t' ts ts' h _ ih =>
    rw [List.flatMap_cons, List.flatMap_cons]
    refine append_forall₂ ?_ ih
    unfold Token.snippetComments
    rw [h.kind]
    split
    · have hsegs := h.segments
      generalize t.segments = segs at hsegs
      generalize t'.segments = segs' at hsegs
      induction hsegs with
      | nil => exact .nil
      | @cons seg seg' segs segs' hseg _ ihs =>
        rw [List.flatMap_cons, List.flatMap_cons]
        refine append_forall₂ ?_ ihs
        have hform := hseg.form
        generalize seg.form = form at hform
        generalize seg'.form = form' at hform
        cases hform with
        | snippet htokens =>
          cases n with
          | zero => exact htokens.elim
          | succ n => exact (settle_alike htokens 0 none).2
        | other hf =>
          split
          · exact absurd rfl (hf _)
          · exact .nil
    · exact .nil

/-- Corresponding nodes that obey the schema are the same where no string holds a line
end. -/
lemma Node.Alike.same {n n' : Node} (h : n.Alike n') (hf : n.Formed)
    (hc : ∀ m ∈ n.walk, m.kind = .chars → ∀ v ∈ m.value, '\n' ∉ v.toList) :
    n.same n' = true := by
  induction n using induction_children generalizing n' with
  | h n ih =>
    obtain ⟨hkind, hvalue, hline, hcol, hfields, hchildren⟩ := h
    rw [forall_mem_walk] at hc
    obtain ⟨hobeys, hbelow⟩ := formed_iff.mp hf
    have hsame : n'.value = n.value := by
      rcases hvalue with hvalue | ⟨hk, hvalue⟩
      · exact hvalue
      · rw [hvalue]
        cases hv : n.value with
        | none => rfl
        | some v =>
          rw [Option.map_some, withReturns_eq (hc.1 hk v hv), String.ofList_toList]
    have hall : allAgree true n.children n'.children = true := by
      have hc := hc.2
      revert ih hbelow hc
      generalize n.children = cs at hchildren
      generalize n'.children = cs' at hchildren
      intro ih hbelow hc
      induction hchildren with
      | nil => rw [allAgree]
      | cons hx _ ihs =>
        rw [List.forall_mem_cons] at ih hbelow hc
        rw [allAgree, Bool.and_eq_true]
        exact ⟨ih.1 hx hbelow.1 hc.1, ihs ih.2 hbelow.2 hc.2⟩
    have hlabels := Kind.same_labels n.kind n.children.length
    rw [← hobeys.labels] at hlabels
    obtain ⟨kind, value, line, col, start, stop, children, fields⟩ := n
    obtain ⟨kind', value', line', col', start', stop', children', fields'⟩ := n'
    dsimp only at *
    subst hkind hsame hline hcol hfields
    simp [Node.same, agrees, hall, hlabels]

end

/-- **Line ends do not matter.** A program without carriage returns, in which no string
goes over several lines but for its snippets, is accepted with a return before every line
end as well, under the same limit. All nodes have the same kinds, texts, lines and
columns, children and labels, and the comments aside the same texts, lines and columns. -/
theorem parse_withReturns {source : String} {limit : Int} {t : Tree}
    (hr : '\r' ∉ source.toList) (h : parse source true limit = .ok t)
    (hc : ∀ n ∈ t.root.walk, n.kind = .chars → ∀ v ∈ n.value, '\n' ∉ v.toList) :
    ∃ t', parse (String.ofList (withReturns source.toList)) true limit = .ok t'
      ∧ t.root.same t'.root = true ∧ List.Forall₂ Node.Matches t.trivia t'.trivia := by
  have hformed := (formed_of_readFrom h).2
  obtain ⟨ts, us, e, ns, haccepted, rfl⟩ := parse_strict_iff.mp h
  obtain ⟨ts', us', e', ns', haccepted', hts, hus, hns⟩ := haccepted.returned hr
  refine ⟨_, parse_strict_iff.mpr ⟨ts', us', e', ns', haccepted', rfl⟩, ?_, ?_⟩
  · exact (Node.Alike.spanning ⟨rfl, rfl⟩ hns _ _ _ _ _).same hformed hc
  · exact append_forall₂ (settle_alike hts 0 none).2 (snippetComments_alike hus)

/-- A comment, a call and a matrix over several lines, a continued line, `mod` before a
line end, and a snippet that goes over two lines. -/
theorem parse_withReturns_program :
    ∃ t t', parse "x = f(1, # c\n  [a -b\n -c])\\\n  mod\\\n 2\nsym s # d\n\"\\\x7b (y\n# e\n)\\\x7d\"" true 12 = .ok t
      ∧ t.root.walk.length = 33 ∧ t.trivia.length = 2
      ∧ parse "x = f(1, # c\r\n  [a -b\r\n -c])\\\r\n  mod\\\r\n 2\r\nsym s # d\r\n\"\\\x7b (y\r\n# e\r\n)\\\x7d\"" true 12 = .ok t'
      ∧ t.root.same t'.root = true ∧ List.Forall₂ Node.Matches t.trivia t'.trivia := by
  obtain ⟨t, ht, hcounts⟩ := exists_of_map_toOption (show
    (parse "x = f(1, # c\n  [a -b\n -c])\\\n  mod\\\n 2\nsym s # d\n\"\\\x7b (y\n# e\n)\\\x7d\"" true 12).toOption.map
      (fun t => (t.root.walk.length, t.trivia.length, decide (∀ n ∈ t.root.walk, n.kind = .chars →
        ∀ v ∈ n.value, '\n' ∉ v.toList))) = some (33, 2, true) by decide +kernel)
  rw [Prod.mk.injEq, Prod.mk.injEq, decide_eq_true_iff] at hcounts
  obtain ⟨t', ht', hsame⟩ := parse_withReturns (by decide +kernel) ht hcounts.2.2
  exact ⟨t, t', ht, hcounts.1, hcounts.2.1, ht', hsame⟩

end StpLang
