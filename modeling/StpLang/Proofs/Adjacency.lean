import StpLang.Proofs.Adjacency.Grammar

/-!
White space in matrices.

Which tokens of a row belong to one element shows in the text of the row: it depends on
whether a sign, a parenthesis or a dot touches its neighbours. Within parentheses,
arguments of calls and snippets it depends on nothing of the kind.

* `Accepted.threaded`: the tokens of an accepted text follow each other as their marks say.
* `parse_adjacency` is the result for trees.
-/

namespace StpLang

open Node

/-- The prepared tokens of an accepted text follow each other. -/
lemma Accepted.threaded {source : String} {limit : Int} {ts us : List Token} {e : Token}
    {ns : List Node} (h : Accepted source limit ts us e ns) :
    Threaded source.toList (us ++ [e]) := by
  obtain ⟨vs, u, s, v, heq, hvs, hu, hk⟩ := lexes_of_tokenize h.tokens
  obtain ⟨rfl, hlast⟩ := List.append_inj' heq rfl
  obtain rfl : e = u := (List.cons.inj hlast).1
  have hstart := Cursor.in_ofText source
  have hat := hvs.ahead.in_ hstart
  obtain ⟨d, hd, -, he⟩ := textToken_eof hu hk hat
  have htiled : Tiled source.toList false [] none 0 (ts ++ [e]) d.pos :=
    hvs.tiled hstart beginsLine_none fun hl => he ▸ tiled_eof hat hd hl
  have hends : ∀ t ∈ ts ++ [e], ∀ u ∈ t.walk, u.Ends source.toList := fun t ht u hu =>
    (lexical_ends _).tokenize h.tokens u (List.mem_flatMap.mpr ⟨t, ht, hu⟩)
  have hsettled : (Parser.settle 0 none (ts ++ [e])).1 = us ++ [e] := by
    rw [(settle_eof h.eof h.inner).1, h.settled]
  rw [← hsettled]
  refine threaded_settle htiled (fun t ht hne => ?_) hends
  rcases List.mem_append.mp ht with ht | ht
  · exact ⟨_, hvs.spelled t ht⟩
  · exact absurd (List.mem_singleton.mp ht ▸ h.eof) hne

/-- **White space decides about the elements of a matrix by adjacency alone.** In every row
of an accepted text, outside what its elements enclose, no operator is a sign that has
white space before and not behind it, calls and member accesses are written without white
space, and a sign that begins an element without a comma has white space before and not
behind it. Directly within parentheses, arguments of calls and snippets, every sign behind
an operand is a binary operator and every name before a parenthesis is called. -/
theorem parse_adjacency {source : String} {limit : Int} {t : Tree}
    (h : parse source true limit = .ok t) : ∀ n ∈ t.root.walk, n.Spaces source.toList := by
  obtain ⟨ts, us, e, ns, haccepted, rfl⟩ := parse_strict_iff.mp h
  exact spaces_over (haccepted.derives.minds_statement rfl haccepted.threaded)

/-- Elements that white space, a comma and a comment separate, and a sum, a call and a
snippet in which it separates nothing. -/
theorem parse_adjacency_row :
    ∃ t, parse "[a -1 f (2 -1), g - (x) # c\n+h.z(y (2)) \"\\\x7bi (j) -1\\\x7d\"]" true 12 = .ok t
      ∧ ((t.root.walk.filter (·.kind == .lastRow)).flatMap children).map (·.kind)
        = [.memberAccess, .unary, .memberAccess, .bracketed, .binary, .unary, .string]
      ∧ ∀ n ∈ t.root.walk,
        n.Spaces "[a -1 f (2 -1), g - (x) # c\n+h.z(y (2)) \"\\\x7bi (j) -1\\\x7d\"]".toList := by
  obtain ⟨t, ht, hkinds⟩ := exists_of_map_toOption (show
    (parse "[a -1 f (2 -1), g - (x) # c\n+h.z(y (2)) \"\\\x7bi (j) -1\\\x7d\"]" true
        12).toOption.map (fun t =>
      ((t.root.walk.filter (·.kind == .lastRow)).flatMap children).map (·.kind)) = some
        [.memberAccess, .unary, .memberAccess, .bracketed, .binary, .unary, .string] by
      decide +kernel)
  exact ⟨t, ht, hkinds, parse_adjacency ht⟩

end StpLang
