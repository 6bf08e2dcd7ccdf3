import StpLang.Proofs.Lex.Faults
import StpLang.Proofs.Lines
import StpLang.Proofs.Spans

/-!
Where the nodes that stand for errors say they are.

A statement from which reading recovers stands at its first token, and so does its node.
The node for the text that could not be cut into tokens begins where the lexer stopped, but
names the line and the column of the error, which may lie behind white space or deep in a
string.

* `named_of_program` and `named_withUnreadable` go through the nodes of a tree.
* `named_unreadable_iff` tells when the node of the unreadable text names its own place.
* `error_places` is the result; `error_place_unread` is a text where that node does not.
-/

namespace StpLang

section

variable {source : String} {limit : Int} {cs : List Char} {t : Tree} {n : Node} {hi length : Nat}
  {fault : LexFault}

/-! ### Statements -/

/-- The place of a program is the beginning of the text. -/
def Tree.AtOrigin (t : Tree) : Prop := t.root.place = ⟨1, 1, 0⟩

/-- Statements in a row name their places. -/
lemma named_of_row (hrow : Row cs 0 t.root.children hi) {c : Node} (hc : c ∈ t.root.children)
    (hn : n ∈ c.walk) : n.place.Named cs := by
  have hexact := ((hrow.mem c hc).1 n hn).2
  exact ⟨hexact.line, hexact.col⟩

lemma named_of_program (hrow : Row cs 0 t.root.children hi) (hroot : t.AtOrigin)
    (hn : n ∈ t.root.walk) : n.place.Named cs := by
  rw [Node.walk_eq, List.mem_cons, List.mem_flatMap] at hn
  rcases hn with rfl | ⟨c, hc, hn⟩
  · rw [hroot]
    exact named_origin cs
  · exact named_of_row hrow hc hn

/-! ### Unreadable text -/

/-- The node of the unreadable text names its place when the error begins there. -/
lemma named_unreadable_iff (hspan : fault.error.span.In cs) (hplace : fault.place.In cs) :
    (unreadable fault length).place.Named cs
      ↔ fault.error.span.start = fault.place.pos := by
  have hin : fault.error.span.start ≤ cs.length := Nat.le_trans hspan.order hspan.inside
  constructor
  · intro h
    exact Text.offset_eq_of_place hin hplace.pos_le (hspan.line.symm.trans h.line)
      (hspan.col.symm.trans h.col)
  · intro h
    constructor
    · show fault.error.span.line = Text.lineAt cs fault.place.pos
      rw [hspan.line, h]
    · show fault.error.span.col = Text.colAt cs fault.place.pos
      rw [hspan.col, h]

lemma mem_withUnreadable :
    unreadable fault length ∈ (t.withUnreadable fault length).root.children :=
  List.mem_append_right _ (List.mem_singleton_self _)

lemma mem_walk_withUnreadable :
    unreadable fault length ∈ (t.withUnreadable fault length).root.walk := by
  rw [Node.walk_eq]
  refine List.mem_cons_of_mem _ (List.mem_flatMap.mpr ⟨_, mem_withUnreadable, ?_⟩)
  rw [Node.walk_eq]
  exact List.mem_cons_self

/-- Behind the statements only the node of the unreadable text may be called by the place
of something else. -/
lemma named_withUnreadable (hrow : Row cs 0 t.root.children hi) (hroot : t.AtOrigin)
    (hn : n ∈ (t.withUnreadable fault length).root.walk) :
    n.place.Named cs ∨ n = unreadable fault length := by
  rw [Node.walk_eq, List.mem_cons, List.mem_flatMap] at hn
  rcases hn with rfl | ⟨c, hc, hn⟩
  · have hplace : (t.withUnreadable fault length).root.place = ⟨1, 1, 0⟩ := hroot
    rw [hplace]
    exact .inl (named_origin cs)
  · rcases List.mem_append.mp hc with hc | hc
    · exact .inl (named_of_row hrow hc hn)
    · rw [List.mem_singleton.mp hc, Node.walk_eq, List.mem_cons] at hn
      exact .inr (hn.resolve_right List.not_mem_nil)

/-- A tree read with recovery is that of the tokens of its text, with the node of the
unreadable text behind if the lexer stopped. -/
lemma recovered_cases (h : parse source false limit = .ok t) :
    ((Lexed.run limit (.ofText source)).fault = none ∧ t.AtOrigin
        ∧ ∃ hi, Row source.toList 0 t.root.children hi)
      ∨ ∃ (fault : LexFault) (t' : Tree), (Lexed.run limit (.ofText source)).fault = some fault
        ∧ t = t'.withUnreadable fault source.toList.length
        ∧ fault.error.span.In source.toList ∧ fault.place.In source.toList
        ∧ t'.AtOrigin ∧ ∃ hi, Row source.toList 0 t'.root.children hi := by
  have hstart := Cursor.in_ofText source
  obtain ⟨us, v, hus, ⟨u, w, hu, hk, htokens, hfault⟩ | ⟨e, he, htokens, hfault⟩⟩ :=
    lexed_cases source limit
  · rw [parse_of_cut false hfault, htokens] at h
    obtain ⟨d, hd, -, hmark⟩ := textToken_eof hu hk (hus.ahead.in_ hstart)
    have hahead : v.cursor.Ahead d := hd ▸ ahead_gap false v.groups v.cursor
    obtain ⟨hrow, hroot, -⟩ := covered_of_readTokens hus hahead hmark h
    exact .inl ⟨hfault, by rw [Tree.AtOrigin, hroot]; rfl, _, hrow⟩
  · obtain ⟨trace, t', ht', hparse⟩ := parse_of_fault hfault
    cases hparse.symm.trans h
    rw [htokens] at ht'
    obtain ⟨hrow, hroot, -⟩ :=
      covered_of_readTokens (b := false) hus ⟨0, Nat.zero_le _, rfl⟩ rfl ht'
    exact .inr ⟨_, t', hfault, rfl, he.span, hus.ahead.in_ hstart,
      by rw [Tree.AtOrigin, hroot]; rfl, _, hrow⟩

end

/-- **Nodes name their own place, but for the unreadable text.** In a tree read with
recovery every node names the line and the column of its start, also those that stand for
broken statements, except perhaps the last child, when it stands for the text that could
not be cut into tokens. That one starts where the lexer stopped and names the place of the
error, so that all nodes are right exactly when the error, if there is one, begins where
the lexer stopped. -/
theorem error_places {source : String} {limit : Int} {t : Tree}
    (h : parse source false limit = .ok t) :
    (∀ n ∈ t.root.walk, n.place.Named source.toList
        ∨ t.root.children.getLast? = some n
          ∧ ∃ fault ∈ (Lexed.run limit (.ofText source)).fault,
            n = unreadable fault source.toList.length)
      ∧ (∀ fault ∈ (Lexed.run limit (.ofText source)).fault,
        ∃ n ∈ t.root.children, n.kind = .error ∧ n.start = fault.place.pos
          ∧ n.line = Text.lineAt source.toList fault.error.span.start
          ∧ n.col = Text.colAt source.toList fault.error.span.start)
      ∧ ((∀ n ∈ t.root.walk, n.place.Named source.toList)
        ↔ ∀ fault ∈ (Lexed.run limit (.ofText source)).fault,
          fault.error.span.start = fault.place.pos) := by
  rcases recovered_cases h with
    ⟨hfault, hroot, hi, hrow⟩ | ⟨fault, t', hfault, rfl, hspan, hplace, hroot, hi, hrow⟩
  · have hnamed (n : Node) (hn : n ∈ t.root.walk) := named_of_program hrow hroot hn
    rw [hfault]
    exact ⟨fun n hn => .inl (hnamed n hn), fun _ hmem => (by cases hmem),
      fun _ _ hmem => (by cases hmem), fun _ => hnamed⟩
  · rw [hfault]
    refine ⟨fun n hn => ?_, fun _ hmem => ?_, fun hall _ hmem => ?_, fun hall n hn => ?_⟩
    · refine (named_withUnreadable hrow hroot hn).imp_right fun heq => ⟨?_, fault, rfl, heq⟩
      rw [heq]
      exact List.getLast?_concat
    · cases hmem
      exact ⟨_, mem_withUnreadable, rfl, rfl, hspan.line, hspan.col⟩
    · cases hmem
      exact (named_unreadable_iff hspan hplace).mp (hall _ mem_walk_withUnreadable)
    · rcases named_withUnreadable hrow hroot hn with hn | rfl
      · exact hn
      · exact (named_unreadable_iff hspan hplace).mpr (hall fault rfl)

/-- Behind a broken statement, a line that breaks off at its first character. -/
theorem error_places_line :
    ∃ t, parse "if )\n$" false 5 = .ok t ∧ t.errors.length = 2
      ∧ ∀ n ∈ t.root.walk, n.place.Named "if )\n$".toList := by
  have herrors : (parse "if )\n$" false 5).toOption.map (·.errors.length) = some 2 := by
    decide +kernel
  have hplace : (Lexed.run 5 (.ofText "if )\n$")).fault.map
      (fun fault => (fault.error.span.start, fault.place.pos)) = some (5, 5) := by decide +kernel
  cases h : parse "if )\n$" false 5 with
  | error e =>
    rw [h] at herrors
    cases herrors
  | ok t =>
    rw [h] at herrors
    refine ⟨t, rfl, Option.some.inj herrors, (error_places h).2.2.mpr fun fault hmem => ?_⟩
    rw [Option.mem_def.mp hmem] at hplace
    obtain ⟨hstart, hpos⟩ := Prod.mk.inj (Option.some.inj hplace)
    exact hstart.trans hpos.symm

/-- A text that breaks off behind a blank: the node of the unreadable text starts at the
blank, in the second column, and claims to stand in the third. -/
theorem error_place_unread :
    ∃ t, parse "a $" false 5 = .ok t ∧ ∃ n ∈ t.root.children, n.kind = .error ∧ n.start = 1
      ∧ n.line = 1 ∧ n.col = 3 ∧ Text.colAt "a $".toList n.start = 2 := by
  have hlast : (parse "a $" false 5).toOption.map (fun t => t.root.children.getLast?.map
      fun n => (n.kind, n.start, n.line, n.col)) = some (some (.error, 1, 1, 3)) := by
    decide +kernel
  cases h : parse "a $" false 5 with
  | error e =>
    rw [h] at hlast
    cases hlast
  | ok t =>
    rw [h] at hlast
    obtain ⟨n, hn, hfields⟩ := Option.map_eq_some_iff.mp (Option.some.inj hlast)
    simp only [Prod.mk.injEq] at hfields
    obtain ⟨hkind, hstart, hline, hcol⟩ := hfields
    refine ⟨t, rfl, n, List.mem_of_getLast? hn, hkind, hstart, hline, hcol, ?_⟩
    rw [hstart]
    decide

end StpLang
