import StpLang.Edit
import StpLang.Proofs.Height
import StpLang.Proofs.Schema

/-!
The records of a tree.

A tree keeps the number of levels that was counted when its statements had been
read, and each node a table that tells which of its children bear which label. The
tables are right in every tree that is read or edited. The number of levels is right
but for one case: where nothing stands in a program except a text that could not be
cut into tokens, the node for this text is not counted.

* `Tree.Made` are the trees that come from reading and from editing.
* `Node.Obeys.labels_lt` and `Node.Obeys.lookup_eq` are the laws of a table.
* `Tree.Made.formed` and `Tree.Made.height_cases` follow reading and editing.
* `Tree.Made.records` puts both records together.
-/

namespace StpLang

open Node Slot

/-! ### Tables -/

namespace Slot

/-- The number of nodes that the slots take at least. -/
def least : List Slot → Nat
  | [] => 0
  | .one _ :: slots => least slots + 1
  | .optional _ :: slots | .many _ :: slots => least slots

lemma least_le_length {slots : List Slot} {ns : List Node} (h : fill slots ns = true) :
    least slots ≤ ns.length := by
  induction slots generalizing ns with
  | nil => exact Nat.zero_le _
  | cons slot slots ih =>
    cases slot with
    | one p =>
      obtain ⟨x, xs, rfl, -, h⟩ := fill_one_inv h
      exact Nat.succ_le_succ (ih h)
    | optional p =>
      rcases fill_optional_inv h with h | ⟨x, xs, rfl, -, h⟩
      · exact ih h
      · exact Nat.le_succ_of_le (ih h)
    | many p =>
      obtain ⟨xs, ys, rfl, -, h⟩ := fill_many_inv h
      rw [List.length_append]
      exact Nat.le_add_left_of_le (ih h)

end Slot

/-- The labels of a kind stand at positions of children. -/
lemma Kind.labels_lt {kind : Kind} {n : Nat} (h : least kind.parts ≤ n) :
    ∀ entry ∈ kind.labels n, ∀ i ∈ entry.2, i < n := by
  cases kind with
  | string => simp [Kind.labels]
  | range =>
    -- a range has two bounds, or a step between them
    simp only [Kind.parts, least] at h
    by_cases hn : n = 3
    · subst hn
      decide
    · have hlabels : Kind.labels .range n = [(.start, [0]), (.stop, [1])] := by
        rw [Kind.labels]
        exact hn
      rw [hlabels]
      simp
      omega
  | _ =>
    simp only [Kind.parts, least] at h
    simp [Kind.labels] <;> omega

/-- A kind has each label once. -/
lemma Kind.nodup_labels (kind : Kind) (n : Nat) : ((kind.labels n).map (·.1)).Nodup := by
  unfold Kind.labels
  split <;> simp

namespace Node.Obeys

variable {n : Node} {f : Field} {positions : List Nat}

lemma labels_lt (h : n.Obeys) : ∀ entry ∈ n.fields, ∀ i ∈ entry.2, i < n.children.length := by
  rw [h.labels]
  exact Kind.labels_lt (least_le_length h.parts)

lemma lookup_eq (h : n.Obeys) (hf : (f, positions) ∈ n.fields) :
    n.fields.lookup f = some positions := by
  have hnodup : (n.fields.map (·.1)).Nodup := h.labels ▸ Kind.nodup_labels ..
  obtain ⟨before, behind, heq⟩ := List.append_of_mem hf
  refine List.lookup_eq_some_iff.mpr ⟨before, behind, heq, fun entry he => ?_⟩
  rw [heq, List.map_append, List.nodup_append] at hnodup
  exact bne_iff_ne.mpr
    (hnodup.2.2 _ (List.mem_map_of_mem he) _ (List.mem_map_of_mem List.mem_cons_self)).symm

/-- The children that bear a label are those at the positions of the table, and none
of them is missing. -/
lemma labelled_eq (h : n.Obeys) (hf : (f, positions) ∈ n.fields) :
    (n.labelled f).map some = positions.map (n.children[·]?) := by
  have hlt := h.labels_lt _ hf
  rw [labelled, h.lookup_eq hf, Option.getD_some]
  clear hf
  induction positions with
  | nil => rfl
  | cons i positions ih =>
    rw [List.forall_mem_cons] at hlt
    rw [List.filterMap_cons_some (List.getElem?_eq_getElem hlt.1), List.map_cons, List.map_cons,
      ih hlt.2, List.getElem?_eq_getElem hlt.1]

end Node.Obeys

/-! ### Trees that are read and edited -/

/-- The trees that come from reading a text and from editing such a tree again and
again. Each edit has a mode and a limit of its own. -/
inductive Tree.Made : Tree → Prop
  | read {source : String} {strict : Bool} {limit : Int} {t : Tree}
      (h : parse source strict limit = .ok t) : Made t
  | edited {source : String} {e : Edit} {strict : Bool} {limit : Int} {t : Tree} {r : Reparsed}
      (h : Made t) (hr : reparse t source e strict limit = .ok r) : Made r.tree

section

variable {source : String} {e : Edit} {strict : Bool} {limit : Int} {t old : Tree} {r : Reparsed}

/-- Nothing stands in a program but a text that could not be cut into tokens. -/
def Tree.Unread (t : Tree) : Prop :=
  ∃ n, t.root.children = [n] ∧ n.kind = .error ∧ n.children = []

/-- The number of levels that a tree keeps is right, or only the node of an unread
text is not counted. -/
lemma height_of_readFrom {c : Cursor} (h : (readFrom limit strict c).result = .ok t) :
    t.height = t.root.height ∨ t.height = 1 ∧ t.Unread := by
  have hread {tokens : List Token} {trace : List Event} {t : Tree}
      (h : (readTokens limit false tokens trace).result = .ok t) : t.height = t.root.height := by
    obtain ⟨root, s, hs, -⟩ := program_ok limit limit.toNat 0 (startAt tokens trace)
    rw [readTokens_result, hs] at h
    cases h
    rfl
  obtain ⟨us, v, -, ⟨e, w, trace, -, -, ht⟩ | ⟨-, error, trace, t', ht, rfl⟩⟩ := readFrom_cases h
  · exact .inl (hread ht)
  · have hkept : t'.height = 1 + maxHeight t'.root.children := (hread ht).trans (height_eq _)
    by_cases hnil : t'.root.children = []
    · refine .inr ⟨by rw [Tree.withUnreadable, hkept, hnil, maxHeight_nil],
        unreadable ⟨error, v.cursor⟩ (c.past.length + c.rest.length), ?_, rfl, rfl⟩
      rw [Tree.withUnreadable, hnil, List.nil_append]
    · -- the node behind a statement adds no level
      left
      obtain ⟨n, ns, hns⟩ := List.exists_cons_of_ne_nil hnil
      have hpos := n.height_pos
      rw [height_eq, Tree.withUnreadable, hkept, maxHeight_append, hns, maxHeight_cons,
        maxHeight_cons, maxHeight_nil, unreadable, height_spanning, maxHeight_nil]
      omega

lemma keptStatements_subset {cs : List Char} {start : Int} {ns : List Node} {n : Node}
    (h : n ∈ keptStatements cs start ns) : n ∈ ns := by
  have hsettled : n ∈ settledStatements cs start ns := by
    unfold keptStatements at h
    dsimp only at h
    split at h
    · exact (List.dropLast_sublist _).subset h
    · exact h
  exact (List.takeWhile_sublist _).subset hsettled

/-- A text is read anew after an edit, or what stands behind the statements that stay
is read. -/
lemma reparse_cases (h : reparse old source e strict limit = .ok r) :
    parse (e.apply source) strict limit = .ok r.tree
      ∨ ∃ kept resume c rest, (∀ n ∈ kept, n ∈ old.root.children)
        ∧ (readFrom limit strict c).result = .ok rest
        ∧ r.tree = joinKept old kept resume (e.apply source).toList.length rest := by
  have hanew (h : (do return ⟨← parse (e.apply source) strict limit, 0⟩ : Except Error Reparsed)
      = .ok r) :
      parse (e.apply source) strict limit = .ok r.tree := by
    cases hp : parse (e.apply source) strict limit with
    | error err =>
      rw [hp] at h
      cases h
    | ok t =>
      rw [hp] at h
      cases h
      rfl
  unfold reparse at h
  dsimp only at h
  split at h
  · exact .inl (hanew h)
  split at h
  · exact .inl (hanew h)
  · right
    rename_i last hlast
    generalize (separatorEnd? source.toList last).getD 0 = resume at h
    generalize Cursor.atOffset (e.apply source) resume (Text.lineAt (e.apply source).toList resume)
      (Text.colAt (e.apply source).toList resume) = c at h
    cases hrest : (readFrom limit strict c).result with
    | error err =>
      rw [hrest] at h
      cases h
    | ok rest =>
      rw [hrest] at h
      cases h
      exact ⟨_, resume, c, rest, fun n hn => keptStatements_subset hn, hrest, rfl⟩

/-- The children of a program that obeys the schema. -/
lemma Node.Formed.entries (h : t.root.Formed) (hk : t.root.kind = .sourceFile) :
    Filled [.many (Node.of Kind.isEntry)] t.root.children := by
  obtain ⟨hobeys, hchildren⟩ := formed_iff.mp h
  have hparts := hobeys.parts
  rw [hk] at hparts
  exact ⟨hparts, hchildren⟩

/-- Edited trees obey the schema. -/
lemma Tree.Made.formed (h : t.Made) : t.root.kind = .sourceFile ∧ t.root.Formed := by
  induction h with
  | read h => exact formed_of_readFrom h
  | edited _ hr ih =>
    rcases reparse_cases hr with h | ⟨kept, resume, c, rest, hkept, hrest, heq⟩
    · exact formed_of_readFrom h
    · have hold := ih.2.entries ih.1
      have hnew := (formed_of_readFrom hrest).2.entries (formed_of_readFrom hrest).1
      rw [heq]
      refine ⟨rfl, formed_spanning ⟨fill_many_iff.mpr ?_, ?_⟩ rfl rfl⟩
      · exact List.forall_mem_append.mpr ⟨fun n hn => hold.many n (hkept n hn), hnew.many⟩
      · exact List.forall_mem_append.mpr ⟨fun n hn => hold.formed n (hkept n hn), hnew.formed⟩

/-- An edit that keeps statements counts the levels anew. -/
lemma Tree.Made.height_cases (h : t.Made) :
    t.height = t.root.height ∨ t.height = 1 ∧ t.Unread := by
  cases h with
  | read h => exact height_of_readFrom h
  | edited _ hr =>
    rcases reparse_cases hr with h | ⟨kept, resume, c, rest, -, -, heq⟩
    · exact height_of_readFrom h
    · rw [heq]
      exact .inl rfl

end

/-- **The records of a tree.** However a tree was read and edited, every node has each
label once, and the children that bear it are those at the positions in its table. The
number of levels that the tree keeps is that of its root, or it is 1 and nothing stands
in the program but a text that could not be cut into tokens. The levels of a node are
always counted from its children (`Node.height_eq`). -/
theorem Tree.Made.records {t : Tree} (h : t.Made) :
    (t.height = t.root.height ∨ t.height = 1 ∧ t.Unread)
    ∧ ∀ n ∈ t.root.walk, (n.fields.map (·.1)).Nodup ∧ ∀ f positions, (f, positions) ∈ n.fields →
        (∀ i ∈ positions, i < n.children.length)
          ∧ (n.labelled f).map some = positions.map (n.children[·]?) := by
  refine ⟨h.height_cases, fun n hn => ?_⟩
  have hobeys : n.Obeys := h.formed.2 n hn
  refine ⟨hobeys.labels ▸ Kind.nodup_labels .., fun f positions hf => ?_⟩
  exact ⟨hobeys.labels_lt _ hf, hobeys.labelled_eq hf⟩

/-- The second statement of a program becomes a call, under a lower limit. -/
theorem records_edited :
    ∃ t r, parse "a;b" true 9 = .ok t ∧ reparse t "a;b" ⟨2, 3, "f(c, d=1)"⟩ false 7 = .ok r
      ∧ r.kept = 1 ∧ r.tree.height = r.tree.root.height
      ∧ ∀ n ∈ r.tree.root.walk, (n.fields.map (·.1)).Nodup
        ∧ ∀ f positions, (f, positions) ∈ n.fields →
          (∀ i ∈ positions, i < n.children.length)
            ∧ (n.labelled f).map some = positions.map (n.children[·]?) := by
  obtain ⟨t, ht, h⟩ := exists_of_map_toOption (show
    (parse "a;b" true 9).toOption.map (fun t => (reparse t "a;b" ⟨2, 3, "f(c, d=1)"⟩ false 7
      ).toOption.map fun r => (r.kept, r.tree.height)) = some (some (1, 6)) by decide +kernel)
  obtain ⟨r, hr, hrecords⟩ := exists_of_map_toOption h
  obtain ⟨hkept, hheight⟩ := Prod.mk.inj hrecords
  obtain ⟨hlevels, htables⟩ := (Tree.Made.read ht).edited hr |>.records
  refine ⟨t, r, ht, hr, hkept, hlevels.resolve_right fun hone => ?_, htables⟩
  rw [hheight] at hone
  exact absurd hone.1 (by decide)

/-- A text that is one quote: its root keeps the number of levels that it had before
the node for the text was put below it. -/
theorem height_unread :
    ∃ t, parse "\"" false 100 = .ok t ∧ t.height = 1 ∧ t.root.children.length = 1
      ∧ t.height ≠ 1 + maxHeight t.root.children := by
  obtain ⟨t, h, hrecords⟩ := exists_of_map_toOption (show
    (parse "\"" false 100).toOption.map
      (fun t => (t.height, t.root.children.length, maxHeight t.root.children))
      = some (1, 1, 1) by decide +kernel)
  obtain ⟨hheight, hrest⟩ := Prod.mk.inj hrecords
  obtain ⟨hlength, hbelow⟩ := Prod.mk.inj hrest
  refine ⟨t, h, hheight, hlength, ?_⟩
  rw [hheight, hbelow]
  decide

end StpLang
