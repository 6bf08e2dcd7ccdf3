import Mathlib.Tactic.Lemma
import StpLang.Diagnostic

/-!
Lines of a text.

A line owns the offsets of its characters and of the line feed that ends it; the last line
owns the offset of the end of the text. So every offset up to the end lies in one line, and
its line and column tell it from all others.

* `Text.offset_eq_of_place`: no two offsets share their line and column.
* `Text.startOf` is the offset at which a line starts, `Text.lineAt_eq_iff` finds the offsets
  of a line, and `Text.colAt_eq` counts their columns.
-/

namespace StpLang

namespace Text

variable {cs : List Char} {i j k : Nat}

/-! ### Offsets -/

/-- The text up to a place, and the text from there to a later place. -/
lemma take_eq_append_slice (cs : List Char) (h : i ≤ j) :
    cs.take j = cs.take i ++ slice cs i j := by
  rw [slice, ← Nat.add_sub_cancel' h, List.drop_take, Nat.add_sub_cancel_left, List.take_add]

/-- The line of a later offset counts the line feeds on the way. -/
lemma lineAt_eq_add (cs : List Char) (h : i ≤ j) :
    lineAt cs j = lineAt cs i + (slice cs i j).count '\n' := by
  rw [lineAt, lineAt, take_eq_append_slice cs h, List.count_append]
  omega

lemma lineAt_mono (cs : List Char) (h : i ≤ j) : lineAt cs i ≤ lineAt cs j := by
  rw [lineAt_eq_add cs h]
  exact Nat.le_add_right _ _

/-- A line feed begins a new line. -/
lemma lineAt_succ (h : i < cs.length) :
    lineAt cs (i + 1) = if cs[i]? = some '\n' then lineAt cs i + 1 else lineAt cs i := by
  rw [lineAt, lineAt, List.take_succ_eq_append_getElem h, List.count_append,
    List.count_singleton, List.getElem?_eq_getElem h]
  simp only [Option.some.injEq, beq_iff_eq]
  split <;> omega

/-- No line is left out between two offsets. -/
lemma exists_lineAt_eq {n : Nat} (hij : i ≤ j) (hi : lineAt cs i ≤ n) (hj : n ≤ lineAt cs j) :
    ∃ k, i ≤ k ∧ k ≤ j ∧ lineAt cs k = n := by
  induction hij with
  | refl => exact ⟨i, Nat.le_refl i, Nat.le_refl i, Nat.le_antisymm hi hj⟩
  | @step j hij ih =>
    by_cases hn : n ≤ lineAt cs j
    · obtain ⟨k, hk, hk', hline⟩ := ih hn
      exact ⟨k, hk, Nat.le_succ_of_le hk', hline⟩
    · refine ⟨j + 1, Nat.le_succ_of_le hij, Nat.le_refl _, ?_⟩
      by_cases hlt : j < cs.length
      · rw [lineAt_succ hlt] at hj ⊢
        by_cases hfeed : cs[j]? = some '\n'
        · rw [if_pos hfeed] at hj ⊢
          omega
        · rw [if_neg hfeed] at hj
          exact absurd hj hn
      · have hend : cs.take (j + 1) = cs.take j := by
          rw [List.take_of_length_le (by omega), List.take_of_length_le (by omega)]
        rw [lineAt, hend] at hj
        exact absurd hj hn

/-- Within a line the columns count the characters. -/
lemma colAt_of_lineAt_eq (hij : i ≤ j) (hj : j ≤ cs.length) (h : lineAt cs i = lineAt cs j) :
    colAt cs j = colAt cs i + (j - i) := by
  have hnone : (slice cs i j).count '\n' = 0 := by
    have := lineAt_eq_add cs hij
    omega
  have hlen : (slice cs i j).length = j - i := by
    rw [slice, List.length_drop, List.length_take, Nat.min_eq_left hj]
  have hplain : ∀ x ∈ (slice cs i j).reverse, (x != '\n') = true := fun x hx =>
    bne_iff_ne.mpr fun hnl => List.count_eq_zero.mp hnone (hnl ▸ List.mem_reverse.mp hx)
  rw [colAt, colAt, take_eq_append_slice cs hij, List.reverse_append,
    List.takeWhile_append_of_pos hplain, List.length_append, List.length_reverse, hlen]
  omega

/-- No two offsets of a text share their line and their column. -/
lemma offset_eq_of_place (hi : i ≤ cs.length) (hj : j ≤ cs.length)
    (hline : lineAt cs i = lineAt cs j) (hcol : colAt cs i = colAt cs j) : i = j := by
  rcases Nat.le_total i j with hij | hji
  · have := colAt_of_lineAt_eq hij hj hline
    omega
  · have := colAt_of_lineAt_eq hji hi hline.symm
    omega

/-! ### The lines that a text is cut into -/

lemma lines_ne_nil (cs : List Char) : lines cs ≠ [] := by
  cases cs with
  | nil => exact List.cons_ne_nil _ _
  | cons c cs =>
    rw [lines]
    split
    · exact List.cons_ne_nil _ _
    · split <;> exact List.cons_ne_nil _ _

/-- A line feed ends an empty line. -/
lemma lines_feed (cs : List Char) : lines ('\n' :: cs) = [] :: lines cs := if_pos rfl

/-- Any other character opens the first line of what follows. -/
lemma exists_lines_cons {c : Char} (hc : c ≠ '\n') (cs : List Char) :
    ∃ l ls, lines cs = l :: ls ∧ lines (c :: cs) = (c :: l) :: ls := by
  obtain ⟨l, ls, hl⟩ := List.exists_cons_of_ne_nil (lines_ne_nil cs)
  exact ⟨l, ls, hl, by rw [lines, if_neg hc, hl]⟩

lemma length_lines (cs : List Char) : (lines cs).length = cs.count '\n' + 1 := by
  induction cs with
  | nil => rfl
  | cons c cs ih =>
    by_cases hc : c = '\n'
    · rw [hc, lines_feed, List.length_cons, ih, List.count_cons_self]
    · obtain ⟨l, ls, hl, hcons⟩ := exists_lines_cons hc cs
      rw [hcons, List.count_cons_of_ne hc, ← ih, hl]
      rfl

/-- The offset at which the line of an index starts, when each line takes its characters
and a line feed. -/
def startOf (ls : List (List Char)) (k : Nat) : Nat :=
  (ls.take k).foldl (fun offset text => offset + text.length + 1) 0

lemma startOf_zero (ls : List (List Char)) : startOf ls 0 = 0 := rfl

lemma startOf_cons (l : List Char) (ls : List (List Char)) (k : Nat) :
    startOf (l :: ls) (k + 1) = l.length + 1 + startOf ls k := by
  have hacc (a : Nat) (ms : List (List Char)) :
      ms.foldl (fun offset text => offset + text.length + 1) a
        = a + ms.foldl (fun offset text => offset + text.length + 1) 0 := by
    induction ms generalizing a with
    | nil => rfl
    | cons m ms ih =>
      rw [List.foldl_cons, List.foldl_cons, ih, ih (0 + m.length + 1)]
      omega
  rw [startOf, List.take_succ_cons, List.foldl_cons, hacc, Nat.zero_add]
  rfl

/-- The next line starts behind the line feed. -/
lemma startOf_succ {ls : List (List Char)} (h : k < ls.length) :
    startOf ls (k + 1) = startOf ls k + (ls[k]?.getD []).length + 1 := by
  induction ls generalizing k with
  | nil => exact absurd h (Nat.not_lt_zero k)
  | cons l ls ih =>
    cases k with
    | zero => simp [startOf_cons, startOf_zero]
    | succ k =>
      rw [startOf_cons, startOf_cons, ih (Nat.lt_of_succ_lt_succ h), List.getElem?_cons_succ]
      omega

/-- As many line feeds stand before an offset as there are lines before its own. -/
lemma count_take_eq_iff (hk : k < (lines cs).length) (hi : i ≤ cs.length) :
    (cs.take i).count '\n' = k ↔ startOf (lines cs) k ≤ i
      ∧ i ≤ startOf (lines cs) k + ((lines cs)[k]?.getD []).length := by
  induction cs generalizing i k with
  | nil =>
    obtain rfl : i = 0 := Nat.le_zero.mp hi
    obtain rfl : k = 0 := Nat.lt_one_iff.mp hk
    simp [lines, startOf_zero]
  | cons c cs ih =>
    cases i with
    | zero =>
      obtain ⟨l, ls, hl⟩ := List.exists_cons_of_ne_nil (lines_ne_nil (c :: cs))
      cases k <;> simp [hl, startOf_zero, startOf_cons]
    | succ i =>
      have hle : i ≤ cs.length := Nat.le_of_succ_le_succ hi
      by_cases hc : c = '\n'
      · -- the line feed ends line 0, and what follows counts on from line 1
        subst hc
        rw [lines_feed] at hk ⊢
        cases k with
        | zero => simp [startOf_zero]
        | succ k =>
          simp only [startOf_cons, List.take_succ_cons, List.count_cons_self,
            List.getElem?_cons_succ, List.length_nil, Nat.add_right_cancel_iff,
            ih (Nat.lt_of_succ_lt_succ hk) hle]
          omega
      · -- the character makes line 0 longer and moves the others on
        obtain ⟨l, ls, hl, hcons⟩ := exists_lines_cons hc cs
        rw [hcons] at hk ⊢
        rw [List.take_succ_cons, List.count_cons_of_ne hc, ih (hl ▸ hk) hle, hl]
        cases k with
        | zero => simp [startOf_zero]
        | succ k =>
          simp only [startOf_cons, List.length_cons, List.getElem?_cons_succ]
          omega

/-- A line owns the offsets from its start up to its line feed or the end of the text. -/
lemma lineAt_eq_iff (hk : k < (lines cs).length) (hi : i ≤ cs.length) :
    lineAt cs i = k + 1 ↔ startOf (lines cs) k ≤ i
      ∧ i ≤ startOf (lines cs) k + ((lines cs)[k]?.getD []).length := by
  rw [lineAt, Nat.add_right_cancel_iff, count_take_eq_iff hk hi]

lemma lineAt_le_length (cs : List Char) (i : Nat) : lineAt cs i ≤ (lines cs).length := by
  rw [length_lines, lineAt]
  exact Nat.succ_le_succ (List.Sublist.count_le _ (List.take_sublist i cs))

/-- A character that is no line feed lies before the end of its line. -/
lemma lt_end_of_char (hk : k < (lines cs).length) (hi : i < cs.length) (hx : cs[i]? ≠ some '\n')
    (hline : lineAt cs i = k + 1) :
    i < startOf (lines cs) k + ((lines cs)[k]?.getD []).length := by
  have hsame : lineAt cs (i + 1) = k + 1 := by rw [lineAt_succ hi, if_neg hx, hline]
  exact ((lineAt_eq_iff hk hi).mp hsame).2

/-- The columns of a line count from its start. -/
lemma colAt_eq (hk : k < (lines cs).length) (hi : i ≤ cs.length) (hline : lineAt cs i = k + 1) :
    startOf (lines cs) k + colAt cs i = i + 1 := by
  have hle := ((lineAt_eq_iff hk hi).mp hline).1
  generalize hs : startOf (lines cs) k = s at hle
  have hfirst : lineAt cs s = k + 1 :=
    (lineAt_eq_iff hk (Nat.le_trans hle hi)).mpr ⟨Nat.le_of_eq hs, hs ▸ Nat.le_add_right _ _⟩
  rw [colAt_of_lineAt_eq hle hi (hfirst.trans hline.symm)]
  suffices hcol : colAt cs s = 1 by omega
  cases s with
  | zero => simp [colAt]
  | succ s =>
    -- the offset before lies in another line, so that a line feed stands there
    have hlt : s < cs.length := Nat.lt_of_lt_of_le (Nat.lt_of_succ_le hle) hi
    have hfeed : cs[s]? = some '\n' := Classical.byContradiction fun hne => by
      rw [lineAt_succ hlt, if_neg hne, lineAt_eq_iff hk (Nat.le_of_lt hlt)] at hfirst
      omega
    rw [List.getElem?_eq_getElem hlt, Option.some.injEq] at hfeed
    rw [colAt, List.take_succ_eq_append_getElem hlt, hfeed]
    simp

end Text

end StpLang
