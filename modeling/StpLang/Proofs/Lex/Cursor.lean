import Mathlib.Tactic.Lemma
import StpLang.Cursor
import StpLang.Text.Line

/-!
Places in a text.

* `Cursor.forward_append` passes over a known piece of text.
* `Cursor.In` says that a cursor stands in a text and calls its place by the
  right line and column.
-/

namespace StpLang

namespace Cursor

variable {c d : Cursor} {w k : List Char} {n m : Nat}

/-! ### Moving ahead -/

lemma forward_zero (c : Cursor) : c.forward 0 = c := rfl

lemma forward_succ (n : Nat) (c : Cursor) : c.forward (n + 1) = c.step.forward n := rfl

lemma forward_add (n m : Nat) (c : Cursor) : c.forward (n + m) = (c.forward n).forward m := by
  induction n generalizing c with
  | zero => rw [Nat.zero_add]; rfl
  | succ n ih => rw [Nat.succ_add, forward_succ, ih, forward_succ]

lemma past_forward (h : c.rest = w ++ k) : (c.forward w.length).past = w.reverse ++ c.past := by
  induction w generalizing c with
  | nil => rfl
  | cons x w ih =>
    have hs : c.step.rest = w ++ k := by simp [h]
    have hp : c.step.past = x :: c.past := by
      unfold step
      rw [h]
      rfl
    rw [List.length_cons, forward_succ, ih hs, hp, List.reverse_cons, List.append_assoc]
    rfl

lemma pos_forward (h : n ≤ c.rest.length) : (c.forward n).pos = c.pos + n := by
  induction n generalizing c with
  | zero => rfl
  | succ n ih =>
    cases hr : c.rest with
    | nil => rw [hr] at h; simp at h
    | cons x xs =>
      have hs : c.step.rest = xs := by simp [hr]
      have hp : c.step.pos = c.pos + 1 := by simp only [step, hr]
      rw [hr, List.length_cons] at h
      rw [forward_succ, ih (by rw [hs]; omega), hp]
      omega

/-- The place behind a known piece of text. -/
lemma forward_append (h : c.rest = w ++ k) :
    (c.forward w.length).rest = k ∧ (c.forward w.length).past = w.reverse ++ c.past
      ∧ (c.forward w.length).pos = c.pos + w.length := by
  refine ⟨?_, past_forward h, pos_forward ?_⟩
  · rw [rest_forward, h, List.drop_left]
  · rw [h, List.length_append]
    omega

/-- The text of a known piece. -/
lemma textTo_forward (h : c.rest = w ++ k) : c.textTo (c.forward w.length) = String.ofList w := by
  rw [textTo, (forward_append h).2.2, Nat.add_sub_cancel_left, h, List.take_left]

lemma textTo_forward_take (h : n ≤ c.rest.length) :
    c.textTo (c.forward n) = String.ofList (c.rest.take n) := by
  rw [textTo, pos_forward h, Nat.add_sub_cancel_left]

/-- One place lies ahead of another, or is the same. -/
def Ahead (c d : Cursor) : Prop := ∃ n, n ≤ c.rest.length ∧ c.forward n = d

lemma ahead_forward (h : n ≤ c.rest.length) : Ahead c (c.forward n) := ⟨n, h, rfl⟩

lemma Ahead.trans {e : Cursor} (h : Ahead c d) (h' : Ahead d e) : Ahead c e := by
  obtain ⟨n, hn, rfl⟩ := h
  obtain ⟨m, hm, rfl⟩ := h'
  rw [rest_forward, List.length_drop] at hm
  exact ⟨n + m, by omega, forward_add n m c⟩

lemma Ahead.pos_le (h : Ahead c d) : c.pos ≤ d.pos := by
  obtain ⟨n, hn, rfl⟩ := h
  rw [pos_forward hn]
  omega

/-- The end of the text stays where it is. -/
lemma Ahead.length_eq (h : Ahead c d) : d.pos + d.rest.length = c.pos + c.rest.length := by
  obtain ⟨n, hn, rfl⟩ := h
  rw [pos_forward hn, rest_forward, List.length_drop]
  omega

/-- One place lies strictly ahead of another. -/
structure Before (c d : Cursor) : Prop where
  ahead : Ahead c d
  lt : c.pos < d.pos

lemma before_forward (hpos : 0 < n) (h : n ≤ c.rest.length) : Before c (c.forward n) := by
  refine ⟨ahead_forward h, ?_⟩
  rw [pos_forward h]
  omega

lemma Before.rest_lt (h : Before c d) : d.rest.length < c.rest.length := by
  have hlt := h.lt
  have hlen := h.ahead.length_eq
  omega

lemma Before.trans_ahead {e : Cursor} (h : Before c d) (h' : Ahead d e) : Before c e :=
  ⟨h.ahead.trans h', Nat.lt_of_lt_of_le h.lt h'.pos_le⟩

lemma Ahead.trans_before {e : Cursor} (h : Ahead c d) (h' : Before d e) : Before c e :=
  ⟨h.trans h'.ahead, Nat.lt_of_le_of_lt h.pos_le h'.lt⟩

lemma Before.trans {e : Cursor} (h : Before c d) (h' : Before d e) : Before c e :=
  h.trans_ahead h'.ahead

/-! ### Standing in a text -/

/-- The cursor stands in the text `cs` and calls its place by the right line and
column. -/
structure In (cs : List Char) (c : Cursor) : Prop where
  text : c.past.reverse ++ c.rest = cs
  pos : c.pos = c.past.length
  line : c.line = Text.lineAt cs c.pos
  col : c.col = Text.colAt cs c.pos

lemma In.step {cs : List Char} (h : In cs c) : In cs c.step := by
  unfold Cursor.step
  cases hr : c.rest with
  | nil => exact h
  | cons x xs =>
    have htext : (x :: c.past).reverse ++ xs = cs := by
      rw [← h.text, hr, List.reverse_cons, List.append_assoc]
      rfl
    have htake : cs.take (c.pos + 1) = (x :: c.past).reverse := by
      rw [← htext, h.pos, List.take_left' (by simp)]
    have htake' : cs.take c.pos = c.past.reverse := by
      rw [← h.text, h.pos, List.take_left' (by simp)]
    refine ⟨htext, by simp [h.pos], ?_, ?_⟩
    · simp only [Text.lineAt, htake, h.line, htake', List.count_reverse, List.count_cons]
      split <;> simp_all
    · simp only [Text.colAt, htake, h.col, htake', List.reverse_reverse, List.takeWhile_cons]
      by_cases hx : x = '\n'
      · simp [hx]
      · simp [hx]

lemma In.forward {cs : List Char} (h : In cs c) (n : Nat) : In cs (c.forward n) := by
  induction n generalizing c with
  | zero => exact h
  | succ n ih => exact ih h.step

/-- There is only one cursor at an offset. -/
lemma In.ext {cs : List Char} (hc : In cs c) (hd : In cs d) (h : c.pos = d.pos) : c = d := by
  have hpast : c.past = d.past := by
    have h1 := hc.text
    rw [← hd.text] at h1
    have := List.append_inj_left h1
      (by rw [List.length_reverse, List.length_reverse, ← hc.pos, ← hd.pos, h])
    exact List.reverse_inj.mp this
  have hrest : c.rest = d.rest := by
    have h1 := hc.text
    rw [← hd.text, hpast] at h1
    exact List.append_cancel_left h1
  have hline : c.line = d.line := by rw [hc.line, hd.line, h]
  have hcol : c.col = d.col := by rw [hc.col, hd.col, h]
  cases c
  cases d
  simp_all

lemma in_ofText (source : String) : In source.toList (ofText source) :=
  ⟨rfl, rfl, rfl, rfl⟩

/-- A cursor that is put at an offset by computing its line and column. -/
lemma in_atOffset (source : String) {k : Nat} (hk : k ≤ source.toList.length) :
    In source.toList
      (atOffset source k (Text.lineAt source.toList k) (Text.colAt source.toList k)) := by
  refine ⟨?_, ?_, rfl, rfl⟩
  · simp [atOffset]
  · simp only [atOffset, List.length_reverse, List.length_take]
    omega

/-- The length of the text is the offset of its end. -/
lemma In.length {cs : List Char} (h : In cs c) : c.pos + c.rest.length = cs.length := by
  rw [← h.text, List.length_append, List.length_reverse, h.pos]

end Cursor

end StpLang
