import StpLang.Proofs.Diagnostics
import StpLang.Proofs.Lines

/-!
What a diagnostic shows.

Below its two head lines a diagnostic shows lines of the source, each above a line of
tildes. It should show the lines that the range of the error reaches, and mark only what
lies in that range. It does so unless the range ends right behind a line feed; then the next
line, which the range does not reach, is shown as well, with a tilde under its first column.

* `Underlined` says what a diagnostic should show of a range.
* `marked_marks` deals with the tildes under one line, and `body_eq` with all lines.
* `reached_iff` finds the lines that the range reaches.
* `format_underlines` is the result; `format_next_line` is a text where a line too many is
  shown.
-/

namespace StpLang

open Diagnostic

/-! ### What should be shown -/

/-- The range shows an offset; an empty range shows the one at which it lies. -/
def Span.Shows (r : Span) (i : Nat) : Prop := r.start ≤ i ∧ i < max r.stop (r.start + 1)

/-- The range shows an offset of line `n`. -/
def Span.Reaches (cs : List Char) (r : Span) (n : Nat) : Prop :=
  ∃ i ≤ cs.length, r.Shows i ∧ Text.lineAt cs i = n

/-- The range ends right behind a line feed. -/
def Span.EndsLine (cs : List Char) (r : Span) : Prop :=
  r.start < r.stop ∧ cs[r.stop - 1]? = some '\n'

/-- The marks under line `n` are blanks and tildes. A tilde stands only under a column whose
offset the range shows, and under each such column where there is a character. -/
structure Span.Marked (cs : List Char) (r : Span) (n : Nat) (marks : List Char) : Prop where
  plain : ∀ x ∈ marks, x = ' ' ∨ x = '~'
  sound : ∀ k, marks[k]? = some '~' →
    ∃ i ≤ cs.length, r.Shows i ∧ Text.lineAt cs i = n ∧ Text.colAt cs i = k + 1
  complete : ∀ i < cs.length, cs[i]? ≠ some '\n' → r.Shows i → Text.lineAt cs i = n →
    marks[Text.colAt cs i - 1]? = some '~'

/-- The row that shows line `n` of the source, behind a number of some width. -/
def textRow (cs : List Char) (width n : Nat) : String :=
  alignRight width n ++ "  | " ++ String.ofList (textOfLine (Text.lines cs) n)

/-- The row of marks below a row of text. -/
def markRow (width : Nat) (marks : List Char) : String :=
  Text.blanks width ++ "  | " ++ String.ofList marks

/-- The rows show the lines that the range reaches, one after the other, each with its
marks below. -/
structure Underlined (cs : List Char) (r : Span) (width : Nat) (rows : List String) : Prop where
  shown : ∃ (ns : List Nat) (marks : Nat → List Char), ns.Pairwise (· < ·)
    ∧ (∀ n, n ∈ ns ↔ r.Reaches cs n) ∧ (∀ n ∈ ns, r.Marked cs n (marks n))
    ∧ rows = ns.flatMap fun n => [textRow cs width n, markRow width (marks n)]

/-! ### Lines in reach -/

section

variable {cs : List Char} {r : Span} {n : Nat}

/-- The last offset that a range shows. -/
def Span.last (r : Span) : Nat := max r.stop (r.start + 1) - 1

lemma Span.In.last_le (h : r.In cs) : r.start ≤ r.last ∧ r.last ≤ cs.length := by
  have horder := h.order
  have hinside := h.inside
  unfold Span.last
  omega

lemma Span.shows_iff {i : Nat} : r.Shows i ↔ r.start ≤ i ∧ i ≤ r.last := by
  unfold Span.Shows Span.last
  omega

/-- The lines that a range reaches are those between its ends. -/
lemma reached_iff (h : r.In cs) :
    r.Reaches cs n ↔ Text.lineAt cs r.start ≤ n ∧ n ≤ Text.lineAt cs r.last := by
  obtain ⟨hstart, hlast⟩ := h.last_le
  constructor
  · rintro ⟨i, -, hi, rfl⟩
    rw [Span.shows_iff] at hi
    exact ⟨Text.lineAt_mono cs hi.1, Text.lineAt_mono cs hi.2⟩
  · intro ⟨hle, hge⟩
    obtain ⟨i, hi, hi', hline⟩ := Text.exists_lineAt_eq hstart hle hge
    exact ⟨i, Nat.le_trans hi' hlast, Span.shows_iff.mpr ⟨hi, hi'⟩, hline⟩

/-- The line behind the range is that of its last offset, unless a line feed lies between. -/
lemma lineAt_stop (h : r.In cs) :
    (¬r.EndsLine cs → Text.lineAt cs r.stop = Text.lineAt cs r.last)
      ∧ (r.EndsLine cs →
        r.stop = r.last + 1 ∧ Text.lineAt cs r.stop = Text.lineAt cs r.last + 1) := by
  have horder := h.order
  have hinside := h.inside
  have hlast : r.last = max r.stop (r.start + 1) - 1 := rfl
  constructor
  · intro hends
    by_cases hlt : r.start < r.stop
    · have hstop : r.stop = r.last + 1 := by omega
      rw [hstop, Text.lineAt_succ (by omega), if_neg]
      intro hfeed
      exact hends ⟨hlt, by rw [hstop]; exact hfeed⟩
    · have hstop : r.stop = r.last := by omega
      rw [hstop]
  · rintro ⟨hlt, hfeed⟩
    have hstop : r.stop = r.last + 1 := by omega
    refine ⟨hstop, ?_⟩
    rw [hstop] at hfeed ⊢
    rw [Text.lineAt_succ (by omega)]
    exact if_pos hfeed

/-! ### Marks -/

/-- The marks under a line that starts at some offset and has some length. -/
def Diagnostic.marks (r : Span) (lineStart length : Nat) : List Char :=
  let first := max r.start lineStart - lineStart
  let last := min (max r.stop (r.start + 1)) (lineStart + length) - lineStart
  List.replicate first ' ' ++ List.replicate (max (last - first) 1) '~'

lemma underline_eq (r : Span) (lineStart length : Nat) :
    underline r lineStart length = String.ofList (marks r lineStart length) := rfl

/-- The tildes reach from the start of the range or of the line to the end of the range or
of the line, and there is at least one. -/
lemma marks_eq_tilde_iff {a l k : Nat} :
    (marks r a l)[k]? = some '~' ↔ max r.start a ≤ a + k
      ∧ (a + k < min (r.last + 1) (a + l) ∨ a + k = max r.start a) := by
  have hlast : max r.stop (r.start + 1) = r.last + 1 := by
    unfold Span.last
    omega
  unfold marks
  simp only [hlast, List.getElem?_append, List.length_replicate, List.getElem?_replicate]
  split
  · constructor
    · exact fun h => absurd (Option.some.inj h) (by decide)
    · omega
  · rw [Option.ite_none_right_eq_some, and_iff_left rfl]
    omega

/-- Under a line that the range reaches the marks are as they should be. -/
lemma marked_marks {k : Nat} (h : r.In cs) (hk : k < (Text.lines cs).length)
    (hreach : r.Reaches cs (k + 1)) :
    r.Marked cs (k + 1) (marks r (Text.startOf (Text.lines cs) k)
      ((Text.lines cs)[k]?.getD []).length) := by
  obtain ⟨i, hi, hshown, hline⟩ := hreach
  rw [Span.shows_iff] at hshown
  obtain ⟨-, hlast⟩ := h.last_le
  obtain ⟨hstart, hend⟩ := (Text.lineAt_eq_iff hk hi).mp hline
  refine ⟨fun x hx => ?_, fun j hj => ?_, fun j hj hx hs hl => ?_⟩
  · rcases List.mem_append.mp hx with hx | hx
    · exact .inl (List.eq_of_mem_replicate hx)
    · exact .inr (List.eq_of_mem_replicate hx)
  · -- the offset above the tilde lies in the range and in the line
    rw [marks_eq_tilde_iff] at hj
    have hle : Text.startOf (Text.lines cs) k + j ≤ cs.length := by omega
    have hl : Text.lineAt cs (Text.startOf (Text.lines cs) k + j) = k + 1 :=
      (Text.lineAt_eq_iff hk hle).mpr (by omega)
    have hcol := Text.colAt_eq hk hle hl
    exact ⟨_, hle, Span.shows_iff.mpr (by omega), hl, by omega⟩
  · rw [Span.shows_iff] at hs
    have hlt := Text.lt_end_of_char hk hj hx hl
    have hcol := Text.colAt_eq hk (Nat.le_of_lt hj) hl
    rw [marks_eq_tilde_iff]
    omega

/-! ### Rows -/

/-- The rows below the head lines are those of successive lines. -/
lemma body_eq (cs : List Char) (r : Span) (width count k : Nat)
    (h : k + count ≤ (Text.lines cs).length) :
    body r (Text.lines cs) width count (k + 1) (Text.startOf (Text.lines cs) k)
      = (List.range' (k + 1) count).flatMap fun n => [textRow cs width n,
        markRow width (marks r (Text.startOf (Text.lines cs) (n - 1))
          ((Text.lines cs)[n - 1]?.getD []).length)] := by
  induction count generalizing k with
  | zero => rfl
  | succ count ih =>
    have hnext := Text.startOf_succ (show k < (Text.lines cs).length by omega)
    rw [List.range'_succ, List.flatMap_cons, ← ih (k + 1) (by omega), hnext, body,
      underline_eq]
    rfl

/-- The last line and its marks come last. -/
lemma body_succ (cs : List Char) (r : Span) (width count k : Nat)
    (h : k + (count + 1) ≤ (Text.lines cs).length) :
    body r (Text.lines cs) width (count + 1) (k + 1) (Text.startOf (Text.lines cs) k)
      = body r (Text.lines cs) width count (k + 1) (Text.startOf (Text.lines cs) k)
        ++ [textRow cs width (k + count + 1),
          markRow width (marks r (Text.startOf (Text.lines cs) (k + count))
            ((Text.lines cs)[k + count]?.getD []).length)] := by
  have hlast : k + 1 + 1 * count = k + count + 1 := by omega
  rw [body_eq cs r width (count + 1) k h, body_eq cs r width count k (by omega),
    List.range'_concat, List.flatMap_append, List.flatMap_singleton, hlast, Nat.add_sub_cancel]

/-- The lines up to the last one that the range reaches, each with its marks. -/
lemma underlined_body (h : r.In cs) (width : Nat) :
    Underlined cs r width (body r (Text.lines cs) width
      (Text.lineAt cs r.last + 1 - Text.lineAt cs r.start) (Text.lineAt cs r.start)
      (Text.startOf (Text.lines cs) (Text.lineAt cs r.start - 1))) := by
  have hlast := Text.lineAt_le_length cs r.last
  have hle := Text.lineAt_mono cs h.last_le.1
  obtain ⟨k, hk⟩ : ∃ k, Text.lineAt cs r.start = k + 1 := ⟨_, rfl⟩
  have hmem (n : Nat) : n ∈ List.range' (k + 1) (Text.lineAt cs r.last + 1 - (k + 1))
      ↔ r.Reaches cs n := by
    rw [List.mem_range'_1, reached_iff h, hk]
    omega
  rw [hk, Nat.add_sub_cancel, body_eq cs r width _ k (by omega)]
  refine ⟨_, fun n => marks r (Text.startOf (Text.lines cs) (n - 1))
    ((Text.lines cs)[n - 1]?.getD []).length, List.pairwise_lt_range', hmem, fun n hn => ?_, rfl⟩
  obtain ⟨j, rfl⟩ : ∃ j, n = j + 1 := by
    rw [List.mem_range'_1] at hn
    exact ⟨n - 1, by omega⟩
  refine marked_marks h ?_ ((hmem _).mp hn)
  rw [List.mem_range'_1] at hn
  omega

/-- Behind a line feed the next line is marked once, at its first column. -/
lemma marks_next (h : r.In cs) (hends : r.EndsLine cs) :
    marks r (Text.startOf (Text.lines cs) (Text.lineAt cs r.stop - 1))
      ((Text.lines cs)[Text.lineAt cs r.stop - 1]?.getD []).length = ['~'] := by
  obtain ⟨hstop, hline⟩ := (lineAt_stop h).2 hends
  have hlength := Text.lineAt_le_length cs r.stop
  have hinside := h.inside
  obtain ⟨k, hk⟩ : ∃ k, Text.lineAt cs r.stop = k + 1 := ⟨_, rfl⟩
  have hat := (Text.lineAt_eq_iff (by omega) hinside).mp hk
  have hbefore : Text.lineAt cs r.last ≠ k + 1 := by omega
  rw [ne_eq, Text.lineAt_eq_iff (by omega) h.last_le.2] at hbefore
  have hstart : Text.startOf (Text.lines cs) k = r.stop := by omega
  have hlt := hends.1
  rw [hk, Nat.add_sub_cancel, hstart, marks, Nat.max_eq_right h.order, Nat.sub_self,
    Nat.max_eq_left hlt, Nat.min_eq_left (Nat.le_add_right _ _), Nat.sub_self]
  rfl

/-- Rows that underline a range are as many as the lines that it reaches, twice. -/
lemma Underlined.length (h : r.In cs) {width : Nat} {rows : List String}
    (hu : Underlined cs r width rows) :
    rows.length = 2 * (Text.lineAt cs r.last + 1 - Text.lineAt cs r.start) := by
  obtain ⟨ns, marks, hsorted, hmem, -, rfl⟩ := hu.shown
  have hperm : ns.Perm (List.range' (Text.lineAt cs r.start)
      (Text.lineAt cs r.last + 1 - Text.lineAt cs r.start)) := by
    refine (List.perm_ext_iff_of_nodup (hsorted.imp Nat.ne_of_lt) List.nodup_range').mpr
      fun n => ?_
    rw [hmem, reached_iff h, List.mem_range'_1]
    have := Text.lineAt_mono cs h.last_le.1
    omega
  have hlength := hperm.length_eq
  rw [List.length_range'] at hlength
  rw [← hlength]
  simp [List.length_flatMap, List.map_const', Nat.mul_comm]

end

/-! ### Diagnostics -/

namespace Error

/-- The line at which a diagnostic stops. -/
def lastLine (e : Error) (source : String) : Nat :=
  e.span.line + (Text.slice source.toList e.span.start e.span.stop).count '\n'

/-- The width of the line numbers. -/
def numberWidth (e : Error) (source : String) : Nat := (toString (e.lastLine source)).length

/-- The two lines at the head of a diagnostic. -/
def head (e : Error) (source filename : String) : List String :=
  [e.category.label ++ ": " ++ e.message,
    Text.blanks (e.numberWidth source) ++ "--> " ++ filename
      ++ s!":{e.span.line}:{e.span.col}"]

/-- The lines of the source below the head, and their marks. -/
def rows (e : Error) (source : String) : List String :=
  let lines := Text.lines source.toList
  body e.span lines (e.numberWidth source)
    (min (e.lastLine source) lines.length + 1 - e.span.line) e.span.line
    (offsetOfLine lines e.span.line)

end Error

/-- The rows of an error that points into the source go up to the line of its end. -/
lemma rows_eq {source : String} {e : Error} (h : e.span.In source.toList) :
    e.rows source = body e.span (Text.lines source.toList) (e.numberWidth source)
      (Text.lineAt source.toList e.span.stop + 1 - Text.lineAt source.toList e.span.start)
      (Text.lineAt source.toList e.span.start) (Text.startOf (Text.lines source.toList)
        (Text.lineAt source.toList e.span.start - 1)) := by
  have hlast : e.lastLine source = Text.lineAt source.toList e.span.stop := by
    rw [Error.lastLine, h.line, Text.lineAt_eq_add _ h.order]
  rw [Error.rows, hlast, Nat.min_eq_left (Text.lineAt_le_length _ _), h.line]
  rfl

/-- Behind a line feed the rows show the next line as well. -/
lemma rows_of_endsLine {source : String} {e : Error} (h : e.span.In source.toList)
    (hends : e.span.EndsLine source.toList) :
    e.rows source = body e.span (Text.lines source.toList) (e.numberWidth source)
        (Text.lineAt source.toList e.span.last + 1 - Text.lineAt source.toList e.span.start)
        (Text.lineAt source.toList e.span.start) (Text.startOf (Text.lines source.toList)
          (Text.lineAt source.toList e.span.start - 1))
      ++ [textRow source.toList (e.numberWidth source)
          (Text.lineAt source.toList e.span.stop),
        markRow (e.numberWidth source) ['~']] := by
  have hmarks := marks_next h hends
  have hstop := ((lineAt_stop h).2 hends).2
  have hlength := Text.lineAt_le_length source.toList e.span.stop
  have hle := Text.lineAt_mono source.toList h.last_le.1
  obtain ⟨k, hk⟩ : ∃ k, Text.lineAt source.toList e.span.start = k + 1 := ⟨_, rfl⟩
  obtain ⟨count, hcount⟩ : ∃ count, Text.lineAt source.toList e.span.last = k + count :=
    ⟨_, (Nat.add_sub_cancel' (by omega)).symm⟩
  rw [hcount] at hstop
  rw [hstop, Nat.add_sub_cancel] at hmarks
  have hshown : k + count + 1 - (k + 1) = count := by omega
  have hall : k + count + 1 + 1 - (k + 1) = count + 1 := by omega
  rw [rows_eq h, hk, hstop, hcount, hshown, hall, Nat.add_sub_cancel,
    body_succ _ _ _ _ _ (by omega), hmarks]

/-- **A diagnostic underlines its range, unless that ends behind a line feed.** Below the two
head lines the lines that the range reaches are shown, each above its marks, and a tilde
stands under each character of the range and under nothing outside it. This is so exactly
when the range does not end right behind a line feed. If it does, the line behind the range
follows, with one tilde under its first column. -/
theorem format_underlines {source : String} {strict : Bool} {limit : Int} {e : Error}
    (h : e ∈ diagnostics source strict limit) (filename : String) :
    e.format source filename = Text.join "\n" (e.head source filename ++ e.rows source)
      ∧ (Underlined source.toList e.span (e.numberWidth source) (e.rows source)
        ↔ ¬e.span.EndsLine source.toList)
      ∧ (e.span.EndsLine source.toList → ∃ shown,
        Underlined source.toList e.span (e.numberWidth source) shown
          ∧ e.rows source = shown ++
            [textRow source.toList (e.numberWidth source)
                (Text.lineAt source.toList e.span.stop),
              markRow (e.numberWidth source) ['~']]) := by
  have hspan : e.span.In source.toList := (points_of_mem h).span
  have hshown := underlined_body hspan (e.numberWidth source)
  refine ⟨rfl, ⟨fun hu hends => ?_, fun hends => ?_⟩, fun hends => ?_⟩
  · -- the line behind the range makes two rows too many
    have hmany := hu.length hspan
    rw [rows_of_endsLine hspan hends, List.length_append, hshown.length hspan] at hmany
    simp at hmany
  · rw [rows_eq hspan, (lineAt_stop hspan).1 hends]
    exact hshown
  · exact ⟨_, hshown, rows_of_endsLine hspan hends⟩

/-- A string over two lines in a place where a name is expected. -/
theorem format_underlines_string :
    (⟨.expected [.identifier] (.text "\"a\nb\""), .of 4 9 1 5⟩ : Error)
        ∈ diagnostics "sym \"a\nb\"" true 5
      ∧ Underlined "sym \"a\nb\"".toList (.of 4 9 1 5) 1
        ["1  | sym \"a", "   |     ~~", "2  | b\"", "   | ~~"] := by
  have h : (⟨.expected [.identifier] (.text "\"a\nb\""), .of 4 9 1 5⟩ : Error)
      ∈ diagnostics "sym \"a\nb\"" true 5 := by decide +kernel
  have hends : ¬(Span.of 4 9 1 5).EndsLine "sym \"a\nb\"".toList := by
    rintro ⟨-, hfeed⟩
    revert hfeed
    decide
  refine ⟨h, ?_⟩
  have hrows : (Error.mk (.expected [.identifier] (.text "\"a\nb\"")) (.of 4 9 1 5)).rows
      "sym \"a\nb\"" = ["1  | sym \"a", "   |     ~~", "2  | b\"", "   | ~~"] := by decide +kernel
  have hwidth : (Error.mk (.expected [.identifier] (.text "\"a\nb\"")) (.of 4 9 1 5)).numberWidth
      "sym \"a\nb\"" = 1 := by decide +kernel
  have hunder := (format_underlines h "<string>").2.1.mpr hends
  rwa [hrows, hwidth] at hunder

/-- An assignment that breaks off at the end of its line: the empty line behind it is shown,
with a tilde, though the range does not reach it. -/
theorem format_next_line :
    (⟨.expectedExpression .endOfLine, .of 3 4 1 4⟩ : Error) ∈ diagnostics "x =\n" true 5
      ∧ (Error.mk (.expectedExpression .endOfLine) (.of 3 4 1 4)).format "x =\n" "<string>"
        = Text.join "\n" ["syntax error: Expected expression, got end of line",
          " --> <string>:1:4", "1  | x =", "   |    ~", "2  | ", "   | ~"]
      ∧ ¬(Span.of 3 4 1 4).Reaches "x =\n".toList 2 := by
  refine ⟨by decide +kernel, by decide +kernel, ?_⟩
  rintro ⟨i, -, ⟨hstart, hstop⟩, hline⟩
  have hi : i = 3 := by
    change 3 ≤ i at hstart
    change i < max (max 4 3) (3 + 1) at hstop
    omega
  subst hi
  revert hline
  decide

end StpLang
