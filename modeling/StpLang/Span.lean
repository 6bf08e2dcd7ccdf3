/-!
Source ranges.

A `Span` is a half-open range of character offsets together with the line and
the column of its first character. A range never ends before it starts: this
is a field of the type, and `Span.of` reaches it by moving a stop that lies too
far to the left.

* `Span.of` builds a span from any four numbers.
* `Span.describe` is its printed form.
-/

namespace StpLang

/-- A half-open range of offsets with the line and column of its start. -/
structure Span where
  /-- The offset of the first character. -/
  start : Nat
  /-- The offset one past the last character. -/
  stop : Nat
  /-- The line of the first character, counted from 1. -/
  line : Nat
  /-- The column of the first character, counted from 1. -/
  col : Nat
  /-- A range does not end before it starts. -/
  start_le_stop : start ≤ stop
deriving DecidableEq, Repr

namespace Span

/-- The span from `start` to `stop`, empty when `stop` lies to the left. -/
def of (start stop line col : Nat) : Span :=
  ⟨start, max stop start, line, col, Nat.le_max_right stop start⟩

/-- The empty span at the very beginning of a text. -/
def origin : Span := of 0 0 1 1

/-- The printed form of a span. -/
def describe (s : Span) : String :=
  s!"Span({s.start}, {s.stop}, line={s.line}, col={s.col})"

@[simp] theorem of_start (a b l c : Nat) : (of a b l c).start = a := rfl

@[simp] theorem of_stop (a b l c : Nat) : (of a b l c).stop = max b a := rfl

@[simp] theorem of_line (a b l c : Nat) : (of a b l c).line = l := rfl

@[simp] theorem of_col (a b l c : Nat) : (of a b l c).col = c := rfl

end Span

end StpLang
