import StpLang.Error

/-!
A place in a text.

A `Cursor` splits a text into what lies behind it and what lies ahead, and
knows the offset, the line and the column of the place between them. Reading a
line feed starts a new line.

* `Cursor.step` reads one character and stands still at the end; `forward`
  reads several.
* `Cursor.next` reads one character and fails at the end.
* `Cursor.peek?` looks ahead or back without moving.
* `Cursor.textTo` is the text between two places.
-/

namespace StpLang

/-- A place in a text. -/
structure Cursor where
  /-- The characters behind the place, the nearest first. -/
  past : List Char
  /-- The characters ahead. -/
  rest : List Char
  /-- The offset of the place. -/
  pos : Nat
  line : Nat
  col : Nat
deriving DecidableEq, Repr

namespace Cursor

/-- The place at offset `pos` of a text, called line `line` and column `col`.
An offset behind the end has nothing ahead. -/
def atOffset (source : String) (pos line col : Nat) : Cursor :=
  ⟨(source.toList.take pos).reverse, source.toList.drop pos, pos, line, col⟩

/-- The beginning of a text. -/
def ofText (source : String) : Cursor := .atOffset source 0 1 1

/-- Nothing is ahead. -/
def atEnd (c : Cursor) : Bool := c.rest.isEmpty

/-- The character ahead. -/
def current? (c : Cursor) : Option Char := c.rest.head?

/-- The range of `length` characters from here on. -/
def here (c : Cursor) (length : Nat := 0) : Span :=
  .of c.pos (c.pos + length) c.line c.col

/-- The character `offset` places ahead, or behind for a negative offset. -/
def peek? (c : Cursor) (offset : Int) : Option Char :=
  let index := c.pos + offset
  if index < 0 then none
  else (c.past.reverse ++ c.rest)[index.toNat]?

/-- The place behind the next character; the end stays the end. -/
def step (c : Cursor) : Cursor :=
  match c.rest with
  | [] => c
  | x :: xs =>
    { past := x :: c.past
      rest := xs
      pos := c.pos + 1
      line := if x = '\n' then c.line + 1 else c.line
      col := if x = '\n' then 1 else c.col + 1 }

/-- The place `n` characters ahead. -/
def forward : Nat → Cursor → Cursor
  | 0, c => c
  | n + 1, c => forward n c.step

/-- The next character and the place behind it. -/
def next (c : Cursor) : Except Error (Char × Cursor) :=
  match c.rest with
  | [] => .error ⟨.readPastEnd, c.here⟩
  | x :: _ => .ok (x, c.step)

/-- The text from one place to a later one. -/
def textTo (c d : Cursor) : String := String.ofList (c.rest.take (d.pos - c.pos))

/-! ### Moving ahead -/

@[simp] theorem rest_step (c : Cursor) : c.step.rest = c.rest.tail := by
  unfold step
  split <;> simp_all

/-- Moving ahead drops characters. -/
@[simp] theorem rest_forward (n : Nat) (c : Cursor) :
    (c.forward n).rest = c.rest.drop n := by
  induction n generalizing c with
  | zero => rfl
  | succ n ih => rw [forward, ih, rest_step, List.drop_tail]

end Cursor

end StpLang
