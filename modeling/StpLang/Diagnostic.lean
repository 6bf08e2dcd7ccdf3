import StpLang.Error
import StpLang.Text.Line

/-!
Showing an error under the source.

A diagnostic opens with the category and the wording of the error and with the
place where it lies. Below, each line of the source that the range reaches is
followed by a line of tildes under the range.

* `Error.format` is the whole diagnostic.
* `underline` is the line of tildes below one line of the source.
* `Span.byteRange` counts the range in bytes.
-/

namespace StpLang

/-- The range in bytes of UTF-8 instead of characters. -/
def Span.byteRange (s : Span) (source : String) : Nat × Nat :=
  let before := Text.byteSize (source.toList.take s.start)
  (before, before + Text.byteSize (Text.slice source.toList s.start s.stop))

namespace Diagnostic

/-- The tildes under a line of the source that starts at offset `lineStart` and
has `length` characters. At least one tilde is written, also under an empty
range or behind the end of the line. -/
def underline (s : Span) (lineStart length : Nat) : String :=
  let first := max s.start lineStart - lineStart
  let last := min (max s.stop (s.start + 1)) (lineStart + length) - lineStart
  String.ofList (List.replicate first ' ' ++ List.replicate (max (last - first) 1) '~')

/-- A line number, right-aligned. -/
def alignRight (width n : Nat) : String :=
  Text.blanks (width - (toString n).length) ++ toString n

/-- The text of line `n`. Line 0, which no text has, is taken for the last
line. -/
def textOfLine (lines : List (List Char)) (n : Nat) : List Char :=
  (lines[if n = 0 then lines.length - 1 else n - 1]?).getD []

/-- The offset of the first character of line `n`. -/
def offsetOfLine (lines : List (List Char)) (n : Nat) : Nat :=
  (lines.take (if n = 0 then lines.length - 1 else n - 1)).foldl
    (fun offset text => offset + text.length + 1) 0

/-- The lines of the source from line `n` on, `count` of them, each with its
tildes; `offset` is where line `n` starts. -/
def body (s : Span) (lines : List (List Char)) (width : Nat) :
    (count n offset : Nat) → List String
  | 0, _, _ => []
  | count + 1, n, offset =>
    let text := textOfLine lines n
    (alignRight width n ++ "  | " ++ String.ofList text)
      :: (Text.blanks width ++ "  | " ++ underline s offset text.length)
      :: body s lines width count (n + 1) (offset + text.length + 1)

end Diagnostic

open Diagnostic in
/-- The error shown under the lines of `source` that it concerns. -/
def Error.format (e : Error) (source filename : String) : String :=
  let cs := source.toList
  let lines := Text.lines cs
  let s := e.span
  let lastLine := s.line + (Text.slice cs s.start s.stop).count '\n'
  let width := (toString lastLine).length
  let count := min lastLine lines.length + 1 - s.line
  Text.join "\n"
    ((e.category.label ++ ": " ++ e.message)
      :: (Text.blanks width ++ "--> " ++ filename ++ s!":{s.line}:{s.col}")
      :: body s lines width count s.line (offsetOfLine lines s.line))

end StpLang
