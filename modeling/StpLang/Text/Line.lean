/-!
Texts as lists of characters: pieces, lines, and the place of an offset.

Every offset in this library counts characters. A line ends with a line feed
and nothing else.

* `slice` is the piece between two offsets.
* `lines` cuts a text at its line feeds.
* `lineAt` and `colAt` are the line and column of an offset.
* `unifyNewlines` writes every line end as one line feed.
-/

namespace StpLang.Text

/-- The characters of `cs` from offset `start` up to offset `stop`. -/
def slice (cs : List Char) (start stop : Nat) : List Char :=
  (cs.take stop).drop start

/-- The lines of a text, without their line feeds; never an empty list. -/
def lines : List Char → List (List Char)
  | [] => [[]]
  | c :: cs =>
    if c = '\n' then [] :: lines cs
    else match lines cs with
      | [] => [[c]]
      | l :: ls => (c :: l) :: ls

/-- The line of offset `k`, counted from 1. -/
def lineAt (cs : List Char) (k : Nat) : Nat :=
  (cs.take k).count '\n' + 1

/-- The column of offset `k`, counted from 1. -/
def colAt (cs : List Char) (k : Nat) : Nat :=
  ((cs.take k).reverse.takeWhile (· != '\n')).length + 1

/-- Writes `\r\n` and a lone `\r` as `\n`. -/
def unifyNewlines : List Char → List Char
  | '\r' :: '\n' :: cs => '\n' :: unifyNewlines cs
  | '\r' :: cs => '\n' :: unifyNewlines cs
  | c :: cs => c :: unifyNewlines cs
  | [] => []

/-- The number of bytes that `cs` takes in UTF-8. -/
def byteSize (cs : List Char) : Nat :=
  cs.foldl (fun n c => n + c.utf8Size) 0

/-- The text without the characters at its end that satisfy `p`. -/
def trimEnd (p : Char → Bool) (cs : List Char) : List Char :=
  (cs.reverse.dropWhile p).reverse

/-- A run of `n` blanks. -/
def blanks (n : Nat) : String := String.ofList (List.replicate n ' ')

/-- Concatenates the pieces with `separator` between neighbours. -/
def join (separator : String) : List String → String
  | [] => ""
  | [s] => s
  | s :: ss => s ++ separator ++ join separator ss

end StpLang.Text
