import StpLang.Token.Kind

/-!
The extent of lexemes.

Each function looks at the characters ahead and tells how many of them belong
to white space, to a word, to a number or to an escape; nothing here moves.

* `blankLength` measures white space and line continuations.
* `numberLength` measures digits with an optional fraction.
* `operator?` finds the longest operator.
* `Opening.of` classifies the beginning of a token.
-/

namespace StpLang.Scan

/-! ### White space -/

/-- A backslash before a line end continues the line. -/
def isContinuation : List Char → Bool
  | '\\' :: '\n' :: _ => true
  | '\\' :: '\r' :: '\n' :: _ => true
  | _ => false

/-- The number of characters of white space at the beginning: blanks, tabs,
carriage returns and line continuations, and also line ends when `lineEnds`
says that they are blank. -/
def blankLength (lineEnds : Bool) : List Char → Nat
  | ' ' :: cs => blankLength lineEnds cs + 1
  | '\t' :: cs => blankLength lineEnds cs + 1
  | '\r' :: cs => blankLength lineEnds cs + 1
  | '\n' :: cs => if lineEnds then blankLength lineEnds cs + 1 else 0
  | '\\' :: '\n' :: cs => blankLength lineEnds cs + 2
  | '\\' :: '\r' :: '\n' :: cs => blankLength lineEnds cs + 3
  | _ => 0

/-! ### Words and numbers -/

/-- The characters that start a word. -/
def startsWord (c : Char) : Bool := c.isAlpha || c = '_'

/-- The characters that continue a word. -/
def continuesWord (c : Char) : Bool := c.isAlphanum || c = '_'

/-- The number of word characters at the beginning. -/
def wordLength (cs : List Char) : Nat := (cs.takeWhile continuesWord).length

/-- The number of digits at the beginning. -/
def digitsLength (cs : List Char) : Nat := (cs.takeWhile Char.isDigit).length

/-- The extent of a dot and the digits behind it, zero if no digit follows. -/
def fractionLength : List Char → Nat
  | '.' :: cs => if digitsLength cs = 0 then 0 else 1 + digitsLength cs
  | _ => 0

/-- The extent of a number: digits, and a fraction if there is one. -/
def numberLength (cs : List Char) : Nat :=
  let n := digitsLength cs
  n + fractionLength (cs.drop n)

/-- The word `mod` is an operator only before white space. -/
def startsWithSpace : List Char → Bool
  | [] => false
  | c :: cs => c = ' ' || c = '\t' || c = '\r' || c = '\n' || isContinuation (c :: cs)

/-- The word `mod` is an operator only behind a blank or a tab; `past` holds
the nearest character first. -/
def endsWithBlank : List Char → Bool
  | ' ' :: _ => true
  | '\t' :: _ => true
  | _ => false

/-! ### Comments and operators -/

/-- The extent of the rest of a line. -/
def lineLength (cs : List Char) : Nat := (cs.takeWhile (· != '\n')).length

/-- The operator spelled by exactly the first `n` characters. -/
def operatorOfLength? (cs : List Char) (n : Nat) : Option (String × TokenKind) :=
  TokenKind.operators.find? fun o => o.1.toList == cs.take n

/-- The longest operator at the beginning. -/
def operator? (cs : List Char) : Option (String × TokenKind) :=
  [3, 2, 1].findSome? (operatorOfLength? cs)

/-! ### Strings -/

/-- The characters that stand for themselves in a string. -/
def isPlain (c : Char) : Bool := c != '"' && c != '\\'

/-- The letters and marks that a backslash may precede. -/
def isSimpleEscape (c : Char) : Bool := "rntbf\"\\".toList.contains c

/-- The octal digits. -/
def isOctalDigit (c : Char) : Bool := '0' ≤ c && c ≤ '7'

/-- The hexadecimal digits. -/
def isHexDigit (c : Char) : Bool :=
  c.isDigit || ('a' ≤ c && c ≤ 'f') || ('A' ≤ c && c ≤ 'F')

/-- The number of hexadecimal digits at the beginning, at most eight. -/
def hexLength (cs : List Char) : Nat := ((cs.take 8).takeWhile isHexDigit).length

/-- The number of octal digits at the beginning, at most three. -/
def octalLength (cs : List Char) : Nat := ((cs.take 3).takeWhile isOctalDigit).length

/-- How many of the available hexadecimal digits an escape takes. -/
def escapeDigits? (available : Nat) : Option Nat :=
  [8, 4, 2].find? (· ≤ available)

/-! ### Beginnings -/

/-- What the characters ahead begin with. -/
inductive Opening where
  | nothing
  | lineEnd
  | comment
  | snippetClose
  | word
  | digit
  | quote
  | symbol (c : Char)
deriving DecidableEq, Repr

/-- Classifies the characters ahead. -/
def Opening.of : List Char → Opening
  | [] => nothing
  | '\n' :: _ => lineEnd
  | '#' :: _ => comment
  | '\\' :: '}' :: _ => snippetClose
  | '"' :: _ => quote
  | c :: _ => if startsWord c then word else if c.isDigit then digit else symbol c

end StpLang.Scan
