import StpLang.Text.Printable

/-!
Quoted texts.

Messages quote a text between apostrophes, or between double quotes when it
holds an apostrophe and no double quote. A backslash and the quote in use are
escaped, and every character that is not printable is written by its number.

* `quoteMark` chooses the quote.
* `quoted` is the whole form.
-/

namespace StpLang.Text

/-- The last `width` hexadecimal digits of `n`, in lower case. -/
def hex (width n : Nat) : List Char :=
  (List.range width).reverse.map fun k => Nat.digitChar ((n >>> (4 * k)) % 16)

/-- The escape that stands for an unprintable character. -/
def escapeNumber (n : Nat) : List Char :=
  if n < 0x100 then '\\' :: 'x' :: hex 2 n
  else if n < 0x10000 then '\\' :: 'u' :: hex 4 n
  else '\\' :: 'U' :: hex 8 n

/-- One character of a text quoted by `mark`. -/
def quoteChar (mark c : Char) : List Char :=
  if c = mark || c = '\\' then ['\\', c]
  else if c = '\n' then ['\\', 'n']
  else if c = '\r' then ['\\', 'r']
  else if c = '\t' then ['\\', 't']
  else if isPrintable c then [c]
  else escapeNumber c.toNat

/-- Double quotes serve a text that holds an apostrophe and none of them. -/
def quoteMark (cs : List Char) : Char :=
  if cs.contains '\'' && !cs.contains '"' then '"' else '\''

/-- The quoted form of a text. -/
def quoted (s : String) : String :=
  let mark := quoteMark s.toList
  String.ofList (mark :: s.toList.flatMap (quoteChar mark) ++ [mark])

/-- The quoted form of one character. -/
def quotedChar (c : Char) : String := quoted c.toString

end StpLang.Text
