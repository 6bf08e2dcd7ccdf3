/-!
The white-space characters of Unicode.

Texts typed by a user and numbers in the environment may stand between white
space. `isSpace` is the full class of twenty-nine characters; `isNumberSpace`
leaves out the four information separators, which do not go around a number.
-/

namespace StpLang.Text

/-- White space in the sense of the Unicode character database, including the
control characters that separate fields, records and lines. -/
def isSpace (c : Char) : Bool :=
  let n := c.toNat
  (0x09 ≤ n && n ≤ 0x0d) || (0x1c ≤ n && n ≤ 0x20) || n == 0x85 || n == 0xa0
    || n == 0x1680 || (0x2000 ≤ n && n ≤ 0x200a) || n == 0x2028 || n == 0x2029
    || n == 0x202f || n == 0x205f || n == 0x3000

/-- White space that may stand around a number. -/
def isNumberSpace (c : Char) : Bool :=
  isSpace c && !(0x1c ≤ c.toNat && c.toNat ≤ 0x1f)

/-- Removes the characters at both ends that satisfy `p`. -/
def stripBy (p : Char → Bool) (cs : List Char) : List Char :=
  ((cs.dropWhile p).reverse.dropWhile p).reverse

/-- Removes the white space at both ends of a text. -/
def strip (s : String) : String := String.ofList (stripBy isSpace s.toList)

end StpLang.Text
