import StpLang.Text.Quoted

/-!
JSON documents and their text.

Characters outside ASCII stand for themselves. A document is written on one
line, or with every item on a line of its own and a given indentation per
level.

* `Json.chars` puts the text of a document before a given rest, and
  `Json.write` is the text of a whole document.
* `Json.textChars` is the text of a string.
-/

namespace StpLang

/-- A JSON document whose numbers are natural numbers. The members of an
object are in order. -/
inductive Json where
  | null
  | number (n : Nat)
  | text (s : String)
  | list (items : List Json)
  | object (members : List (String × Json))

namespace Json

/-- One character of a string. -/
def textChar (c : Char) : List Char :=
  if c = '"' then ['\\', '"']
  else if c = '\\' then ['\\', '\\']
  else if c = '\n' then ['\\', 'n']
  else if c = '\r' then ['\\', 'r']
  else if c = '\t' then ['\\', 't']
  else if c.toNat = 0x0c then ['\\', 'f']
  else if c.toNat = 0x08 then ['\\', 'b']
  else if c.toNat < 0x20 then '\\' :: 'u' :: Text.hex 4 c.toNat
  else [c]

/-- A string with its quotes. -/
def textChars (s : String) : List Char := '"' :: s.toList.flatMap textChar ++ ['"']

/-- What separates an item from its surroundings: nothing on one line, else a
line end and the indentation of the level. -/
def gap (indent : Option Nat) (level : Nat) : List Char :=
  match indent with
  | none => []
  | some n => '\n' :: List.replicate (n * level) ' '

/-- What stands between two items of a level. -/
def separator (indent : Option Nat) (level : Nat) : List Char :=
  ',' :: if indent.isNone then [' '] else gap indent level

mutual

/-- The text of a document at a level, followed by `rest`. -/
def chars (indent : Option Nat) (level : Nat) (rest : List Char) : Json → List Char
  | .null => 'n' :: 'u' :: 'l' :: 'l' :: rest
  | .number n => (toString n).toList ++ rest
  | .text s => textChars s ++ rest
  | .list [] => '[' :: ']' :: rest
  | .list (item :: items) =>
    let closing := gap indent level ++ ']' :: rest
    let more := moreItems indent (level + 1) closing items
    '[' :: (gap indent (level + 1) ++ chars indent (level + 1) more item)
  | .object [] => '{' :: '}' :: rest
  | .object ((key, value) :: members) =>
    let closing := gap indent level ++ '}' :: rest
    let more := moreMembers indent (level + 1) closing members
    '{' :: (gap indent (level + 1) ++ (textChars key
      ++ ':' :: ' ' :: chars indent (level + 1) more value))

/-- The text of the items behind the first, followed by `rest`. -/
def moreItems (indent : Option Nat) (level : Nat) (rest : List Char) :
    List Json → List Char
  | [] => rest
  | item :: items =>
    let more := moreItems indent level rest items
    separator indent level ++ chars indent level more item

/-- The text of the members behind the first, followed by `rest`. -/
def moreMembers (indent : Option Nat) (level : Nat) (rest : List Char) :
    List (String × Json) → List Char
  | [] => rest
  | (key, value) :: members =>
    let more := moreMembers indent level rest members
    separator indent level ++ (textChars key
      ++ ':' :: ' ' :: chars indent level more value)

end

/-- The text of a document. -/
def write (indent : Option Nat) (j : Json) : String := String.ofList (j.chars indent 0 [])

end Json

end StpLang
