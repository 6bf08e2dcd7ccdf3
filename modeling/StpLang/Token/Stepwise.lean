import StpLang.Token.Lexed

/-!
Reading a text one character after the other.

The lexer measures what belongs to a token and then passes over it at once. The reader
here takes one character at a time: its loops go on as long as the next character asks
for it, and whoever takes a character behind the end of the text fails with
`readPastEnd`. A clock counts how deep loops and calls may go; it bounds nothing else, and
a step whose clock runs out has no outcome. So a loop ends when it has an outcome for
every clock that is large enough.

* `Stepwise` is a step of such a reader.
* `Stepwise.collect` is the loop that takes characters.
* `Stepwise.nextToken`, `segments`, `escape`, `snippet` and `snippetTokens` call each
  other: strings hold snippets, and snippets hold tokens.
* `Stepwise.tokenize` reads a whole text.
-/

namespace StpLang

/-- A step of reading, which keeps its state also when it fails. Its outcome is `none`
when it does not end in time. -/
abbrev Stepwise := ExceptT Error (StateT Lexer Option)

namespace Stepwise

open Lexer (groupsAfter wordKind)

variable {α : Type}

/-! ### Taking characters -/

/-- A step that takes no character. -/
def lift (p : Lex α) : Stepwise α := fun s =>
  match p s with
  | .ok a t => some (.ok a, t)
  | .error e t => some (.error e, t)

/-- A step whose clock has run out. -/
def late : Stepwise α := fun _ => none

/-- The place reached. -/
def here : Stepwise Cursor := return (← get).cursor

/-- Takes the next character, which must be there. -/
def advance : Stepwise Char := lift Lexer.advance

/-- Takes `n` characters. -/
def take : (n : Nat) → Stepwise (List Char)
  | 0 => return []
  | n + 1 => do return (← advance) :: (← take n)

/-- Takes characters as long as the text ahead asks for it. -/
def collect (more : List Char → Bool) : (clock : Nat) → Stepwise (List Char)
  | 0 => late
  | clock + 1 => do
    if more (← here).rest then
      return (← advance) :: (← collect more clock)
    else
      return []

/-- Takes at most `n` characters, as long as they satisfy `p`. -/
def collectUpTo (p : Char → Bool) : (n : Nat) → Stepwise (List Char)
  | 0 => return []
  | n + 1 => do
    if (← here).rest.head?.any p then
      return (← advance) :: (← collectUpTo p n)
    else
      return []

/-! ### White space -/

/-- Takes one blank, one line end that is white space, or one continued line end, and
tells whether there was one. From the backslash of a continued line end on, the line
feed is looked for without regard to the end of the text. -/
def skipBlank (inSnippet : Bool) (clock : Nat) : Stepwise Bool := do
  let s ← get
  match s.cursor.rest with
  | [] => return false
  | x :: _ =>
    if x = ' ' || x = '\t' || x = '\r' then
      discard advance
      return true
    else if x = '\n' && (inSnippet || !s.groups.isEmpty) then
      discard advance
      return true
    else if Scan.isContinuation s.cursor.rest then
      discard advance
      discard (collect (fun k => k.head? != some '\n') clock)
      discard advance
      return true
    else
      return false

/-- Takes all white space ahead. -/
def skipBlanks (inSnippet : Bool) : (clock : Nat) → Stepwise Unit
  | 0 => late
  | clock + 1 => do
    if ← skipBlank inSnippet clock then
      modify fun s => { s with spaced := true }
      skipBlanks inSnippet clock

/-! ### Tokens without pieces -/

/-- Reads a comment. -/
def comment (clock : Nat) : Stepwise Token := do
  let c ← here
  let text ← collect (fun k => k.head?.any (· != '\n')) clock
  lift (Lexer.emit .comment (String.ofList (Text.trimEnd (· == '\r') text)) c)

/-- Reads a word. -/
def word (clock : Nat) : Stepwise Token := do
  let c ← here
  let text ← collect (fun k => k.head?.any Scan.continuesWord) clock
  let d ← here
  lift (Lexer.emit (wordKind c.past (String.ofList text) d.rest) (String.ofList text) c)

/-- Takes digits. -/
def digits (clock : Nat) : Stepwise (List Char) :=
  collect (fun k => k.head?.any Char.isDigit) clock

/-- Takes a dot and the digits behind it, if a digit stands behind the dot. -/
def fraction (clock : Nat) : Stepwise (List Char) := do
  match (← here).rest with
  | '.' :: x :: _ =>
    if x.isDigit then
      return (← advance) :: (← digits clock)
    else
      return []
  | _ => return []

/-- Reads a number. -/
def number (clock : Nat) : Stepwise Token := do
  let c ← here
  let whole ← digits clock
  let part ← fraction clock
  lift (Lexer.emit .number (String.ofList (whole ++ part)) c)

/-- Reads the longest operator ahead and keeps account of the groups. -/
def operator (x : Char) : Stepwise Token := do
  let c ← here
  match Scan.operator? c.rest with
  | some (spelling, kind) =>
    discard (take spelling.length)
    let t ← lift (Lexer.emit kind spelling c)
    modify fun s => { s with groups := groupsAfter t s.groups }
    return t
  | none => throw ⟨.unexpectedChar x, c.here 1⟩

/-- Reads `\}`, which closes a snippet once its groups are closed. -/
def snippetClose (inSnippet : Bool) : Stepwise Token := do
  let s ← get
  if !inSnippet then throw ⟨.strayClose, s.cursor.here 2⟩
  match s.groups with
  | g :: _ => throw ⟨.groupOpenAtClose g.value, g.span⟩
  | [] =>
    let mark ← take 2
    lift (Lexer.emit .snippetClose (String.ofList mark) s.cursor)

/-! ### Pieces of strings -/

/-- Reads a run of characters that stand for themselves. -/
def plainRun (clock : Nat) : Stepwise (Segment Token) := do
  let c ← here
  let text ← collect (fun k => k.head?.any Scan.isPlain) clock
  let seg ← lift (Lexer.segment .chars c)
  return { seg with text := String.ofList text }

/-- Reads the letter and the digits of a unicode escape whose backslash stands at `c`. -/
def unicodeEscape (c : Cursor) : Stepwise (SegmentForm Token) := do
  discard advance
  let d ← here
  let available := Scan.hexLength d.rest
  match Scan.escapeDigits? available with
  | some n => return .unicode (String.ofList (← take n))
  | none => throw ⟨.shortUnicodeEscape, .of c.pos (d.pos + available) c.line c.col⟩

/-- Reads the digits of an octal escape whose backslash stands at `c`. -/
def octalEscape (c : Cursor) : Stepwise (SegmentForm Token) := do
  let found ← collectUpTo Scan.isOctalDigit 3
  if found.length = 3 then return .octal
  else throw ⟨.shortOctalEscape, .of c.pos (← here).pos c.line c.col⟩

/-! ### Strings, snippets and tokens -/

/-- Takes a step inside of a snippet, where no group is open yet. -/
def within (inner : Stepwise α) : Stepwise α := fun s =>
  (inner { cursor := s.cursor, trace := s.trace }).map fun (r, t) =>
    (r, { s with cursor := t.cursor, trace := t.trace })

mutual

/-- Reads the next token, where `depth` snippets surround the place. -/
def nextToken (limit : Int) (inSnippet : Bool) (depth : Int) : (clock : Nat) → Stepwise Token
  | 0 => late
  | clock + 1 => do
    skipBlanks inSnippet clock
    let c ← here
    match Scan.Opening.of c.rest with
    | .nothing => lift (Lexer.endOfText inSnippet)
    | .lineEnd =>
      discard advance
      lift (Lexer.emit .newline "\n" c)
    | .comment => comment clock
    | .snippetClose => snippetClose inSnippet
    | .word => word clock
    | .digit => number clock
    | .quote =>
      discard advance
      let pieces ← segments limit depth clock
      lift (Lexer.emit .string (c.textTo (← here)) c pieces)
    | .symbol x => operator x

/-- Reads the pieces of a string up to the closing quote, and the quote. -/
def segments (limit : Int) (depth : Int) : (clock : Nat) → Stepwise (List (Segment Token))
  | 0 => late
  | clock + 1 => do
    let c ← here
    match c.rest with
    | [] => throw ⟨.unterminatedString, c.here⟩
    | '"' :: _ =>
      discard advance
      return []
    | '\\' :: _ => return (← escape limit depth clock) :: (← segments limit depth clock)
    | _ => return (← plainRun clock) :: (← segments limit depth clock)

/-- Reads a backslash and what follows it. -/
def escape (limit : Int) (depth : Int) : (clock : Nat) → Stepwise (Segment Token)
  | 0 => late
  | clock + 1 => do
    let c ← here
    discard advance
    let d ← here
    match d.rest with
    | [] => throw ⟨.unterminatedString, d.here⟩
    | x :: _ =>
      if Scan.isSimpleEscape x then
        discard advance
        lift (Lexer.segment .escape c)
      else if x = 'x' then
        lift (Lexer.segment (← unicodeEscape c) c)
      else if Scan.isOctalDigit x then
        lift (Lexer.segment (← octalEscape c) c)
      else if x = '{' then
        discard advance
        lift (Lexer.segment (.snippet (← snippet limit depth clock)) c)
      else if x = '}' then
        throw ⟨.strayClose, c.here 2⟩
      else
        throw ⟨.unknownEscape x, c.here 2⟩

/-- Reads the inside of a snippet whose `\{` lies right behind. -/
def snippet (limit : Int) (depth : Int) : (clock : Nat) → Stepwise (List Token)
  | 0 => late
  | clock + 1 => do
    let s ← get
    if depth + 1 > limit then
      throw ⟨.snippetsTooDeep limit, s.cursor.here⟩
    else
      lift (Lexer.note (.snippetEntered s.cursor.line s.cursor.col (depth + 1)))
      within (snippetTokens limit (depth + 1) clock)

/-- Reads the tokens of a snippet up to and including `\}`, in place of which stands an
end mark. -/
def snippetTokens (limit : Int) (depth : Int) : (clock : Nat) → Stepwise (List Token)
  | 0 => late
  | clock + 1 => do
    let t ← nextToken limit true depth clock
    if t.kind == .snippetClose then
      return [{ Token.eofAt t.line t.col t.start with spaced := t.spaced }]
    else
      return t :: (← snippetTokens limit depth clock)

end

/-! ### Whole texts -/

/-- Reads tokens up to and including the end mark. -/
def tokens (limit : Int) : (clock : Nat) → Stepwise (List Token)
  | 0 => late
  | clock + 1 => do
    let t ← nextToken limit false 0 clock
    if t.kind == .eof then
      return [t]
    else
      return t :: (← tokens limit clock)

/-- The tokens of a text or the first error, unless the clock runs out. -/
def tokenize (source : String) (limit : Int) (clock : Nat) :
    Option (Except Error (List Token)) :=
  (tokens limit clock { cursor := .ofText source }).map Prod.fst

end Stepwise

end StpLang
