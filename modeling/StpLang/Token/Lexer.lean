import StpLang.Cursor
import StpLang.Event
import StpLang.Token.Scan

/-!
Reading one token.

A `Lexer` stands at a place in a text and remembers the parentheses and
brackets that are open and whether white space has just been passed. Reading a
token either yields it or fails; either way the lexer stays where it stopped,
so that reading can go on after a failure.

A string holds formatting snippets, and a snippet holds tokens, so reading a
string needs a reader of snippets. It is a parameter of the functions below,
and `readSnippet` closes the circle by recursion on the number of snippets that
may still be entered.

* `Lexer.nextToken` reads one token.
* `Lexer.stringSegments` reads the inside of a string.
* `Lexer.readSnippet` reads the inside of a snippet.
-/

namespace StpLang

/-- The state of reading a text. -/
structure Lexer where
  /-- The place reached. -/
  cursor : Cursor
  /-- The open parentheses and brackets, the innermost first. -/
  groups : List Token := []
  /-- White space or the start of the input lies right behind. -/
  spaced : Bool := true
  /-- What happened so far, the latest first. -/
  trace : List Event := []

/-- A step of reading, which keeps its state also when it fails. -/
abbrev Lex := EStateM Error Lexer

namespace Lexer

/-! ### Moving and making tokens -/

/-- The place reached. -/
def cursorHere : Lex Cursor := return (← get).cursor

/-- Passes over `n` characters. -/
def skip (n : Nat) : Lex Unit :=
  modify fun s => { s with cursor := s.cursor.forward n }

/-- Notes an event. -/
def note (e : Event) : Lex Unit :=
  modify fun s => { s with trace := e :: s.trace }

/-- Reads one character, which must be there. -/
def advance : Lex Char := do
  match (← cursorHere).next with
  | .error e => throw e
  | .ok (x, d) =>
    modify fun s => { s with cursor := d }
    return x

/-- The token of a kind that reaches from `c` to the present place. The next
token is spaced when this one ends a line. -/
def emit (kind : TokenKind) (value : String) (c : Cursor)
    (segments : List (Segment Token) := []) : Lex Token := do
  let s ← get
  set { s with spaced := kind.endsLine }
  return {
    kind, value, line := c.line, col := c.col, start := c.pos
    stop := s.cursor.pos, spaced := s.spaced, segments }

/-- Passes over white space. A line end is white space in a snippet and within
parentheses and brackets. -/
def skipBlanks (inSnippet : Bool) : Lex Unit :=
  modify fun s =>
    let n := Scan.blankLength (inSnippet || !s.groups.isEmpty) s.cursor.rest
    if n = 0 then s
    else { s with cursor := s.cursor.forward n, spaced := true }

/-- Passes over the rest of the line and gives its text, without carriage
returns at its end. -/
def restOfLine : Lex String := do
  let c ← cursorHere
  let n := Scan.lineLength c.rest
  skip n
  return String.ofList (Text.trimEnd (· == '\r') (c.rest.take n))

/-! ### Operators and groups -/

/-- Reads the longest operator ahead, if there is one. -/
def matchOperator : Lex (Option Token) := do
  let c ← cursorHere
  match Scan.operator? c.rest with
  | none => return none
  | some (spelling, kind) =>
    skip spelling.length
    some <$> emit kind spelling c

/-- The open groups after a token: an opening delimiter opens one, and a
closing delimiter closes the innermost if it is its partner. -/
def groupsAfter (t : Token) (groups : List Token) : List Token :=
  if t.kind.opensGroup then t :: groups
  else match groups with
    | g :: gs => if g.kind.closer? == some t.kind then gs else groups
    | [] => []

/-- Reads an operator and keeps account of the groups. -/
def operator (c : Char) : Lex Token := do
  match ← matchOperator with
  | some t =>
    modify fun s => { s with groups := groupsAfter t s.groups }
    return t
  | none => throw ⟨.unexpectedChar c, (← cursorHere).here 1⟩

/-! ### Words and numbers -/

/-- The kind of a word that stands behind `past` and before `rest`. -/
def wordKind (past : List Char) (text : String) (rest : List Char) : TokenKind :=
  if text == "mod" && Scan.endsWithBlank past && Scan.startsWithSpace rest then .mod
  else .ofWord text

/-- Reads a word. -/
def word : Lex Token := do
  let c ← cursorHere
  skip (Scan.wordLength c.rest)
  let d ← cursorHere
  let text := c.textTo d
  emit (wordKind c.past text d.rest) text c

/-- Reads a number. -/
def number : Lex Token := do
  let c ← cursorHere
  skip (Scan.numberLength c.rest)
  emit .number (c.textTo (← cursorHere)) c

/-! ### Strings -/

/-- The segment from `c` to the present place. -/
def segment (form : SegmentForm Token) (c : Cursor) : Lex (Segment Token) := do
  let d ← cursorHere
  return {
    form, text := c.textTo d, line := c.line, col := c.col
    start := c.pos, stop := d.pos }

/-- Reads a run of characters that stand for themselves. -/
def plainRun : Lex (Segment Token) := do
  let c ← cursorHere
  skip (c.rest.takeWhile Scan.isPlain).length
  segment .chars c

/-- Reads the digits of a unicode escape whose backslash stands at `c`; the
letter `x` is ahead. -/
def unicodeEscape (c : Cursor) : Lex (SegmentForm Token) := do
  skip 1
  let d ← cursorHere
  let available := Scan.hexLength d.rest
  match Scan.escapeDigits? available with
  | some n =>
    skip n
    return .unicode (String.ofList (d.rest.take n))
  | none =>
    throw ⟨.shortUnicodeEscape, .of c.pos (d.pos + available) c.line c.col⟩

/-- Reads the digits of an octal escape whose backslash stands at `c`. -/
def octalEscape (c : Cursor) : Lex (SegmentForm Token) := do
  let n := Scan.octalLength (← cursorHere).rest
  skip n
  if n = 3 then return .octal
  else throw ⟨.shortOctalEscape, .of c.pos (← cursorHere).pos c.line c.col⟩

/-- Reads what follows the backslash at `c`, given the character ahead. -/
def escapeForm (snippet : Lex (List Token)) (c : Cursor) (x : Char) :
    Lex (SegmentForm Token) := do
  if Scan.isSimpleEscape x then
    skip 1
    return .escape
  else if x = 'x' then unicodeEscape c
  else if Scan.isOctalDigit x then octalEscape c
  else if x = '{' then
    skip 1
    return .snippet (← snippet)
  else if x = '}' then throw ⟨.strayClose, c.here 2⟩
  else throw ⟨.unknownEscape x, c.here 2⟩

/-- Reads a backslash and what follows it. -/
def escape (snippet : Lex (List Token)) : Lex (Segment Token) := do
  let c ← cursorHere
  skip 1
  let d ← cursorHere
  match d.rest with
  | [] => throw ⟨.unterminatedString, d.here⟩
  | x :: _ => segment (← escapeForm snippet c x) c

/-- Reads segments up to the closing quote, and the quote. `bound` is the
number of characters ahead; a segment takes at least one, so that when the
bound is used up the text has ended. -/
def stringSegments (snippet : Lex (List Token)) :
    (bound : Nat) → Lex (List (Segment Token))
  | 0 => do throw ⟨.unterminatedString, (← cursorHere).here⟩
  | bound + 1 => do
    let c ← cursorHere
    match c.rest with
    | [] => throw ⟨.unterminatedString, c.here⟩
    | '"' :: _ =>
      skip 1
      return []
    | '\\' :: _ => return (← escape snippet) :: (← stringSegments snippet bound)
    | _ => return (← plainRun) :: (← stringSegments snippet bound)

/-- Reads a string, whose opening quote is ahead. -/
def string (snippet : Lex (List Token)) : Lex Token := do
  let c ← cursorHere
  skip 1
  let segments ← stringSegments snippet (c.rest.length - 1)
  emit .string (c.textTo (← cursorHere)) c segments

/-! ### Tokens -/

/-- Reads `\}`, which closes a snippet once its groups are closed. -/
def snippetClose (inSnippet : Bool) : Lex Token := do
  let s ← get
  if !inSnippet then throw ⟨.strayClose, s.cursor.here 2⟩
  match s.groups with
  | g :: _ => throw ⟨.groupOpenAtClose g.value, g.span⟩
  | [] =>
    skip 2
    emit .snippetClose (s.cursor.textTo (← cursorHere)) s.cursor

/-- Reads the end of the input, which may not lie within a snippet. -/
def endOfText (inSnippet : Bool) : Lex Token := do
  let c ← cursorHere
  if inSnippet then throw ⟨.unclosedSnippet, c.here⟩
  else emit .eof "" c

/-- Reads the next token. -/
def nextToken (inSnippet : Bool) (snippet : Lex (List Token)) : Lex Token := do
  skipBlanks inSnippet
  let c ← cursorHere
  match Scan.Opening.of c.rest with
  | .nothing => endOfText inSnippet
  | .lineEnd =>
    skip 1
    emit .newline "\n" c
  | .comment => emit .comment (← restOfLine) c
  | .snippetClose => snippetClose inSnippet
  | .word => word
  | .digit => number
  | .quote => string snippet
  | .symbol x => operator x

/-! ### Snippets -/

/-- Reads the tokens of a snippet up to and including `\}`, in place of which
stands an end mark. `bound` is the number of characters ahead; a token takes at
least one, so that when the bound is used up the text has ended and `next`
fails. -/
def snippetTokens (next : Lex Token) : (bound : Nat) → Lex (List Token)
  | 0 => return [← next]
  | bound + 1 => do
    let t ← next
    if t.kind == .snippetClose then
      return [{ Token.eofAt t.line t.col t.start with spaced := t.spaced }]
    return t :: (← snippetTokens next bound)

/-- Runs a reader on the inside of a snippet, where no group is open yet. -/
def within {α : Type} (inner : Lex α) : Lex α := fun s =>
  let leave (t : Lexer) : Lexer := { s with cursor := t.cursor, trace := t.trace }
  match inner { cursor := s.cursor, trace := s.trace } with
  | .ok a t => .ok a (leave t)
  | .error e t => .error e (leave t)

/-- Reads the inside of a snippet whose `\{` lies right behind. At most `limit`
snippets may surround a place, and `allowance` more may be entered. -/
def readSnippet (limit : Int) : (allowance : Nat) → Lex (List Token)
  | 0 => fun s => .error ⟨.snippetsTooDeep limit, s.cursor.here⟩ s
  | allowance + 1 => fun s =>
    let c := s.cursor
    (do
      note (.snippetEntered c.line c.col (limit - allowance))
      within (snippetTokens (nextToken true (readSnippet limit allowance)) c.rest.length)
      : Lex (List Token)) s

end Lexer

end StpLang
