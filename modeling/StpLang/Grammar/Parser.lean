import StpLang.Event
import StpLang.Node.Basic

/-!
Reading tokens.

A `Parser` is a place in a sequence of tokens together with the errors and the
comments collected so far. Behind the last token it reads end marks without
end. A step that fails leaves the parser where it stopped.

* `Parser.ofTokens` sets the comments within parentheses and brackets aside and
  decides which occurrences of `mod` are names.
* `Parse.advance`, `Parse.accept`, `Parse.expect` and `Parse.close` read single
  tokens.
* `Parse.node` makes the node of everything read since a given place.
-/

namespace StpLang

/-- The state of reading tokens. -/
structure Parser where
  /-- The tokens read, the latest first. -/
  before : List Token := []
  /-- The tokens ahead. -/
  rest : List Token
  /-- The errors from which reading recovered. -/
  errors : List Error := []
  /-- The comments set aside. -/
  trivia : List Node := []
  /-- What happened so far, the latest first. -/
  trace : List Event := []

namespace Parser

/-! ### Preparing the tokens -/

/-- Separates the comments within `depth` open groups from the other tokens.
The word `mod` is the operator only behind a token that ends an operand; `last`
is the kind of the token kept before. -/
def settle (depth : Nat) (last : Option TokenKind) :
    List Token → List Token × List Node
  | [] => ([], [])
  | t :: ts =>
    let keep (t : Token) (depth : Nat) : List Token × List Node :=
      let (kept, comments) := settle depth (some t.kind) ts
      (t :: kept, comments)
    if t.kind.opensGroup then keep t (depth + 1)
    else if t.kind.closesGroup then keep t (depth - 1)
    else if t.kind == .comment && depth > 0 then
      let (kept, comments) := settle depth last ts
      (kept, .leaf .comment t :: comments)
    else if t.kind == .mod && !last.any (·.endsOperand) then
      keep { t with kind := .identifier } depth
    else keep t depth

/-- The parser at the beginning of a sequence of tokens. -/
def ofTokens (tokens : List Token) : Parser :=
  let (rest, trivia) := settle 0 none tokens
  { rest, trivia }

/-! ### Looking at tokens -/

/-- The number of tokens read. -/
def position (s : Parser) : Nat := s.before.length

/-- The number of tokens in all. -/
def count (s : Parser) : Nat := s.before.length + s.rest.length

/-- The end mark behind the last token. -/
def eof (s : Parser) : Token :=
  match s.rest.getLast? <|> s.before.head? with
  | some t => .eofAt t.line t.col t.stop
  | none => .eofAt 1 1 0

/-- The token ahead. -/
def current (s : Parser) : Token :=
  match s.rest with
  | t :: _ => t
  | [] => s.eof

/-- The token `k` places ahead. -/
def peek (s : Parser) (k : Nat) : Token := (s.rest[k]?).getD s.eof

/-- The token at a position of the whole sequence. -/
def tokenAt (s : Parser) (index : Nat) : Token :=
  ((s.before.reverse ++ s.rest)[index]?).getD s.eof

/-- The token read last, or the one ahead at the very beginning. -/
def previous (s : Parser) : Token := s.before.head?.getD s.current

/-- The first token ahead that is not a line end. -/
def significant (s : Parser) : Token :=
  (s.rest.find? (·.kind != .newline)).getD s.eof

/-- Passes over one token; at the end nothing is passed. -/
def step (s : Parser) : Parser :=
  match s.rest with
  | [] => s
  | t :: ts => { s with before := t :: s.before, rest := ts }

/-- Passes over `n` tokens. -/
def forward : Nat → Parser → Parser
  | 0, s => s
  | n + 1, s => forward n s.step

end Parser

/-- A step of reading tokens, which keeps its state also when it fails. -/
abbrev Parse := EStateM Error Parser

/-- Where a node starts. -/
structure Place where
  line : Nat
  col : Nat
  start : Nat

/-- Where a token starts. -/
def Token.place (t : Token) : Place := ⟨t.line, t.col, t.start⟩

/-- Where a node starts. -/
def Node.place (n : Node) : Place := ⟨n.line, n.col, n.start⟩

/-- The node from a place up to an offset. -/
def Node.spanning (kind : Kind) (p : Place) (stop : Nat) (children : List Node)
    (fields : FieldTable := []) (value : Option String := none) : Node :=
  { kind, value, line := p.line, col := p.col, start := p.start, stop, children, fields }

namespace Parse

/-- Fails for a cause at a range. -/
def fail {α : Type} (cause : Cause) (span : Span) : Parse α := throw ⟨cause, span⟩

/-- Notes an event. -/
def note (e : Event) : Parse Unit := modify fun s => { s with trace := e :: s.trace }

/-- The token ahead. -/
def current : Parse Token := return (← get).current

/-- The number of tokens ahead, which bounds every loop below: each round of a
loop reads a token. -/
def tokensLeft : Parse Nat := return (← get).rest.length

/-- Reads a token. -/
def advance : Parse Token := do
  let s ← get
  set s.step
  return s.current

/-- Reads a token of one of the kinds, if one is ahead. -/
def accept (kinds : List TokenKind) : Parse (Option Token) := do
  if kinds.contains (← current).kind then some <$> advance else return none

/-- Reads a token, which must be of one of the kinds. -/
def expect (kinds : List TokenKind) : Parse Token := do
  let t ← current
  if kinds.contains t.kind then advance
  else fail (.expected kinds (.of t)) t.span

/-- Reads the delimiter that closes `opener`. At the end and at another closing
delimiter the opener is to blame, elsewhere the token that is in the way. -/
def close (opener : Token) : Parse Token := do
  let t ← current
  if some t.kind == opener.kind.closer? then advance
  else if t.kind == .eof || t.kind.isCloser then
    fail (.neverClosed opener.value) opener.span
  else
    let closer := (opener.kind.closer? >>= TokenKind.spelling?).getD ""
    fail (.unclosed closer opener.value (.of t)) t.span

/-- The node from a place up to the token read last. -/
def node (kind : Kind) (p : Place) (children : List Node)
    (fields : FieldTable := []) (value : Option String := none) : Parse Node :=
  return .spanning kind p (← get).previous.stop children fields value

/-- Reads a token of a kind as a leaf. -/
def leafOf (tokenKind : TokenKind) (kind : Kind) : Parse Node :=
  return .leaf kind (← expect [tokenKind])

end Parse

end StpLang
