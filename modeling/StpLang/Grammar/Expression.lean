import StpLang.Grammar.Parser

/-!
Expressions.

Nesting is limited: whoever descends into parentheses, a call, a matrix, a
block, an operand of a prefix operator or an operand of a binary operator uses
up one of the levels that a `Level` allows. What may be read one level further
in is a parameter, so that none of the functions below is recursive over the
grammar; they only loop over the tokens ahead.

* `expression` climbs over the binary operators, from the loosest accepted
  level up; operators of one level group to the left, powers to the right.
* `primary` reads matrices, ranges, parentheses, calls, names, numbers and
  strings.
* In a row of a matrix white space separates elements: `startsElement` tells a
  sign that begins an element from a binary operator.
-/

namespace StpLang

/-- What can be read one level further in. -/
inductive Nonterminal where
  /-- An expression of binary operators of level `least` and above. -/
  | expression (least : Nat) (inMatrix : Bool)
  /-- An operand with its prefix operators. -/
  | unary (inMatrix : Bool)
  /-- A statement within `loops` loops of the same function. -/
  | statement (loops : Nat)
deriving DecidableEq, Repr

/-- Where the grammar stands between the outermost level and the limit. -/
structure Level where
  /-- The greatest number of levels. -/
  limit : Int
  /-- Errors end the reading instead of being recovered from. -/
  strict : Bool
  /-- The number of levels that may still be entered. -/
  allowance : Nat
  /-- What is read one level further in, unless the limit is reached. -/
  inner : Option (Nonterminal → Parse Node)

namespace Grammar

open Parse

/-- Descends one level on account of the token `t`. -/
def nested {α : Type} (L : Level) (t : Token)
    (body : (Nonterminal → Parse Node) → Parse α) : Parse α :=
  match L.inner with
  | none => fail (.nestingTooDeep L.limit) t.span
  | some read => body read

/-- Refuses an expression with more levels than the allowance. -/
def bounded (limit : Int) (allowance : Nat) (n : Node) (t : Token) : Parse Unit :=
  if n.height > allowance then fail (.expressionTooDeep limit) t.span
  else return ()

/-! ### Binary operators -/

/-- The sign `t`, which is ahead, begins an element of a matrix row: white
space precedes it and none follows. -/
def startsElement (t : Token) (s : Parser) : Bool :=
  let follower := s.peek 1
  (t.kind == .plus || t.kind == .minus) && t.spaced && !follower.spaced
    && follower.kind != .eof && follower.kind != .rightBracket

/-- The node of a binary operator and its operands. -/
def binaryNode (lhs : Node) (op : Token) (rhs : Node) : Node :=
  .spanning .binary lhs.place rhs.stop [lhs, .leaf .operator op, rhs]
    [(.lhs, [0]), (.operator, [1]), (.rhs, [2])]

/-- The least level of the right operand: an operator that groups to the left
leaves its own level to the loop. -/
def rightLevel (level : Nat) : Assoc → Nat
  | .right => level
  | .left => level + 1

/-- Takes binary operators of level `least` and above behind the operand
`lhs`. -/
def climb (L : Level) (read : Nonterminal → Parse Node) (least : Nat) (inMatrix : Bool) :
    (bound : Nat) → Node → Parse Node
  | 0, lhs => return lhs
  | bound + 1, lhs => do
    let s ← get
    let t := s.current
    match t.kind.binary? with
    | none => return lhs
    | some (level, assoc) =>
      if level < least || (inMatrix && startsElement t s) then return lhs
      discard advance
      let rhs ← read (.expression (rightLevel level assoc) inMatrix)
      let n := binaryNode lhs t rhs
      bounded L.limit (L.allowance - 1) n t
      climb L read least inMatrix bound n

/-- Reads an expression of binary operators of level `least` and above. -/
def expression (L : Level) (least : Nat) (inMatrix : Bool) : Parse Node := do
  nested L (← current) fun read => do
    let lhs ← read (.unary inMatrix)
    climb L read least inMatrix (← tokensLeft) lhs

/-- Reads an expression of any level outside a matrix row. -/
def anyExpression (L : Level) : Parse Node := expression L 1 false

/-! ### Names and numbers -/

/-- Reads the dots and names behind the first name of a member access. -/
def memberParts (inMatrix : Bool) : (bound : Nat) → Parse (List Node)
  | 0 => return []
  | bound + 1 => do
    let t ← current
    if t.kind == .dot && !(inMatrix && t.spaced) then
      discard advance
      let part ← leafOf .identifier .identifier
      return part :: (← memberParts inMatrix bound)
    else return []

/-- Reads a name, or several joined by dots. -/
def memberAccess (inMatrix : Bool) : Parse Node := do
  let first ← leafOf .identifier .identifier
  let parts := first :: (← memberParts inMatrix (← tokensLeft))
  node .memberAccess first.place parts []
    (some (Text.join "." (parts.map (·.value.getD ""))))

/-- Reads the dots of a range and the number behind them. -/
def rangeBound : Parse Node := do
  discard (expect [.ellipsis])
  let t ← current
  if t.kind == .number then return .leaf .number (← advance)
  else fail (.rangeBound (.of t)) t.span

/-- Reads a range of two numbers, or of three with a step between. -/
def range : Parse Node := do
  let first ← leafOf .number .number
  let second ← rangeBound
  if (← current).kind != .ellipsis then
    node .range first.place [first, second] [(.start, [0]), (.stop, [1])]
  else
    let third ← rangeBound
    let t ← current
    if t.kind == .ellipsis then
      discard advance
      fail .longRange t.span
    node .range first.place [first, second, third]
      [(.start, [0]), (.step, [1]), (.stop, [2])]

/-- Reads a number, or a percentage if the percent sign follows directly. -/
def number : Parse Node := do
  let t ← advance
  let sign ← current
  if sign.kind == .percent && !sign.spaced then
    discard advance
    node .percentage t.place [] [] (some (t.value ++ sign.value))
  else return .leaf .number t

/-! ### Parentheses and calls -/

/-- Reads an expression in parentheses. -/
def bracketed (L : Level) : Parse Node := do
  let opener ← expect [.leftParen]
  let t ← current
  if t.kind == .rightParen then fail .emptyParens t.span
  let e ← anyExpression L
  discard (close opener)
  node .bracketed opener.place [e]

/-- Reads `name = value`. -/
def keywordArgument (readValue : Parse Node) : Parse Node := do
  let name ← leafOf .identifier .identifier
  discard (expect [.assign])
  let value ← readValue
  node .keywordArg name.place [name, value] [(.argumentName, [0]), (.argumentValue, [1])]

/-- Reads what stands between two arguments: a comma with an argument behind
it. The closing parenthesis is left. -/
def argumentSeparator (opener : Token) : Parse Unit := do
  let t ← current
  if t.kind == .comma then
    discard advance
    if (← current).kind == .rightParen then fail .trailingComma t.span
  else if t.kind != .rightParen then discard (close opener)

/-- Reads arguments up to the closing parenthesis, which is left: positional
ones, then named ones. In a `definition` the positional ones are plain names.
`named` tells that a named one has been read. -/
def argumentList (readValue : Parse Node) (definition : Bool) (opener : Token) :
    (bound : Nat) → (named : Bool) → Parse (List Node × List Node)
  | 0, _ => fail (.neverClosed opener.value) opener.span
  | bound + 1, named => do
    let s ← get
    let t := s.current
    if t.kind == .rightParen then return ([], [])
    else if t.kind == .eof || t.kind == .rightBracket || t.kind == .rightBrace then
      fail (.neverClosed opener.value) opener.span
    else if t.kind == .identifier && (s.peek 1).kind == .assign then
      let argument ← keywordArgument readValue
      argumentSeparator opener
      let (positional, keyword) ← argumentList readValue definition opener bound true
      return (positional, argument :: keyword)
    else if named then fail .positionalAfterKeyword t.span
    else
      let argument ← if definition then leafOf .identifier .identifier else readValue
      argumentSeparator opener
      let (positional, keyword) ← argumentList readValue definition opener bound false
      return (argument :: positional, keyword)

/-- In a definition a list of named arguments alone may open with a comma. -/
def skipLeadingComma : Parse Unit := do
  let s ← get
  if s.current.kind == .comma && (s.peek 1).kind == .identifier
      && (s.peek 2).kind == .assign then
    discard advance

/-- Reads arguments and the closing parenthesis, and gives the node of the
positional ones and that of the named ones. -/
def arguments (readValue : Parse Node) (definition : Bool) (opener : Token) :
    Parse (Node × Node) := do
  if definition then skipLeadingComma
  let (positional, keyword) ←
    argumentList readValue definition opener (← tokensLeft) false
  let closer ← advance
  return (.spanning .positionalArgs opener.place closer.stop positional,
    .spanning .keywordArgs opener.place closer.stop keyword)

/-- Reads the arguments of a call of `target`. -/
def call (L : Level) (target : Node) : Parse Node := do
  let opener ← expect [.leftParen]
  let (positional, keyword) ← nested L opener fun read =>
    arguments (read (.expression 1 false)) false opener
  node .call target.place [target, positional, keyword]
    [(.fnName, [0]), (.posArgs, [1]), (.keywordArgs, [2])]

/-! ### Matrices -/

/-- The tokens at which a row of a matrix ends. -/
def endsRow : TokenKind → Bool
  | .semicolon | .rightBracket | .eof | .rightParen | .rightBrace => true
  | _ => false

/-- Reads the elements of a row; a comma may follow each. -/
def rowElements (read : Nonterminal → Parse Node) : (bound : Nat) → Parse (List Node)
  | 0 => return []
  | bound + 1 => do
    if endsRow (← current).kind then return []
    let element ← read (.expression 1 true)
    discard (accept [.comma])
    return element :: (← rowElements read bound)

/-- Reads the rows of a matrix and the closing bracket. Every row but the last
ends with a semicolon, and no row is empty. -/
def rows (read : Nonterminal → Parse Node) (opener : Token) :
    (bound : Nat) → Parse (List Node)
  | 0 => do fail .emptyRow (← current).span
  | bound + 1 => do
    let first ← current
    let elements ← rowElements read (← tokensLeft)
    match elements.getLast? with
    | none => fail .emptyRow first.span
    | some last =>
      if (← current).kind == .semicolon then
        discard advance
        let row ← node .matrixRow first.place elements
        return row :: (← rows read opener bound)
      else
        discard (close opener)
        return [.spanning .lastRow first.place last.stop elements]

/-- Reads a matrix. -/
def matrix (L : Level) : Parse Node := do
  let opener ← expect [.leftBracket]
  let children ← nested L opener fun read => do
    rows read opener (← tokensLeft)
  node .matrix opener.place children

/-! ### Strings -/

/-- The kind of the node of a segment. -/
def segmentKind : SegmentForm Token → Kind
  | .chars => .chars
  | .escape => .escape
  | .unicode _ => .unicodeEscape
  | .octal => .octalEscape
  | .snippet _ => .snippet
  | .other name => .ofName name

/-- Reads other tokens, then goes on where reading stood. Of the other tokens
only the events are kept. -/
def onTokens {α : Type} (tokens : Parser) (body : Parse α) : Parse α := fun s =>
  match body { tokens with trace := s.trace } with
  | .ok a t => .ok a { s with trace := t.trace }
  | .error e t => .error e { s with trace := t.trace }

/-- Reads the expression of a formatting snippet. Comments that its tokens hold
within groups are set aside with the others. -/
def snippetExpression (L : Level) (seg : Segment Token) (tokens : List Token) :
    Parse Node := do
  note (.snippetParsed seg.line seg.col)
  let inner := Parser.ofTokens tokens
  modify fun s => { s with trivia := s.trivia ++ inner.trivia }
  if inner.current.kind == .eof then fail .emptySnippet seg.span
  onTokens inner do
    let e ← anyExpression L
    let t ← current
    if t.kind != .eof then fail (.leftoverInSnippet (.of t)) t.span
    return e

/-- Where a segment starts. -/
def segmentPlace (seg : Segment Token) : Place := ⟨seg.line, seg.col, seg.start⟩

/-- The node of one segment of a string. -/
def segmentNode (L : Level) (seg : Segment Token) : Parse Node := do
  let place := segmentPlace seg
  match seg.form with
  | .unicode digits =>
    -- the digits stand behind the backslash and the letter
    let child : Node :=
      { kind := .hexDigits, value := some digits, line := seg.line, col := seg.col + 2
        start := seg.stop - digits.length, stop := seg.stop }
    return .spanning .unicodeEscape place seg.stop [child] [(.hexDigits, [0])] (some seg.text)
  | .snippet tokens =>
    let e ← snippetExpression L seg tokens
    return .spanning .snippet place seg.stop [e] [(.formattingExpr, [0])]
  | form => return .spanning (segmentKind form) place seg.stop [] [] (some seg.text)

/-- Reads a string. -/
def string (L : Level) : Parse Node := do
  let t ← expect [.string]
  let chars ← t.segments.mapM (segmentNode L)
  return .spanning .string t.place t.stop chars
    [(.stringChars, List.range chars.length)]

/-! ### Operands -/

/-- Reads a name and, if a parenthesis follows, the call. -/
def nameOrCall (L : Level) (inMatrix : Bool) : Parse Node := do
  let target ← memberAccess inMatrix
  let t ← current
  if t.kind == .leftParen && !(inMatrix && t.spaced) then call L target
  else return target

/-- Reads an operand without its prefix and suffix operators. -/
def primary (L : Level) (inMatrix : Bool) : Parse Node := do
  let s ← get
  match s.current.kind with
  | .leftBracket => matrix L
  | .leftParen => bracketed L
  | .identifier => nameOrCall L inMatrix
  | .number => if (s.peek 1).kind == .ellipsis then range else number
  | .string => string L
  | _ => fail (.expectedExpression (.of s.current)) s.current.span

/-- Takes the suffix operators directly behind an operand. -/
def suffixes (L : Level) : (bound : Nat) → Node → Parse Node
  | 0, operand => return operand
  | bound + 1, operand => do
    let t ← current
    if t.kind.isSuffix && !t.spaced then
      discard advance
      let n ← node .suffix operand.place [operand, .leaf .operator t]
        [(.operand, [0]), (.operator, [1])]
      bounded L.limit L.allowance n t
      suffixes L bound n
    else return operand

/-- Reads an operand with its suffix operators. -/
def suffix (L : Level) (inMatrix : Bool) : Parse Node := do
  let operand ← primary L inMatrix
  suffixes L (← tokensLeft) operand

/-- Reads an operand with its prefix and suffix operators. -/
def unary (L : Level) (inMatrix : Bool) : Parse Node := do
  let t ← current
  if t.kind.isUnary then
    discard advance
    let operand ← nested L t fun read => read (.unary inMatrix)
    return .spanning .unary t.place operand.stop [.leaf .operator t, operand]
      [(.unaryOp, [0]), (.operand, [1])]
  else suffix L inMatrix

end Grammar

end StpLang
