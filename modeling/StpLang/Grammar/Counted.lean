import StpLang.Grammar.Statement

/-!
A reader with counters.

A reader that is called again and again, also behind an error, keeps the depth and the
number of open loops in its own state. Whoever descends counts up and, however the descent
ends, counts down again; whoever enters the body of a function sets the loops aside and
takes them up again behind it. The steps below do this step by step, where the grammar is
given the level and the loops from outside; what minds no counter is taken from there.

* `Counted` is the state: the counters and the tokens.
* `Count.ensuring` changes the counters behind a step, also when the step fails.
* `Count.nested`, `Count.loopBody` and `Count.functionBody` count up and down.
* `Count.readers` ties the steps together, and `Call.run` makes one call.
-/

namespace StpLang

/-- What a reader counts, and the limits that it minds. -/
structure Counters where
  /-- The greatest number of levels. -/
  limit : Int
  /-- Errors end the reading instead of being recovered from. -/
  strict : Bool
  /-- The number of levels entered. -/
  depth : Int
  /-- The number of loops of the innermost function around the place. -/
  loops : Nat
deriving DecidableEq, Repr

/-- A reader that counts. -/
structure Counted where
  counters : Counters
  parser : Parser

/-- A step of a reader that counts, which keeps its state also when it fails. -/
abbrev Count := EStateM Error Counted

namespace Count

open Parse Grammar

variable {α : Type}

/-! ### Counting -/

/-- A step that minds no counter. -/
def lift (p : Parse α) : Count α := fun s =>
  match p s.parser with
  | .ok a t => .ok a { s with parser := t }
  | .error e t => .error e { s with parser := t }

/-- The counters. -/
def counters : Count Counters := return (← get).counters

/-- Changes the counters. -/
def recount (f : Counters → Counters) : Count Unit :=
  modify fun s => { s with counters := f s.counters }

/-- Takes a step and changes the counters behind it, also when the step fails. -/
def ensuring (step : Count α) (f : Counters → Counters) : Count α := fun s =>
  match step s with
  | .ok a t => .ok a { t with counters := f t.counters }
  | .error e t => .error e { t with counters := f t.counters }

/-- Descends one level on account of the token `t`, and comes back. -/
def nested (t : Token) (body : Count α) : Count α := do
  recount fun k => { k with depth := k.depth + 1 }
  ensuring (do
      let k ← counters
      if k.depth > k.limit then lift (fail (.nestingTooDeep k.limit) t.span)
      body)
    fun k => { k with depth := k.depth - 1 }

/-- Refuses an expression with more levels than are left. -/
def bounded (n : Node) (t : Token) : Count Unit := do
  let k ← counters
  if k.depth + n.height > k.limit then lift (fail (.expressionTooDeep k.limit) t.span)

/-- Reads other tokens with counters of their own, then goes on where reading stood. Of the
other tokens only the events are kept. -/
def apart (k : Counters) (tokens : Parser) (body : Count α) : Count α := fun s =>
  match body ⟨k, { tokens with trace := s.parser.trace }⟩ with
  | .ok a t => .ok a { s with parser := { s.parser with trace := t.parser.trace } }
  | .error e t => .error e { s with parser := { s.parser with trace := t.parser.trace } }

/-- What can be read one level further in. -/
structure Inner where
  /-- An expression of binary operators of level `least` and above. -/
  expression : (least : Nat) → (inMatrix : Bool) → Count Node
  /-- An operand with its prefix operators. -/
  unary : (inMatrix : Bool) → Count Node
  statement : Count Node

/-! ### Binary operators -/

/-- Takes binary operators of level `least` and above behind the operand `lhs`. -/
def climb (R : Inner) (least : Nat) (inMatrix : Bool) : (bound : Nat) → Node → Count Node
  | 0, lhs => return lhs
  | bound + 1, lhs => do
    let s ← lift get
    let t := s.current
    match t.kind.binary? with
    | none => return lhs
    | some (level, assoc) =>
      if level < least || (inMatrix && startsElement t s) then return lhs
      lift (discard advance)
      let rhs ← R.expression (rightLevel level assoc) inMatrix
      let n := binaryNode lhs t rhs
      bounded n t
      climb R least inMatrix bound n

/-- Reads an expression of binary operators of level `least` and above. -/
def expression (R : Inner) (least : Nat) (inMatrix : Bool) : Count Node := do
  nested (← lift current) do
    let lhs ← R.unary inMatrix
    climb R least inMatrix (← lift tokensLeft) lhs

/-- Reads an expression of any level outside a matrix row. -/
def anyExpression (R : Inner) : Count Node := expression R 1 false

/-! ### Parentheses and calls -/

/-- Reads an expression in parentheses. -/
def bracketed (R : Inner) : Count Node := do
  let opener ← lift (expect [.leftParen])
  let t ← lift current
  if t.kind == .rightParen then lift (fail .emptyParens t.span)
  let e ← anyExpression R
  lift (discard (close opener))
  lift (node .bracketed opener.place [e])

/-- Reads `name = value`. -/
def keywordArgument (readValue : Count Node) : Count Node := do
  let name ← lift (leafOf .identifier .identifier)
  lift (discard (expect [.assign]))
  let value ← readValue
  lift (node .keywordArg name.place [name, value]
    [(.argumentName, [0]), (.argumentValue, [1])])

/-- Reads arguments up to the closing parenthesis, which is left. -/
def argumentList (readValue : Count Node) (definition : Bool) (opener : Token) :
    (bound : Nat) → (named : Bool) → Count (List Node × List Node)
  | 0, _ => lift (fail (.neverClosed opener.value) opener.span)
  | bound + 1, named => do
    let s ← lift get
    let t := s.current
    if t.kind == .rightParen then return ([], [])
    else if t.kind == .eof || t.kind == .rightBracket || t.kind == .rightBrace then
      lift (fail (.neverClosed opener.value) opener.span)
    else if t.kind == .identifier && (s.peek 1).kind == .assign then
      let argument ← keywordArgument readValue
      lift (argumentSeparator opener)
      let (positional, keyword) ← argumentList readValue definition opener bound true
      return (positional, argument :: keyword)
    else if named then lift (fail .positionalAfterKeyword t.span)
    else
      let argument ← if definition then lift (leafOf .identifier .identifier) else readValue
      lift (argumentSeparator opener)
      let (positional, keyword) ← argumentList readValue definition opener bound false
      return (argument :: positional, keyword)

/-- Reads arguments and the closing parenthesis. -/
def arguments (readValue : Count Node) (definition : Bool) (opener : Token) :
    Count (Node × Node) := do
  if definition then lift skipLeadingComma
  let (positional, keyword) ←
    argumentList readValue definition opener (← lift tokensLeft) false
  let closer ← lift advance
  return (.spanning .positionalArgs opener.place closer.stop positional,
    .spanning .keywordArgs opener.place closer.stop keyword)

/-- Reads the arguments of a call of `target`. -/
def call (R : Inner) (target : Node) : Count Node := do
  let opener ← lift (expect [.leftParen])
  let (positional, keyword) ← nested opener (arguments (R.expression 1 false) false opener)
  lift (node .call target.place [target, positional, keyword]
    [(.fnName, [0]), (.posArgs, [1]), (.keywordArgs, [2])])

/-! ### Matrices -/

/-- Reads the elements of a row. -/
def rowElements (R : Inner) : (bound : Nat) → Count (List Node)
  | 0 => return []
  | bound + 1 => do
    if endsRow (← lift current).kind then return []
    let element ← R.expression 1 true
    lift (discard (accept [.comma]))
    return element :: (← rowElements R bound)

/-- Reads the rows of a matrix and the closing bracket. -/
def rows (R : Inner) (opener : Token) : (bound : Nat) → Count (List Node)
  | 0 => do lift (fail .emptyRow (← lift current).span)
  | bound + 1 => do
    let first ← lift current
    let elements ← rowElements R (← lift tokensLeft)
    match elements.getLast? with
    | none => lift (fail .emptyRow first.span)
    | some last =>
      if (← lift current).kind == .semicolon then
        lift (discard advance)
        let row ← lift (node .matrixRow first.place elements)
        return row :: (← rows R opener bound)
      else
        lift (discard (close opener))
        return [.spanning .lastRow first.place last.stop elements]

/-- Reads a matrix. -/
def matrix (R : Inner) : Count Node := do
  let opener ← lift (expect [.leftBracket])
  let children ← nested opener do
    rows R opener (← lift tokensLeft)
  lift (node .matrix opener.place children)

/-! ### Strings -/

/-- Reads the expression of a formatting snippet with a strict reader of its own, which
counts the levels from here on and no loops. -/
def snippetExpression (R : Inner) (seg : Segment Token) (tokens : List Token) :
    Count Node := do
  lift (note (.snippetParsed seg.line seg.col))
  let inner := Parser.ofTokens tokens
  lift (modify fun s => { s with trivia := s.trivia ++ inner.trivia })
  if inner.current.kind == .eof then lift (fail .emptySnippet seg.span)
  let k ← counters
  apart { k with strict := true, loops := 0 } inner do
    let e ← anyExpression R
    let t ← lift current
    if t.kind != .eof then lift (fail (.leftoverInSnippet (.of t)) t.span)
    return e

/-- The node of one segment of a string. -/
def segmentNode (R : Inner) (seg : Segment Token) : Count Node := do
  let place := segmentPlace seg
  match seg.form with
  | .unicode digits =>
    let child : Node :=
      { kind := .hexDigits, value := some digits, line := seg.line, col := seg.col + 2
        start := seg.stop - digits.length, stop := seg.stop }
    return .spanning .unicodeEscape place seg.stop [child] [(.hexDigits, [0])] (some seg.text)
  | .snippet tokens =>
    let e ← snippetExpression R seg tokens
    return .spanning .snippet place seg.stop [e] [(.formattingExpr, [0])]
  | form => return .spanning (segmentKind form) place seg.stop [] [] (some seg.text)

/-- Reads a string. -/
def string (R : Inner) : Count Node := do
  let t ← lift (expect [.string])
  let chars ← t.segments.mapM (segmentNode R)
  return .spanning .string t.place t.stop chars
    [(.stringChars, List.range chars.length)]

/-! ### Operands -/

/-- Reads a name and, if a parenthesis follows, the call. -/
def nameOrCall (R : Inner) (inMatrix : Bool) : Count Node := do
  let target ← lift (memberAccess inMatrix)
  let t ← lift current
  if t.kind == .leftParen && !(inMatrix && t.spaced) then call R target
  else return target

/-- Reads an operand without its prefix and suffix operators. -/
def primary (R : Inner) (inMatrix : Bool) : Count Node := do
  let s ← lift get
  match s.current.kind with
  | .leftBracket => matrix R
  | .leftParen => bracketed R
  | .identifier => nameOrCall R inMatrix
  | .number => if (s.peek 1).kind == .ellipsis then lift range else lift number
  | .string => string R
  | _ => lift (fail (.expectedExpression (.of s.current)) s.current.span)

/-- Takes the suffix operators directly behind an operand. -/
def suffixes : (bound : Nat) → Node → Count Node
  | 0, operand => return operand
  | bound + 1, operand => do
    let t ← lift current
    if t.kind.isSuffix && !t.spaced then
      lift (discard advance)
      let n ← lift (node .suffix operand.place [operand, .leaf .operator t]
        [(.operand, [0]), (.operator, [1])])
      bounded n t
      suffixes bound n
    else return operand

/-- Reads an operand with its suffix operators. -/
def suffix (R : Inner) (inMatrix : Bool) : Count Node := do
  let operand ← primary R inMatrix
  suffixes (← lift tokensLeft) operand

/-- Reads an operand with its prefix and suffix operators. -/
def unary (R : Inner) (inMatrix : Bool) : Count Node := do
  let t ← lift current
  if t.kind.isUnary then
    lift (discard advance)
    let operand ← nested t (R.unary inMatrix)
    return .spanning .unary t.place operand.stop [.leaf .operator t, operand]
      [(.unaryOp, [0]), (.operand, [1])]
  else suffix R inMatrix

/-! ### Statements -/

/-- Reads a statement; unless the reader is strict, an error is recovered from. -/
def attempt (inBlock : Bool) (readOne : Count Node) : Count Node := fun s =>
  match readOne s with
  | .ok n t => .ok n t
  | .error e t =>
    if t.counters.strict then .error e t
    else
      let (n, p) := recover inBlock s.parser.current s.parser.position e t.parser
      .ok n { t with parser := p }

/-- Reads statements up to the token `closer`, which is left, or to the end. -/
def statements (readOne : Count Node) (closer : Option TokenKind) :
    (bound : Nat) → Count (List Node)
  | 0 => return []
  | bound + 1 => do
    let t ← lift current
    if t.kind.isSeparator then
      lift (discard advance)
      statements readOne closer bound
    else if t.kind == .eof || closer == some t.kind then return []
    else
      let n ← attempt closer.isSome readOne
      return n :: (← statements readOne closer bound)

/-- Reads statements in braces. -/
def block (R : Inner) : Count Node := do
  let opener ← lift current
  if opener.kind != .leftBrace then
    lift (fail (.expectedBlock (.of opener)) opener.span)
  lift (discard advance)
  let children ← nested opener do
    let children ← statements R.statement (some .rightBrace) (← lift tokensLeft)
    lift (discard (close opener))
    return children
  lift (node .block opener.place children)

/-- Reads the body of a loop, within one loop more. -/
def loopBody (R : Inner) : Count Node := do
  recount fun k => { k with loops := k.loops + 1 }
  ensuring (block R) fun k => { k with loops := k.loops - 1 }

/-- Reads the body of a function. The loops around it do not reach into it. -/
def functionBody (R : Inner) : Count Node := do
  let saved := (← counters).loops
  recount fun k => { k with loops := 0 }
  ensuring (block R) fun k => { k with loops := saved }

/-- Reads `name = expression`. -/
def assignment (R : Inner) : Count Node := do
  let name ← lift (leafOf .identifier .identifier)
  lift (discard (expect [.assign]))
  let e ← anyExpression R
  let mark ← lift semicolon
  lift (node .assignment name.place [name, e] [(.assignName, [0]), (.assignExpr, [1])] mark)

/-- Reads an expression that stands as a statement. -/
def expressionStatement (R : Inner) : Count Node := do
  let e ← anyExpression R
  let mark ← lift semicolon
  lift (node .expressionStatement e.place [e] [] mark)

/-- Reads `elseif` and `else` clauses. -/
def clauses (R : Inner) : (bound : Nat) → (seenElse : Bool) → Count (List Node)
  | 0, _ => return []
  | bound + 1, seenElse => do
    let s ← lift get
    match s.significant.kind with
    | .kwElseif =>
      lift (set (s.forward (s.rest.takeWhile (·.kind == .newline)).length))
      let t ← lift advance
      if seenElse then lift (fail .elseifAfterElse t.span)
      let condition ← anyExpression R
      let body ← block R
      let clause ← lift (node .elseifClause t.place [condition, body]
        [(.condition, [0]), (.body, [1])])
      return clause :: (← clauses R bound seenElse)
    | .kwElse =>
      lift (set (s.forward (s.rest.takeWhile (·.kind == .newline)).length))
      let t ← lift advance
      if seenElse then lift (fail .secondElse t.span)
      let body ← block R
      let clause ← lift (node .elseClause t.place [body] [(.body, [0])])
      return clause :: (← clauses R bound true)
    | _ => return []

/-- Reads `if` with its clauses. -/
def ifStatement (R : Inner) : Count Node := do
  let t ← lift (expect [.kwIf])
  let condition ← anyExpression R
  let body ← block R
  let more ← clauses R (← lift tokensLeft) false
  lift (node .ifStatement t.place (condition :: body :: more)
    [(.condition, [0]), (.body, [1])])

/-- Reads `while condition { ... }`. -/
def whileLoop (R : Inner) : Count Node := do
  let t ← lift (expect [.kwWhile])
  let condition ← anyExpression R
  let body ← loopBody R
  lift (node .whileLoop t.place [condition, body] [(.loopExpr, [0]), (.loopBody, [1])])

/-- Reads `for name in expression { ... }`. -/
def forLoop (R : Inner) : Count Node := do
  let t ← lift (expect [.kwFor])
  let name ← lift (leafOf .identifier .identifier)
  lift (discard (expect [.kwIn]))
  let e ← anyExpression R
  let body ← loopBody R
  lift (node .forLoop t.place [name, e, body]
    [(.loopVar, [0]), (.loopExpr, [1]), (.loopBody, [2])])

/-- Reads `break` or `cont`, which must stand within a loop. -/
def loopControl : Count Node := do
  lift (Grammar.loopControl (← counters).loops)

/-- Reads `ret expression`. -/
def returnStatement (R : Inner) : Count Node := do
  let t ← lift (expect [.kwRet])
  let e ← anyExpression R
  lift (node .returnStatement t.place [e] [(.retExpr, [0])])

/-- Reads `fn name(arguments) { ... }`. -/
def functionDefinition (R : Inner) : Count Node := do
  let t ← lift (expect [.kwFn])
  let name ← lift (leafOf .identifier .identifier)
  let opener ← lift (expect [.leftParen])
  let (positional, keyword) ← arguments (anyExpression R) true opener
  let body ← functionBody R
  lift (node .functionDefinition t.place [name, positional, keyword, body]
    [(.fnName, [0]), (.posArgs, [1]), (.keywordArgs, [2]), (.fnBody, [3])])

/-- Reads one statement. -/
def statement (R : Inner) : Count Node := do
  let s ← lift get
  let t := s.current
  match t.kind with
  | .comment => lift (tokenStatement .comment)
  | .kwSym => lift symbolDeclaration
  | .kwIf => ifStatement R
  | .kwWhile => whileLoop R
  | .kwFor => forLoop R
  | .kwFn => functionDefinition R
  | .kwImport => lift importStatement
  | .kwRet => returnStatement R
  | .kwBreak | .kwCont => loopControl
  | .kwExit => lift (tokenStatement .exitStatement)
  | .rightParen | .rightBracket | .rightBrace => lift (fail (.unmatchedCloser t.value) t.span)
  | .kwElse | .kwElseif => lift (fail (.strayBranch t.value) t.span)
  | .identifier =>
    if (s.peek 1).kind == .assign then assignment R else expressionStatement R
  | _ => expressionStatement R

/-- Reads a whole program. -/
def program (R : Inner) : Count Node := do
  let k ← counters
  lift do note (.parsingStarted (← get).count k.strict)
  let children ← statements (statement R) none (← lift tokensLeft)
  let stop := (← lift current).stop
  return .spanning .sourceFile ⟨1, 1, 0⟩ stop children

/-! ### Calls -/

/-- What a descent finds where no level is left. It is refused before. -/
def exhausted : Count Node := do
  lift (fail (.nestingTooDeep (← counters).limit) (← lift current).span)

/-- What is read one level further in, where `allowance` levels may be entered. -/
def readers : (allowance : Nat) → Inner
  | 0 => ⟨fun _ _ => exhausted, fun _ => exhausted, exhausted⟩
  | n + 1 => ⟨expression (readers n), unary (readers n), statement (readers n)⟩

end Count

/-- What a reader can be asked to read. -/
inductive Call where
  | program
  | statement
  | block
  /-- An expression of binary operators of level `least` and above. -/
  | expression (least : Int) (inMatrix : Bool)
  | unary (inMatrix : Bool)
  | suffix (inMatrix : Bool)
  | primary (inMatrix : Bool)
  | memberAccess (inMatrix : Bool)
deriving DecidableEq, Repr

namespace Call

/-- Reads what is asked for. -/
def run (c : Call) : Count Node := do
  let k ← Count.counters
  let R := Count.readers (k.limit - k.depth).toNat
  match c with
  | program => Count.program R
  | statement => Count.statement R
  | block => Count.block R
  | expression least inMatrix => Count.expression R least.toNat inMatrix
  | unary inMatrix => Count.unary R inMatrix
  | suffix inMatrix => Count.suffix R inMatrix
  | primary inMatrix => Count.primary R inMatrix
  | memberAccess inMatrix => Count.lift (Grammar.memberAccess inMatrix)

end Call

end StpLang
