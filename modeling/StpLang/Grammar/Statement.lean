import StpLang.Grammar.Expression

/-!
Statements and programs.

A statement is chosen by its first token. Statements are separated by line ends
and semicolons. When a statement cannot be read, a strict reader fails; another
one notes the error, passes over the rest of the statement and puts a node in
its place that stands for the error.

* `statement` reads one statement.
* `statements` reads statements up to a closing brace or the end.
* `recover` passes over a broken statement.
* `derive` ties the grammar together, level by level.
* `program` reads a whole program.
-/

namespace StpLang

namespace Grammar

open Parse

/-! ### Recovery -/

/-- How many tokens belong to the rest of a broken statement: those up to a
separator outside braces, to the end, or `inBlock` to the closing brace of the
block. `braces` counts the braces opened on the way. -/
def brokenLength (inBlock : Bool) : (braces : Nat) → List Token → Nat
  | _, [] => 0
  | braces, t :: ts =>
    match t.kind with
    | .eof => 0
    | .newline | .semicolon =>
      if braces = 0 then 0 else brokenLength inBlock braces ts + 1
    | .leftBrace => brokenLength inBlock (braces + 1) ts + 1
    | .rightBrace =>
      if braces = 0 && inBlock then 0 else brokenLength inBlock (braces - 1) ts + 1
    | _ => brokenLength inBlock braces ts + 1

/-- Notes the error `e` of the statement that began with the token `first` at a
position, and passes over what is left of it, at least that token. The node
stands for the statement. -/
def recover (inBlock : Bool) (first : Token) (position : Nat) (e : Error) (s : Parser) :
    Node × Parser :=
  let s := { s with errors := s.errors ++ [e], trace := .recovering e :: s.trace }
  let s := s.forward (brokenLength inBlock 0 s.rest)
  let s := if s.position = position && first.kind != .eof then s.step else s
  (.spanning .error first.place (max s.previous.stop first.stop) [] [] (some e.message), s)

/-- Reads a statement; unless `strict`, an error is recovered from. -/
def attempt (strict inBlock : Bool) (readOne : Parse Node) : Parse Node := fun s =>
  match readOne s with
  | .ok n t => .ok n t
  | .error e t =>
    if strict then .error e t
    else
      let (n, t) := recover inBlock s.current s.position e t
      .ok n t

/-- Reads statements up to the token `closer`, which is left, or to the end. -/
def statements (strict : Bool) (readOne : Parse Node) (closer : Option TokenKind) :
    (bound : Nat) → Parse (List Node)
  | 0 => return []
  | bound + 1 => do
    let t ← current
    if t.kind.isSeparator then
      discard advance
      statements strict readOne closer bound
    else if t.kind == .eof || closer == some t.kind then return []
    else
      let n ← attempt strict closer.isSome readOne
      return n :: (← statements strict readOne closer bound)

/-! ### Blocks -/

/-- Reads statements in braces, within `loops` loops. -/
def block (L : Level) (loops : Nat) : Parse Node := do
  let opener ← current
  if opener.kind != .leftBrace then
    fail (.expectedBlock (.of opener)) opener.span
  discard advance
  let children ← nested L opener fun read => do
    let children ←
      statements L.strict (read (.statement loops)) (some .rightBrace) (← tokensLeft)
    discard (close opener)
    return children
  node .block opener.place children

/-! ### Single statements -/

/-- Reads a semicolon that ends a statement, and gives its text. -/
def semicolon : Parse (Option String) :=
  return (← accept [.semicolon]).map (·.value)

/-- Reads `name = expression`. -/
def assignment (L : Level) : Parse Node := do
  let name ← leafOf .identifier .identifier
  discard (expect [.assign])
  let e ← anyExpression L
  let mark ← semicolon
  node .assignment name.place [name, e] [(.assignName, [0]), (.assignExpr, [1])] mark

/-- Reads an expression that stands as a statement. -/
def expressionStatement (L : Level) : Parse Node := do
  let e ← anyExpression L
  let mark ← semicolon
  node .expressionStatement e.place [e] [] mark

/-- Reads `sym name`. -/
def symbolDeclaration : Parse Node := do
  let t ← expect [.kwSym]
  let name ← leafOf .identifier .identifier
  node .symbolDeclaration t.place [name] [(.symName, [0])]

/-- Reads `elseif` and `else` clauses, at most one `else` and nothing behind
it. Line ends before a clause are passed over. -/
def clauses (L : Level) (loops : Nat) :
    (bound : Nat) → (seenElse : Bool) → Parse (List Node)
  | 0, _ => return []
  | bound + 1, seenElse => do
    let s ← get
    match s.significant.kind with
    | .kwElseif =>
      set (s.forward (s.rest.takeWhile (·.kind == .newline)).length)
      let t ← advance
      if seenElse then fail .elseifAfterElse t.span
      let condition ← anyExpression L
      let body ← block L loops
      let clause ← node .elseifClause t.place [condition, body]
        [(.condition, [0]), (.body, [1])]
      return clause :: (← clauses L loops bound seenElse)
    | .kwElse =>
      set (s.forward (s.rest.takeWhile (·.kind == .newline)).length)
      let t ← advance
      if seenElse then fail .secondElse t.span
      let body ← block L loops
      let clause ← node .elseClause t.place [body] [(.body, [0])]
      return clause :: (← clauses L loops bound true)
    | _ => return []

/-- Reads `if` with its clauses. -/
def ifStatement (L : Level) (loops : Nat) : Parse Node := do
  let t ← expect [.kwIf]
  let condition ← anyExpression L
  let body ← block L loops
  let more ← clauses L loops (← tokensLeft) false
  node .ifStatement t.place (condition :: body :: more)
    [(.condition, [0]), (.body, [1])]

/-- Reads `while condition { ... }`. -/
def whileLoop (L : Level) (loops : Nat) : Parse Node := do
  let t ← expect [.kwWhile]
  let condition ← anyExpression L
  let body ← block L (loops + 1)
  node .whileLoop t.place [condition, body] [(.loopExpr, [0]), (.loopBody, [1])]

/-- Reads `for name in expression { ... }`. -/
def forLoop (L : Level) (loops : Nat) : Parse Node := do
  let t ← expect [.kwFor]
  let name ← leafOf .identifier .identifier
  discard (expect [.kwIn])
  let e ← anyExpression L
  let body ← block L (loops + 1)
  node .forLoop t.place [name, e, body]
    [(.loopVar, [0]), (.loopExpr, [1]), (.loopBody, [2])]

/-- Reads `break` or `cont`, which must stand within a loop. -/
def loopControl (loops : Nat) : Parse Node := do
  let t ← advance
  if loops = 0 then fail (.outsideLoop t.value) t.span
  return .leaf (.ofName t.value) t

/-- Reads `ret expression`. -/
def returnStatement (L : Level) : Parse Node := do
  let t ← expect [.kwRet]
  let e ← anyExpression L
  node .returnStatement t.place [e] [(.retExpr, [0])]

/-- Reads `import name.name`. -/
def importStatement : Parse Node := do
  let t ← expect [.kwImport]
  let first ← current
  if first.kind != .identifier then fail (.expectedModule (.of first)) first.span
  let name ← memberAccess false
  node .importStatement t.place [name] [(.moduleName, [0])]

/-- Reads `fn name(arguments) { ... }`. Loops around a definition do not reach
into it. -/
def functionDefinition (L : Level) : Parse Node := do
  let t ← expect [.kwFn]
  let name ← leafOf .identifier .identifier
  let opener ← expect [.leftParen]
  let (positional, keyword) ← arguments (anyExpression L) true opener
  let body ← block L 0
  node .functionDefinition t.place [name, positional, keyword, body]
    [(.fnName, [0]), (.posArgs, [1]), (.keywordArgs, [2]), (.fnBody, [3])]

/-- Reads a token as a statement of its own. -/
def tokenStatement (kind : Kind) : Parse Node := return .leaf kind (← advance)

/-- Reads one statement within `loops` loops of the same function. -/
def statement (L : Level) (loops : Nat) : Parse Node := do
  let s ← get
  let t := s.current
  match t.kind with
  | .comment => tokenStatement .comment
  | .kwSym => symbolDeclaration
  | .kwIf => ifStatement L loops
  | .kwWhile => whileLoop L loops
  | .kwFor => forLoop L loops
  | .kwFn => functionDefinition L
  | .kwImport => importStatement
  | .kwRet => returnStatement L
  | .kwBreak | .kwCont => loopControl loops
  | .kwExit => tokenStatement .exitStatement
  | .rightParen | .rightBracket | .rightBrace => fail (.unmatchedCloser t.value) t.span
  | .kwElse | .kwElseif => fail (.strayBranch t.value) t.span
  | .identifier =>
    if (s.peek 1).kind == .assign then assignment L else expressionStatement L
  | _ => expressionStatement L

/-! ### The whole grammar -/

/-- Reads a nonterminal at a level. -/
def produce (L : Level) : Nonterminal → Parse Node
  | .expression least inMatrix => expression L least inMatrix
  | .unary inMatrix => unary L inMatrix
  | .statement loops => statement L loops

/-- Reads a nonterminal where `allowance` levels may still be entered. -/
def derive (limit : Int) (strict : Bool) : (allowance : Nat) → Nonterminal → Parse Node
  | 0, t => fun s => produce ⟨limit, strict, 0, none⟩ t s
  | n + 1, t => fun s => produce ⟨limit, strict, n + 1, some (derive limit strict n)⟩ t s

/-- The level where `allowance` levels may still be entered. -/
def level (limit : Int) (strict : Bool) : (allowance : Nat) → Level
  | 0 => ⟨limit, strict, 0, none⟩
  | n + 1 => ⟨limit, strict, n + 1, some (derive limit strict n)⟩

/-- The level at a depth below the limit. -/
def levelAt (limit : Int) (strict : Bool) (depth : Int) : Level :=
  level limit strict (limit - depth).toNat

/-- Reads a whole program, within `loops` loops. -/
def program (L : Level) (loops : Nat) : Parse Node := do
  note (.parsingStarted (← get).count L.strict)
  let children ← statements L.strict (statement L loops) none (← tokensLeft)
  let stop := (← current).stop
  return .spanning .sourceFile ⟨1, 1, 0⟩ stop children

end Grammar

end StpLang
