import Mathlib.Tactic.Lemma
import StpLang.Grammar.Statement

/-!
The grammar as a relation.

`Derives` says which tokens form a phrase, what may follow them and which nodes
the phrase becomes, without a reader that moves. Its rules are those of the
grammar; where the grammar takes as much as it can, the rule that ends a phrase
says what must not follow.

* `Phrase` lists the phrases, `Derives` the rules.
* `Derives.first` tells with which tokens a phrase begins.
-/

namespace StpLang

open Grammar

/-! ### Looking ahead -/

/-- The kind of the first token; behind the last one stands an end mark. -/
def headKind : List Token → TokenKind
  | [] => .eof
  | t :: _ => t.kind

@[simp] lemma headKind_cons (t : Token) (ts : List Token) : headKind (t :: ts) = t.kind := rfl

/-- White space precedes the first token. -/
def headSpaced : List Token → Bool
  | [] => false
  | t :: _ => t.spaced

/-- The kind of the first token that is not a line end. -/
def clauseKind (ts : List Token) : TokenKind :=
  headKind (ts.dropWhile (·.kind == .newline))

/-- Where the last of some tokens ends. -/
def lastStop (ts : List Token) : Nat := (ts.getLast?.map (·.stop)).getD 0

/-- A sign ahead begins an element of a matrix row. -/
def signAhead : List Token → Bool
  | [] => false
  | t :: ts =>
    (t.kind == .plus || t.kind == .minus) && t.spaced && !headSpaced ts
      && headKind ts != .eof && headKind ts != .rightBracket

/-- A binary operator of level `least` or above is ahead. -/
def operatorAhead (least : Nat) (inMatrix : Bool) (ts : List Token) : Bool :=
  match (headKind ts).binary? with
  | none => false
  | some (level, _) => !(level < least || (inMatrix && signAhead ts))

/-- A suffix operator is directly ahead. -/
def suffixAhead (ts : List Token) : Bool := (headKind ts).isSuffix && !headSpaced ts

/-- The dot before a further name is ahead. -/
def dotAhead (inMatrix : Bool) (ts : List Token) : Bool :=
  headKind ts == .dot && !(inMatrix && headSpaced ts)

/-- The parenthesis of a call is ahead. -/
def callAhead (inMatrix : Bool) (ts : List Token) : Bool :=
  headKind ts == .leftParen && !(inMatrix && headSpaced ts)

/-- The percent sign of a percentage is ahead. -/
def percentAhead (ts : List Token) : Bool := headKind ts == .percent && !headSpaced ts

/-- A name and an equals sign are ahead. -/
def bindingAhead (ts : List Token) : Bool :=
  headKind ts == .identifier && headKind ts.tail == .assign

/-- A clause of an `if` is ahead, perhaps behind line ends. -/
def clauseAhead (ts : List Token) : Bool :=
  clauseKind ts == .kwElseif || clauseKind ts == .kwElse

/-! ### Nodes -/

/-- The node of a name, or of several joined by dots. -/
def memberNode (first : Token) (stop : Nat) (more : List Node) : Node :=
  .spanning .memberAccess first.place stop (.leaf .identifier first :: more) []
    (some (Text.join "." ((Node.leaf .identifier first :: more).map (·.value.getD ""))))

/-- The node of a prefix operator and its operand. -/
def prefixNode (op : Token) (operand : Node) : Node :=
  .spanning .unary op.place operand.stop [.leaf .operator op, operand]
    [(.unaryOp, [0]), (.operand, [1])]

/-- The node of a suffix operator and its operand. -/
def suffixNode (operand : Node) (op : Token) : Node :=
  .spanning .suffix operand.place op.stop [operand, .leaf .operator op]
    [(.operand, [0]), (.operator, [1])]

/-- The node of a named argument. -/
def keywordNode (name : Token) (stop : Nat) (value : Node) : Node :=
  .spanning .keywordArg name.place stop [.leaf .identifier name, value]
    [(.argumentName, [0]), (.argumentValue, [1])]

/-- The node of the arguments between two parentheses. -/
def argumentsNode (kind : Kind) (opener closer : Token) (arguments : List Node) : Node :=
  .spanning kind opener.place closer.stop arguments

/-- The node of a call. -/
def callNode (target : Node) (opener closer : Token) (positional keyword : List Node) : Node :=
  .spanning .call target.place closer.stop
    [target, argumentsNode .positionalArgs opener closer positional,
      argumentsNode .keywordArgs opener closer keyword]
    [(.fnName, [0]), (.posArgs, [1]), (.keywordArgs, [2])]

/-- The node of a string. -/
def stringNode (t : Token) (chars : List Node) : Node :=
  .spanning .string t.place t.stop chars [(.stringChars, List.range chars.length)]

/-- The node of a piece of a string that holds no expression. -/
def plainSegment (seg : Segment Token) : Node :=
  match seg.form with
  | .unicode digits =>
    .spanning .unicodeEscape (segmentPlace seg) seg.stop
      [{ kind := .hexDigits, value := some digits, line := seg.line, col := seg.col + 2
         start := seg.stop - digits.length, stop := seg.stop }]
      [(.hexDigits, [0])] (some seg.text)
  | form => .spanning (segmentKind form) (segmentPlace seg) seg.stop [] [] (some seg.text)

/-- The node of a formatting snippet. -/
def snippetNode (seg : Segment Token) (e : Node) : Node :=
  .spanning .snippet (segmentPlace seg) seg.stop [e] [(.formattingExpr, [0])]

/-! ### Rules -/

/-- The forms of arguments. -/
inductive ArgumentForm where
  /-- An expression. -/
  | value
  /-- A plain name, in a definition. -/
  | parameter
  /-- A name and an expression. -/
  | keyword
deriving DecidableEq, Repr

/-- The phrases of the grammar. -/
inductive Phrase where
  /-- An expression of binary operators of level `least` and above. -/
  | expression (least : Nat) (inMatrix : Bool)
  /-- Binary operators and their right operands behind `lhs`. -/
  | operators (least : Nat) (inMatrix : Bool) (lhs : Node)
  /-- An operand with its prefix and suffix operators. -/
  | unary (inMatrix : Bool)
  /-- The suffix operators behind an operand. -/
  | suffixes (operand : Node)
  /-- An operand without its prefix and suffix operators. -/
  | primary (inMatrix : Bool)
  /-- A name, or several joined by dots. -/
  | name (inMatrix : Bool)
  /-- The dots and names behind the first name. -/
  | members (inMatrix : Bool)
  /-- An argument. -/
  | argument (form : ArgumentForm)
  /-- Arguments of one form with their commas, up to the closing parenthesis or
  the first named one. -/
  | arguments (form : ArgumentForm)
  /-- The elements of a matrix row. -/
  | elements
  /-- The rows of a matrix, without the closing bracket. -/
  | rows
  /-- The pieces of a string. -/
  | segments (segs : List (Segment Token))
  /-- A statement within `loops` loops. -/
  | statement (loops : Nat)
  /-- Statements up to the end, or in a block to its closing brace. -/
  | statements (loops : Nat) (inBlock : Bool)
  /-- Statements in braces. -/
  | block (loops : Nat)
  /-- The clauses behind the first block of an `if`. -/
  | clauses (loops : Nat) (seenElse : Bool)

/-- The semicolon that may end a statement. -/
inductive Mark : List Token → List Token → Option String → Prop
  | none {k : List Token} (h : headKind k ≠ .semicolon) : Mark [] k none
  | semicolon {t : Token} {k : List Token} (h : t.kind = .semicolon) : Mark [t] k (some t.value)

/-- The comma that may open a list of named parameters. -/
inductive LeadingComma : List Token → List Token → Prop
  | none {k : List Token} : LeadingComma [] k
  | comma {t : Token} {k : List Token} (h : t.kind = .comma) (hk : bindingAhead k = true) :
      LeadingComma [t] k

/-- Where `allowance` levels may still be entered, the tokens `ts` before the
tokens `k` form a phrase that becomes the nodes `ns`. -/
inductive Derives : (allowance : Nat) → Phrase → (ts k : List Token) → (ns : List Node) → Prop
  -- binary operators
  | expression {a least : Nat} {m : Bool} {ts us k : List Token} {lhs n : Node}
      (hl : Derives a (.unary m) ts (us ++ k) [lhs])
      (ho : Derives (a + 1) (.operators least m lhs) us k [n]) :
      Derives (a + 1) (.expression least m) (ts ++ us) k [n]
  | operatorsEnd {a least : Nat} {m : Bool} {k : List Token} {lhs : Node}
      (h : operatorAhead least m k = false) :
      Derives (a + 1) (.operators least m lhs) [] k [lhs]
  | operatorsMore {a least : Nat} {m : Bool} {op : Token} {ts us k : List Token}
      {lhs rhs n : Node} {level : Nat} {assoc : Assoc}
      (hop : op.kind.binary? = some (level, assoc))
      (h : operatorAhead least m (op :: (ts ++ us ++ k)) = true)
      (hr : Derives a (.expression (rightLevel level assoc) m) ts (us ++ k) [rhs])
      (hh : (binaryNode lhs op rhs).height ≤ a)
      (ho : Derives (a + 1) (.operators least m (binaryNode lhs op rhs)) us k [n]) :
      Derives (a + 1) (.operators least m lhs) (op :: (ts ++ us)) k [n]
  -- prefix and suffix operators
  | unaryPrefix {a : Nat} {m : Bool} {op : Token} {ts k : List Token} {n : Node}
      (hop : op.kind.isUnary = true) (h : Derives a (.unary m) ts k [n]) :
      Derives (a + 1) (.unary m) (op :: ts) k [prefixNode op n]
  | unaryPlain {a : Nat} {m : Bool} {ts us k : List Token} {operand n : Node}
      (hp : Derives a (.primary m) ts (us ++ k) [operand])
      (hs : Derives a (.suffixes operand) us k [n]) : Derives a (.unary m) (ts ++ us) k [n]
  | suffixesEnd {a : Nat} {k : List Token} {operand : Node} (h : suffixAhead k = false) :
      Derives a (.suffixes operand) [] k [operand]
  | suffixesMore {a : Nat} {op : Token} {ts k : List Token} {operand n : Node}
      (hop : suffixAhead [op] = true) (hh : (suffixNode operand op).height ≤ a)
      (h : Derives a (.suffixes (suffixNode operand op)) ts k [n]) :
      Derives a (.suffixes operand) (op :: ts) k [n]
  -- operands
  | matrix {b : Nat} {m : Bool} {opener closer : Token} {ts k : List Token} {ns : List Node}
      (ho : opener.kind = .leftBracket) (h : Derives b .rows ts (closer :: k) ns)
      (hc : closer.kind = .rightBracket) :
      Derives (b + 1) (.primary m) (opener :: (ts ++ [closer])) k
        [.spanning .matrix opener.place closer.stop ns]
  | bracketed {a : Nat} {m : Bool} {opener closer : Token} {ts k : List Token} {n : Node}
      (ho : opener.kind = .leftParen)
      (h : Derives a (.expression 1 false) ts (closer :: k) [n])
      (hc : closer.kind = .rightParen) :
      Derives a (.primary m) (opener :: (ts ++ [closer])) k
        [.spanning .bracketed opener.place closer.stop [n]]
  | plainName {a : Nat} {m : Bool} {ts k : List Token} {n : Node}
      (h : Derives a (.name m) ts k [n]) (hk : callAhead m k = false) :
      Derives a (.primary m) ts k [n]
  | call {b : Nat} {m : Bool} {opener closer : Token} {ts us vs k : List Token} {n : Node}
      {xs ys : List Node}
      (hn : Derives (b + 1) (.name m) ts (opener :: (us ++ (vs ++ closer :: k))) [n])
      (ho : callAhead m [opener] = true)
      (hx : Derives b (.arguments .value) us (vs ++ closer :: k) xs)
      (hy : Derives b (.arguments .keyword) vs (closer :: k) ys)
      (hc : closer.kind = .rightParen) :
      Derives (b + 1) (.primary m) (ts ++ opener :: (us ++ (vs ++ [closer]))) k
        [callNode n opener closer xs ys]
  | rangeOfTwo {a : Nat} {m : Bool} {x d y : Token} {k : List Token} (hx : x.kind = .number)
      (hd : d.kind = .ellipsis) (hy : y.kind = .number) (hk : headKind k ≠ .ellipsis) :
      Derives a (.primary m) [x, d, y] k
        [.spanning .range x.place y.stop [.leaf .number x, .leaf .number y]
          [(.start, [0]), (.stop, [1])]]
  | rangeOfThree {a : Nat} {m : Bool} {x d y e z : Token} {k : List Token}
      (hx : x.kind = .number) (hd : d.kind = .ellipsis) (hy : y.kind = .number)
      (he : e.kind = .ellipsis) (hz : z.kind = .number) (hk : headKind k ≠ .ellipsis) :
      Derives a (.primary m) [x, d, y, e, z] k
        [.spanning .range x.place z.stop [.leaf .number x, .leaf .number y, .leaf .number z]
          [(.start, [0]), (.step, [1]), (.stop, [2])]]
  | number {a : Nat} {m : Bool} {t : Token} {k : List Token} (ht : t.kind = .number)
      (hk : headKind k ≠ .ellipsis) (hp : percentAhead k = false) :
      Derives a (.primary m) [t] k [.leaf .number t]
  | percentage {a : Nat} {m : Bool} {t sign : Token} {k : List Token} (ht : t.kind = .number)
      (hs : percentAhead [sign] = true) :
      Derives a (.primary m) [t, sign] k
        [.spanning .percentage t.place sign.stop [] [] (some (t.value ++ sign.value))]
  | string {a : Nat} {m : Bool} {t : Token} {k : List Token} {ns : List Node}
      (ht : t.kind = .string) (h : Derives a (.segments t.segments) [] [] ns) :
      Derives a (.primary m) [t] k [stringNode t ns]
  -- names
  | name {a : Nat} {m : Bool} {t : Token} {ts k : List Token} {ns : List Node}
      (ht : t.kind = .identifier) (h : Derives a (.members m) ts k ns) :
      Derives a (.name m) (t :: ts) k [memberNode t (lastStop (t :: ts)) ns]
  | membersEnd {a : Nat} {m : Bool} {k : List Token} (h : dotAhead m k = false) :
      Derives a (.members m) [] k []
  | membersMore {a : Nat} {m : Bool} {d t : Token} {ts k : List Token} {ns : List Node}
      (hd : dotAhead m [d] = true) (ht : t.kind = .identifier)
      (h : Derives a (.members m) ts k ns) :
      Derives a (.members m) (d :: t :: ts) k (.leaf .identifier t :: ns)
  -- arguments
  | argumentValue {a : Nat} {ts k : List Token} {n : Node}
      (h : Derives a (.expression 1 false) ts k [n]) (hb : bindingAhead (ts ++ k) = false) :
      Derives a (.argument .value) ts k [n]
  | argumentName {a : Nat} {t : Token} {k : List Token} (ht : t.kind = .identifier)
      (hb : bindingAhead (t :: k) = false) :
      Derives a (.argument .parameter) [t] k [.leaf .identifier t]
  | argumentKeyword {a : Nat} {t e : Token} {ts k : List Token} {n : Node}
      (ht : t.kind = .identifier) (he : e.kind = .assign)
      (h : Derives a (.expression 1 false) ts k [n]) :
      Derives a (.argument .keyword) (t :: e :: ts) k [keywordNode t (lastStop ts) n]
  | argumentsEnd {a : Nat} {form : ArgumentForm} {k : List Token}
      (h : headKind k = .rightParen ∨ (form ≠ .keyword ∧ bindingAhead k = true)) :
      Derives a (.arguments form) [] k []
  | argumentsLast {a : Nat} {form : ArgumentForm} {ts k : List Token} {n : Node}
      (h : Derives a (.argument form) ts k [n]) (hk : headKind k = .rightParen) :
      Derives a (.arguments form) ts k [n]
  | argumentsMore {a : Nat} {form : ArgumentForm} {c : Token} {ts us k : List Token} {n : Node}
      {ns : List Node} (h : Derives a (.argument form) ts (c :: (us ++ k)) [n])
      (hc : c.kind = .comma) (hk : headKind (us ++ k) ≠ .rightParen)
      (hs : Derives a (.arguments form) us k ns) :
      Derives a (.arguments form) (ts ++ c :: us) k (n :: ns)
  -- matrices
  | elementsEnd {a : Nat} {k : List Token} (h : endsRow (headKind k) = true) :
      Derives a .elements [] k []
  | elementsMore {a : Nat} {ts us k : List Token} {n : Node} {ns : List Node}
      (h : Derives a (.expression 1 true) ts (us ++ k) [n]) (hk : headKind (us ++ k) ≠ .comma)
      (hs : Derives a .elements us k ns) : Derives a .elements (ts ++ us) k (n :: ns)
  | elementsComma {a : Nat} {c : Token} {ts us k : List Token} {n : Node} {ns : List Node}
      (h : Derives a (.expression 1 true) ts (c :: (us ++ k)) [n]) (hc : c.kind = .comma)
      (hs : Derives a .elements us k ns) : Derives a .elements (ts ++ c :: us) k (n :: ns)
  | rowsLast {a : Nat} {t : Token} {ts k : List Token} {last : Node} {ns : List Node}
      (h : Derives a .elements (t :: ts) k ns) (hl : ns.getLast? = some last)
      (hk : headKind k = .rightBracket) :
      Derives a .rows (t :: ts) k [.spanning .lastRow t.place last.stop ns]
  | rowsMore {a : Nat} {t c : Token} {ts us k : List Token} {ns ms : List Node}
      (h : Derives a .elements (t :: ts) (c :: (us ++ k)) ns) (hn : ns ≠ [])
      (hc : c.kind = .semicolon) (hs : Derives a .rows us k ms) :
      Derives a .rows (t :: (ts ++ c :: us)) k (.spanning .matrixRow t.place c.stop ns :: ms)
  -- strings
  | segmentsNil {a : Nat} : Derives a (.segments []) [] [] []
  | segmentsPlain {a : Nat} {seg : Segment Token} {segs : List (Segment Token)} {ns : List Node}
      (hf : ∀ tokens, seg.form ≠ .snippet tokens) (h : Derives a (.segments segs) [] [] ns) :
      Derives a (.segments (seg :: segs)) [] [] (plainSegment seg :: ns)
  | segmentsSnippet {a : Nat} {seg : Segment Token} {segs : List (Segment Token)}
      {tokens ts k : List Token} {n : Node} {ns : List Node} (hf : seg.form = .snippet tokens)
      (hs : (Parser.settle 0 none tokens).1 = ts ++ k)
      (he : Derives a (.expression 1 false) ts k [n]) (hk : headKind k = .eof)
      (h : Derives a (.segments segs) [] [] ns) :
      Derives a (.segments (seg :: segs)) [] [] (snippetNode seg n :: ns)
  -- statements of one token, and simple ones
  | comment {a loops : Nat} {t : Token} {k : List Token} (ht : t.kind = .comment) :
      Derives a (.statement loops) [t] k [.leaf .comment t]
  | exit {a loops : Nat} {t : Token} {k : List Token} (ht : t.kind = .kwExit) :
      Derives a (.statement loops) [t] k [.leaf .exitStatement t]
  | loopControl {a loops : Nat} {t : Token} {k : List Token}
      (ht : t.kind = .kwBreak ∨ t.kind = .kwCont) (hl : loops ≠ 0) :
      Derives a (.statement loops) [t] k [.leaf (.ofName t.value) t]
  | symbolDeclaration {a loops : Nat} {t x : Token} {k : List Token} (ht : t.kind = .kwSym)
      (hx : x.kind = .identifier) :
      Derives a (.statement loops) [t, x] k
        [.spanning .symbolDeclaration t.place x.stop [.leaf .identifier x] [(.symName, [0])]]
  | importStatement {a loops : Nat} {t : Token} {ts k : List Token} {n : Node}
      (ht : t.kind = .kwImport) (h : Derives a (.name false) ts k [n]) :
      Derives a (.statement loops) (t :: ts) k
        [.spanning .importStatement t.place (lastStop ts) [n] [(.moduleName, [0])]]
  | returnStatement {a loops : Nat} {t : Token} {ts k : List Token} {n : Node}
      (ht : t.kind = .kwRet) (h : Derives a (.expression 1 false) ts k [n]) :
      Derives a (.statement loops) (t :: ts) k
        [.spanning .returnStatement t.place (lastStop ts) [n] [(.retExpr, [0])]]
  | assignment {a loops : Nat} {x e : Token} {ts ms k : List Token} {n : Node}
      {mark : Option String} (hx : x.kind = .identifier) (he : e.kind = .assign)
      (h : Derives a (.expression 1 false) ts (ms ++ k) [n]) (hm : Mark ms k mark) :
      Derives a (.statement loops) (x :: e :: (ts ++ ms)) k
        [.spanning .assignment x.place (lastStop (ts ++ ms)) [.leaf .identifier x, n]
          [(.assignName, [0]), (.assignExpr, [1])] mark]
  | expressionStatement {a loops : Nat} {ts ms k : List Token} {n : Node}
      {mark : Option String} (h : Derives a (.expression 1 false) ts (ms ++ k) [n])
      (hb : bindingAhead (ts ++ (ms ++ k)) = false) (hm : Mark ms k mark) :
      Derives a (.statement loops) (ts ++ ms) k
        [.spanning .expressionStatement n.place (lastStop (ts ++ ms)) [n] [] mark]
  -- statements with blocks
  | ifStatement {a loops : Nat} {t : Token} {ts us vs k : List Token} {n body : Node}
      {ns : List Node} (ht : t.kind = .kwIf)
      (h : Derives a (.expression 1 false) ts (us ++ (vs ++ k)) [n])
      (hb : Derives a (.block loops) us (vs ++ k) [body])
      (hc : Derives a (.clauses loops false) vs k ns) :
      Derives a (.statement loops) (t :: (ts ++ (us ++ vs))) k
        [.spanning .ifStatement t.place (lastStop (us ++ vs)) (n :: body :: ns)
          [(.condition, [0]), (.body, [1])]]
  | whileLoop {a loops : Nat} {t : Token} {ts us k : List Token} {n body : Node}
      (ht : t.kind = .kwWhile) (h : Derives a (.expression 1 false) ts (us ++ k) [n])
      (hb : Derives a (.block (loops + 1)) us k [body]) :
      Derives a (.statement loops) (t :: (ts ++ us)) k
        [.spanning .whileLoop t.place (lastStop us) [n, body]
          [(.loopExpr, [0]), (.loopBody, [1])]]
  | forLoop {a loops : Nat} {t x i : Token} {ts us k : List Token} {n body : Node}
      (ht : t.kind = .kwFor) (hx : x.kind = .identifier) (hi : i.kind = .kwIn)
      (h : Derives a (.expression 1 false) ts (us ++ k) [n])
      (hb : Derives a (.block (loops + 1)) us k [body]) :
      Derives a (.statement loops) (t :: x :: i :: (ts ++ us)) k
        [.spanning .forLoop t.place (lastStop us) [.leaf .identifier x, n, body]
          [(.loopVar, [0]), (.loopExpr, [1]), (.loopBody, [2])]]
  | functionDefinition {a loops : Nat} {t x opener closer : Token} {ls us vs ws k : List Token}
      {xs ys : List Node} {body : Node} (ht : t.kind = .kwFn) (hx : x.kind = .identifier)
      (ho : opener.kind = .leftParen) (hl : LeadingComma ls (us ++ (vs ++ closer :: (ws ++ k))))
      (hp : Derives a (.arguments .parameter) us (vs ++ closer :: (ws ++ k)) xs)
      (hy : Derives a (.arguments .keyword) vs (closer :: (ws ++ k)) ys)
      (hc : closer.kind = .rightParen) (hb : Derives a (.block 0) ws k [body]) :
      Derives a (.statement loops)
        (t :: x :: opener :: (ls ++ (us ++ (vs ++ closer :: ws)))) k
        [.spanning .functionDefinition t.place (lastStop ws)
          [.leaf .identifier x, argumentsNode .positionalArgs opener closer xs,
            argumentsNode .keywordArgs opener closer ys, body]
          [(.fnName, [0]), (.posArgs, [1]), (.keywordArgs, [2]), (.fnBody, [3])]]
  -- blocks and sequences
  | block {b loops : Nat} {opener closer : Token} {ts k : List Token} {ns : List Node}
      (ho : opener.kind = .leftBrace) (h : Derives b (.statements loops true) ts (closer :: k) ns)
      (hc : closer.kind = .rightBrace) :
      Derives (b + 1) (.block loops) (opener :: (ts ++ [closer])) k
        [.spanning .block opener.place closer.stop ns]
  | clausesEnd {a loops : Nat} {seenElse : Bool} {k : List Token} (h : clauseAhead k = false) :
      Derives a (.clauses loops seenElse) [] k []
  | clausesElseif {a loops : Nat} {t : Token} {ls ts us vs k : List Token} {n body : Node}
      {ns : List Node} (hl : ∀ l ∈ ls, l.kind = .newline) (ht : t.kind = .kwElseif)
      (h : Derives a (.expression 1 false) ts (us ++ (vs ++ k)) [n])
      (hb : Derives a (.block loops) us (vs ++ k) [body])
      (hc : Derives a (.clauses loops false) vs k ns) :
      Derives a (.clauses loops false) (ls ++ t :: (ts ++ (us ++ vs))) k
        (.spanning .elseifClause t.place (lastStop us) [n, body]
          [(.condition, [0]), (.body, [1])] :: ns)
  | clausesElse {a loops : Nat} {t : Token} {ls us vs k : List Token} {body : Node}
      {ns : List Node} (hl : ∀ l ∈ ls, l.kind = .newline) (ht : t.kind = .kwElse)
      (hb : Derives a (.block loops) us (vs ++ k) [body])
      (hc : Derives a (.clauses loops true) vs k ns) :
      Derives a (.clauses loops false) (ls ++ t :: (us ++ vs)) k
        (.spanning .elseClause t.place (lastStop us) [body] [(.body, [0])] :: ns)
  | statementsEnd {a loops : Nat} {inBlock : Bool} {k : List Token}
      (h : headKind k = .eof ∨ (inBlock = true ∧ headKind k = .rightBrace)) :
      Derives a (.statements loops inBlock) [] k []
  | statementsSeparator {a loops : Nat} {inBlock : Bool} {t : Token} {ts k : List Token}
      {ns : List Node} (ht : t.kind.isSeparator = true)
      (h : Derives a (.statements loops inBlock) ts k ns) :
      Derives a (.statements loops inBlock) (t :: ts) k ns
  | statementsMore {a loops : Nat} {inBlock : Bool} {ts us k : List Token} {n : Node}
      {ns : List Node} (h : Derives a (.statement loops) ts (us ++ k) [n])
      (hs : Derives a (.statements loops inBlock) us k ns) :
      Derives a (.statements loops inBlock) (ts ++ us) k (n :: ns)

/-! ### First tokens -/

/-- The tokens with which an operand begins. -/
def beginsOperand : TokenKind → Bool
  | .leftBracket | .leftParen | .identifier | .number | .string => true
  | _ => false

/-- The tokens with which an expression begins. -/
def beginsExpression (kind : TokenKind) : Bool := kind.isUnary || beginsOperand kind

/-- The tokens with which a statement begins. -/
def beginsStatement : TokenKind → Bool
  | .comment | .kwSym | .kwIf | .kwWhile | .kwFor | .kwFn | .kwImport | .kwRet | .kwBreak
  | .kwCont | .kwExit => true
  | kind => beginsExpression kind

/-- The tokens with which a phrase begins, for phrases that are never empty. -/
def Phrase.begins? : Phrase → Option (TokenKind → Bool)
  | .expression .. | .unary _ | .argument .value => some beginsExpression
  | .primary _ => some beginsOperand
  | .name _ | .argument _ => some (· == .identifier)
  | .statement _ => some beginsStatement
  | .block _ => some (· == .leftBrace)
  | _ => none

/-- A phrase that is never empty begins with one of its first tokens. -/
lemma Derives.first {a : Nat} {p : Phrase} {ts k : List Token} {ns : List Node}
    {begins : TokenKind → Bool} (h : Derives a p ts k ns) (hp : p.begins? = some begins) :
    ∃ t us, ts = t :: us ∧ begins t.kind = true := by
  have hstatement {kind : TokenKind} (h : beginsExpression kind = true) :
      beginsStatement kind = true := by
    unfold beginsStatement
    split <;> simp_all
  induction h generalizing begins with
  | expression _ _ ih =>
    cases hp
    obtain ⟨t, us, rfl, h⟩ := ih rfl
    exact ⟨t, _, rfl, h⟩
  | unaryPlain _ _ ih =>
    cases hp
    obtain ⟨t, us, rfl, h⟩ := ih rfl
    exact ⟨t, _, rfl, by simp [beginsExpression, h]⟩
  | unaryPrefix hop => cases hp; exact ⟨_, _, rfl, by simp [beginsExpression, hop]⟩
  | matrix ho | bracketed ho => cases hp; exact ⟨_, _, rfl, by rw [ho]; rfl⟩
  | plainName _ _ ih =>
    cases hp
    obtain ⟨t, us, rfl, h⟩ := ih rfl
    exact ⟨t, us, rfl, by rw [eq_of_beq h]; rfl⟩
  | call _ _ _ _ _ ih =>
    cases hp
    obtain ⟨t, us, rfl, h⟩ := ih rfl
    exact ⟨t, _, rfl, by rw [eq_of_beq h]; rfl⟩
  | rangeOfTwo ht | rangeOfThree ht | number ht | percentage ht | string ht =>
    cases hp; exact ⟨_, _, rfl, by rw [ht]; rfl⟩
  | name ht | argumentName ht | argumentKeyword ht | block ht =>
    cases hp; exact ⟨_, _, rfl, by rw [ht]; rfl⟩
  | argumentValue _ _ ih => cases hp; exact ih rfl
  | comment ht | exit ht | symbolDeclaration ht | importStatement ht | returnStatement ht
  | assignment ht | ifStatement ht | whileLoop ht | forLoop ht | functionDefinition ht =>
    cases hp; exact ⟨_, _, rfl, by rw [ht]; rfl⟩
  | loopControl ht => cases hp; exact ⟨_, _, rfl, by rcases ht with ht | ht <;> rw [ht] <;> rfl⟩
  | expressionStatement _ _ _ ih =>
    cases hp
    obtain ⟨t, us, rfl, h⟩ := ih rfl
    exact ⟨t, _, rfl, hstatement h⟩
  | _ => cases hp

lemma Derives.ne_nil {a least : Nat} {m : Bool} {ts k : List Token} {ns : List Node}
    (h : Derives a (.expression least m) ts k ns) : ts ≠ [] := by
  obtain ⟨t, us, rfl, -⟩ := h.first rfl
  exact List.cons_ne_nil t us

end StpLang
