/-!
Kinds of tokens.

A token is a word, a literal, an operator or punctuation mark, a comment, or a
mark of the layout. `other` stands for a kind that the lexer never makes, so
that the grammar can be given any sequence of tokens.

* `name` is the public name of a kind and `ofName` reads it.
* `operators` and `keywords` are the spellings, `spelling?` reads them back.
* `binary?` gives the binding strength of the binary operators.
-/

namespace StpLang

/-- The kind of a token. -/
inductive TokenKind where
  -- words, literals and layout
  | identifier | number | string | comment | newline | snippetClose | eof
  | mod
  -- operators and punctuation
  | plus | minus | times | divide | power | dotTimes | dotDivide | dotPower
  | matmul | ampersand | equal | notEqual | less | lessEqual | greater
  | greaterEqual | assign | tilde | transpose | bang | percent | dot
  | ellipsis | comma | semicolon | leftParen | rightParen | leftBracket
  | rightBracket | leftBrace | rightBrace
  -- keywords
  | kwSym | kwIf | kwElseif | kwElse | kwWhile | kwFor | kwIn | kwFn | kwRet
  | kwBreak | kwCont | kwExit | kwImport | kwAnd | kwOr | kwNot
  -- a kind that no text produces
  | other (name : String)
deriving DecidableEq, Repr, Inhabited

/-- Whether an operator groups to the left or to the right. -/
inductive Assoc where
  | left
  | right
deriving DecidableEq, Repr

namespace TokenKind

/-! ### Names -/

/-- The public name of a kind. -/
def name : TokenKind → String
  | .identifier => "IDENT"
  | .number => "NUMBER"
  | .string => "STRING"
  | .comment => "COMMENT"
  | .newline => "NEWLINE"
  | .snippetClose => "SNIPPET_CLOSE"
  | .eof => "EOF"
  | .mod => "MOD"
  | .plus => "PLUS"
  | .minus => "SUB"
  | .times => "MULT"
  | .divide => "DIV"
  | .power => "POW"
  | .dotTimes => "DOT_MULT"
  | .dotDivide => "DOT_DIV"
  | .dotPower => "DOT_POW"
  | .matmul => "MATMUL"
  | .ampersand => "AMP"
  | .equal => "EQ"
  | .notEqual => "NE"
  | .less => "LT"
  | .lessEqual => "LE"
  | .greater => "GT"
  | .greaterEqual => "GE"
  | .assign => "ASSIGN"
  | .tilde => "TILDE"
  | .transpose => "TRANSPOSE"
  | .bang => "BANG"
  | .percent => "PERCENT"
  | .dot => "DOT"
  | .ellipsis => "ELLIPSIS"
  | .comma => "COMMA"
  | .semicolon => "SEMI"
  | .leftParen => "LPAREN"
  | .rightParen => "RPAREN"
  | .leftBracket => "LBRACK"
  | .rightBracket => "RBRACK"
  | .leftBrace => "LBRACE"
  | .rightBrace => "RBRACE"
  | .kwSym => "SYM"
  | .kwIf => "IF"
  | .kwElseif => "ELSEIF"
  | .kwElse => "ELSE"
  | .kwWhile => "WHILE"
  | .kwFor => "FOR"
  | .kwIn => "IN"
  | .kwFn => "FN"
  | .kwRet => "RET"
  | .kwBreak => "BREAK"
  | .kwCont => "CONT"
  | .kwExit => "EXIT"
  | .kwImport => "IMPORT"
  | .kwAnd => "AND"
  | .kwOr => "OR"
  | .kwNot => "NOT"
  | .other name => name

/-- The kinds that the lexer makes. -/
def known : List TokenKind :=
  [
    .identifier, .number, .string, .comment, .newline, .snippetClose, .eof,
    .mod, .plus, .minus, .times, .divide, .power, .dotTimes, .dotDivide,
    .dotPower, .matmul, .ampersand, .equal, .notEqual, .less, .lessEqual,
    .greater, .greaterEqual, .assign, .tilde, .transpose, .bang, .percent,
    .dot, .ellipsis, .comma, .semicolon, .leftParen, .rightParen,
    .leftBracket, .rightBracket, .leftBrace, .rightBrace, .kwSym, .kwIf,
    .kwElseif, .kwElse, .kwWhile, .kwFor, .kwIn, .kwFn, .kwRet, .kwBreak,
    .kwCont, .kwExit, .kwImport, .kwAnd, .kwOr, .kwNot]

/-- The kind of a public name. -/
def ofName (n : String) : TokenKind :=
  (known.find? (·.name == n)).getD (.other n)

/-! ### Spellings -/

/-- The operators and punctuation marks with their spellings. -/
def operators : List (String × TokenKind) :=
  [
    ("+", .plus), ("-", .minus), ("*", .times), ("/", .divide),
    ("^", .power), (".*", .dotTimes), ("./", .dotDivide), (".^", .dotPower),
    ("@", .matmul), ("&", .ampersand), ("==", .equal), ("!=", .notEqual),
    ("<", .less), ("<=", .lessEqual), (">", .greater), (">=", .greaterEqual),
    ("=", .assign), ("~", .tilde), ("'", .transpose), ("!", .bang),
    ("%", .percent), (".", .dot), ("...", .ellipsis), (",", .comma),
    (";", .semicolon), ("(", .leftParen), (")", .rightParen),
    ("[", .leftBracket), ("]", .rightBracket), ("\x7b", .leftBrace),
    ("\x7d", .rightBrace)]

/-- The reserved words. -/
def keywords : List (String × TokenKind) :=
  [
    ("sym", .kwSym), ("if", .kwIf), ("elseif", .kwElseif), ("else", .kwElse),
    ("while", .kwWhile), ("for", .kwFor), ("in", .kwIn), ("fn", .kwFn),
    ("ret", .kwRet), ("break", .kwBreak), ("cont", .kwCont),
    ("exit", .kwExit), ("import", .kwImport), ("and", .kwAnd), ("or", .kwOr),
    ("not", .kwNot)]

/-- The spelling of a kind that has only one. -/
def spelling? (k : TokenKind) : Option String :=
  (((("mod", TokenKind.mod) :: operators) ++ keywords).find? (·.2 == k)).map (·.1)

/-- The kind of a maximal run of word characters. -/
def ofWord (word : String) : TokenKind :=
  (keywords.lookup word).getD .identifier

/-- How a message calls a kind that it expected. -/
def expectation : TokenKind → String
  | .identifier => "identifier"
  | .number => "number"
  | .string => "string"
  | k => "'" ++ k.spelling?.getD k.name ++ "'"

/-! ### Roles in the grammar -/

/-- The level of a binary operator, from 1 for the loosest to 4, and the side
to which it groups. -/
def binary? : TokenKind → Option (Nat × Assoc)
  | .equal | .notEqual | .less | .lessEqual | .greater | .greaterEqual
  | .kwIn | .kwAnd | .kwOr | .kwNot => some (1, .left)
  | .plus | .minus => some (2, .left)
  | .times | .divide | .dotTimes | .dotDivide | .mod | .matmul | .ampersand =>
    some (3, .left)
  | .power | .dotPower => some (4, .right)
  | _ => none

/-- Operators that stand before their operand. -/
def isUnary : TokenKind → Bool
  | .tilde | .plus | .minus => true
  | _ => false

/-- Operators that stand right behind their operand. -/
def isSuffix : TokenKind → Bool
  | .transpose | .bang | .percent => true
  | _ => false

/-- The marks that end a statement. -/
def isSeparator : TokenKind → Bool
  | .newline | .semicolon => true
  | _ => false

/-- The tokens behind which a line is at its end. -/
def endsLine : TokenKind → Bool
  | .newline | .comment => true
  | _ => false

/-- The delimiter that closes a parenthesis, bracket or brace. -/
def closer? : TokenKind → Option TokenKind
  | .leftParen => some .rightParen
  | .leftBracket => some .rightBracket
  | .leftBrace => some .rightBrace
  | _ => none

/-- The closing delimiters. -/
def isCloser : TokenKind → Bool
  | .rightParen | .rightBracket | .rightBrace => true
  | _ => false

/-- The opening delimiters within which a line end is blank. -/
def opensGroup : TokenKind → Bool
  | .leftParen | .leftBracket => true
  | _ => false

/-- The closing delimiters of such groups. -/
def closesGroup : TokenKind → Bool
  | .rightParen | .rightBracket => true
  | _ => false

/-- The tokens that can end an operand: behind them the word `mod` is the
operator. -/
def endsOperand : TokenKind → Bool
  | .identifier | .number | .string | .rightParen | .rightBracket
  | .transpose | .bang | .percent => true
  | _ => false

end TokenKind

end StpLang
