import StpLang.Text.Line
import StpLang.Token.Basic

/-!
What can be wrong with a program text.

An `Error` is a cause together with the range it concerns. The cause decides
the category of the error and its wording.

* `Category` orders the errors by kind; every category has a broader one, up to
  `general`.
* `Cause` lists what the lexer and the grammar object to.
* `Cause.category` and `Cause.message` say how a cause is reported.
-/

namespace StpLang

/-! ### Categories -/

/-- The kinds of errors. -/
inductive Category where
  /-- Any error. -/
  | general
  /-- The text cannot be cut into tokens. -/
  | lexical
  /-- The text ends within a string. -/
  | unterminatedString
  /-- An escape in a string is unknown or cut short. -/
  | unterminatedEscape
  /-- The tokens form no program. -/
  | grammar
  /-- A delimiter has no partner. -/
  | unbalanced
  /-- The program nests too deeply. -/
  | nesting
deriving DecidableEq, Repr

namespace Category

/-- The next broader category. -/
def parent? : Category → Option Category
  | .general => none
  | .lexical | .grammar | .nesting => some .general
  | .unterminatedString | .unterminatedEscape => some .lexical
  | .unbalanced => some .grammar

/-- A category and all broader ones, the broadest last. -/
def lineage (c : Category) : List Category :=
  match c.parent? with
  | none => [c]
  | some p => c :: match p.parent? with
    | none => [p]
    | some q => [p, q]

/-- The word that opens a report. -/
def label : Category → String
  | .general => "error"
  | .lexical | .unterminatedString | .unterminatedEscape => "lex error"
  | .grammar | .unbalanced => "syntax error"
  | .nesting => "nesting error"

end Category

/-! ### Causes -/

/-- What is wrong. -/
inductive Cause where
  -- found while cutting the text into tokens
  | readPastEnd
  | unexpectedChar (c : Char)
  | unterminatedString
  | unclosedSnippet
  | strayClose
  | groupOpenAtClose (opener : String)
  | snippetsTooDeep (limit : Int)
  | shortUnicodeEscape
  | shortOctalEscape
  | unknownEscape (c : Char)
  -- found while reading statements
  | expected (kinds : List TokenKind) (found : Found)
  | neverClosed (opener : String)
  | unclosed (closer opener : String) (found : Found)
  | expectedBlock (found : Found)
  | unmatchedCloser (closer : String)
  | strayBranch (word : String)
  | elseifAfterElse
  | secondElse
  | outsideLoop (word : String)
  | expectedModule (found : Found)
  | positionalAfterKeyword
  | trailingComma
  -- found while reading expressions
  | expectedExpression (found : Found)
  | emptyParens
  | emptyRow
  | longRange
  | rangeBound (found : Found)
  | emptySnippet
  | leftoverInSnippet (found : Found)
  -- the limit on nesting
  | nestingTooDeep (limit : Int)
  | expressionTooDeep (limit : Int)
  -- a report made by someone else
  | stated (category : Category) (message : String)
deriving DecidableEq, Repr

namespace Cause

/-- The category under which a cause is reported. -/
def category : Cause → Category
  | readPastEnd | unexpectedChar _ => .lexical
  | unterminatedString | unclosedSnippet => .unterminatedString
  | shortUnicodeEscape | shortOctalEscape | unknownEscape _ => .unterminatedEscape
  | strayClose | groupOpenAtClose _ | neverClosed _ | unmatchedCloser _ => .unbalanced
  | snippetsTooDeep _ | nestingTooDeep _ | expressionTooDeep _ => .nesting
  | expected .. | unclosed .. | expectedBlock _ | strayBranch _ | elseifAfterElse
  | secondElse | outsideLoop _ | expectedModule _ | positionalAfterKeyword
  | trailingComma | expectedExpression _ | emptyParens | emptyRow | longRange
  | rangeBound _ | emptySnippet | leftoverInSnippet _ => .grammar
  | stated category _ => category

/-- The wording of a cause. -/
def message : Cause → String
  | readPastEnd => "Attempted to read past end of source"
  | unexpectedChar c => "Unexpected character " ++ Text.quotedChar c
  | unterminatedString => "Unterminated string"
  | unclosedSnippet => "Unterminated string: formatting snippet is never closed"
  | strayClose => "'\\\x7d' without matching '\\\x7b'"
  | groupOpenAtClose opener => "'" ++ opener ++ "' is not closed before '\\\x7d'"
  | snippetsTooDeep limit => s!"Formatting snippets nested deeper than {limit}"
  | shortUnicodeEscape => "Unicode escape needs 2, 4 or 8 hex digits after '\\x'"
  | shortOctalEscape => "Octal escape needs exactly three octal digits"
  | unknownEscape c => "Unknown escape sequence '\\" ++ c.toString ++ "'"
  | expected kinds found =>
    "Expected " ++ Text.join " or " (kinds.map TokenKind.expectation)
      ++ ", got " ++ found.message
  | neverClosed opener => "'" ++ opener ++ "' is never closed"
  | unclosed closer opener found =>
    "Expected '" ++ closer ++ "' to close '" ++ opener ++ "', got " ++ found.message
  | expectedBlock found => "Expected '\x7b' to start a block, got " ++ found.message
  | unmatchedCloser closer => "Unmatched '" ++ closer ++ "'"
  | strayBranch word => "'" ++ word ++ "' without a preceding 'if'"
  | elseifAfterElse => "'elseif' cannot follow 'else'"
  | secondElse => "An 'if' can have only one 'else'"
  | outsideLoop word => "'" ++ word ++ "' is only allowed inside a loop body"
  | expectedModule found =>
    "Expected module name after 'import', got " ++ found.message
  | positionalAfterKeyword => "Positional argument follows keyword argument"
  | trailingComma => "Trailing ',' in argument list"
  | expectedExpression found => "Expected expression, got " ++ found.message
  | emptyParens => "Empty parentheses"
  | emptyRow => "Matrix rows cannot be empty"
  | longRange => "A range takes at most three numbers"
  | rangeBound found => "Range bounds must be numbers, got " ++ found.message
  | emptySnippet => "Formatting snippet needs an expression"
  | leftoverInSnippet found =>
    "Unexpected " ++ found.message ++ " in formatting snippet"
  | nestingTooDeep limit => s!"Nesting exceeds the maximum depth of {limit}"
  | expressionTooDeep limit =>
    s!"Expression nests deeper than the maximum depth of {limit}"
  | stated _ message => message

end Cause

/-! ### Errors -/

/-- A cause and the range that it concerns. -/
structure Error where
  cause : Cause
  span : Span
deriving DecidableEq, Repr

namespace Error

/-- The category of an error. -/
def category (e : Error) : Category := e.cause.category

/-- The wording of an error, without its place. -/
def message (e : Error) : String := e.cause.message

/-- The wording of an error and its place in one line. -/
def summary (e : Error) : String :=
  e.message ++ s!" at line {e.span.line}, col {e.span.col}"

end Error

end StpLang
