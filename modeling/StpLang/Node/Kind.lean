/-!
Kinds of nodes.

The kind of a node is the construct of the language that it stands for.
`other` stands for a kind that the grammar never makes, so that any tree can be
shown and compared.

* `Kind.name` is the public name of a kind and `Kind.ofName` reads it.
-/

namespace StpLang

/-- The construct that a node stands for. -/
inductive Kind where
  -- programs and statements
  | sourceFile | block | comment | error | assignment | expressionStatement
  | symbolDeclaration | ifStatement | elseifClause | elseClause | whileLoop
  | forLoop | functionDefinition | importStatement | returnStatement
  | breakStatement | contStatement | exitStatement
  -- arguments
  | positionalArgs | keywordArgs | keywordArg
  -- expressions
  | identifier | memberAccess | number | percentage | operator | binary
  | unary | suffix | bracketed | range | matrix | matrixRow | lastRow | call
  -- strings and their segments
  | string | chars | escape | unicodeEscape | octalEscape | snippet
  | hexDigits
  -- a kind that the grammar never makes
  | other (name : String)
deriving DecidableEq, Repr, Inhabited

namespace Kind

/-- The public name of a kind. -/
def name : Kind → String
  | .sourceFile => "source_file"
  | .block => "block"
  | .comment => "comment"
  | .error => "ERROR"
  | .assignment => "assignment"
  | .expressionStatement => "expression_statement"
  | .symbolDeclaration => "symbol_decl_statement"
  | .ifStatement => "if_else_stmt"
  | .elseifClause => "elseif_clause"
  | .elseClause => "else_clause"
  | .whileLoop => "while_stmt"
  | .forLoop => "for_in_stmt"
  | .functionDefinition => "function_definition"
  | .importStatement => "import_statement"
  | .returnStatement => "return_stmt"
  | .breakStatement => "break"
  | .contStatement => "cont"
  | .exitStatement => "exit"
  | .positionalArgs => "pos_args"
  | .keywordArgs => "keyword_args"
  | .keywordArg => "keyword_argument"
  | .identifier => "identifier"
  | .memberAccess => "identifier_or_member_access"
  | .number => "number"
  | .percentage => "percentage"
  | .operator => "operator"
  | .binary => "binary_expression"
  | .unary => "unary_expression"
  | .suffix => "suffix_expression"
  | .bracketed => "bracketed_expr"
  | .range => "range_expr"
  | .matrix => "matrix"
  | .matrixRow => "matrix_row"
  | .lastRow => "matrix_row_last"
  | .call => "function_call"
  | .string => "string"
  | .chars => "string_char"
  | .escape => "escape_sequence"
  | .unicodeEscape => "unicode_escape"
  | .octalEscape => "octal_escape"
  | .snippet => "formatting_snippet"
  | .hexDigits => "hex_digits"
  | .other name => name

/-- The kinds that the grammar makes. -/
def known : List Kind :=
  [
    .sourceFile, .block, .comment, .error, .assignment, .expressionStatement,
    .symbolDeclaration, .ifStatement, .elseifClause, .elseClause, .whileLoop,
    .forLoop, .functionDefinition, .importStatement, .returnStatement,
    .breakStatement, .contStatement, .exitStatement, .positionalArgs,
    .keywordArgs, .keywordArg, .identifier, .memberAccess, .number,
    .percentage, .operator, .binary, .unary, .suffix, .bracketed, .range,
    .matrix, .matrixRow, .lastRow, .call, .string, .chars, .escape,
    .unicodeEscape, .octalEscape, .snippet, .hexDigits]

/-- The kind of a public name. -/
def ofName (n : String) : Kind := (known.find? (·.name == n)).getD (.other n)

end Kind

end StpLang
