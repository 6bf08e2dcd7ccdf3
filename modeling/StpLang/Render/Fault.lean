/-!
Why a tree cannot be shown.

Trees that the grammar makes can always be shown. A tree built by hand may hold
a kind that has no text, or lack a child that the text needs.
-/

namespace StpLang

/-- Why a tree cannot be shown. -/
inductive RenderFault where
  /-- The kind has no text as an expression. -/
  | noExpression (kind : String)
  /-- The kind has no text as a statement. -/
  | noStatement (kind : String)
  /-- The kind cannot stand at the root. -/
  | noRoot (kind : String) (line col : Nat)
  /-- An expression is missing. -/
  | missingExpression
  /-- An operator is missing. -/
  | missingOperator
  /-- A node that needs a child has none. -/
  | missingChild
deriving DecidableEq, Repr

namespace RenderFault

/-- The wording of a fault. -/
def message : RenderFault → String
  | noExpression kind => "No expression emitter for kind '" ++ kind ++ "'"
  | noStatement kind => "SourceEmitter: no emitter for " ++ kind
  | noRoot kind line col =>
    "No emitter method for node kind '" ++ kind ++ s!"' (line {line}, col {col})"
  | missingExpression => "Expected an expression node, got None"
  | missingOperator => "Expected an operator node, got None"
  | missingChild => "Expected a child node, got None"

/-- The fault lies in a kind that is not supported, not in a missing child. -/
def isUnsupported : RenderFault → Bool
  | noExpression _ | noStatement _ | noRoot .. => true
  | missingExpression | missingOperator | missingChild => false

end RenderFault

end StpLang
