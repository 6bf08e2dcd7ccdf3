import StpLang.Error

/-!
The log.

Reading a program leaves a trace of events, from the opening of a formatting
snippet to the end of a session's entry. Each event has a level, a place of
origin and a wording; a run shows those that reach a threshold.
-/

namespace StpLang

/-- The importance of an event, least first. -/
inductive Severity where
  | debug
  | info
  | warning
  | error
deriving DecidableEq, Repr

namespace Severity

/-- The public name of a level. -/
def name : Severity → String
  | debug => "DEBUG"
  | info => "INFO"
  | warning => "WARNING"
  | error => "ERROR"

/-- The levels, least first. -/
def all : List Severity := [debug, info, warning, error]

/-- The level of a public name. -/
def ofName? (n : String) : Option Severity := all.find? (·.name == n)

/-- The rank of a level. -/
def rank : Severity → Nat
  | debug => 10
  | info => 20
  | warning => 30
  | error => 40

end Severity

/-- Something that happened while a text was read or shown. -/
inductive Event where
  /-- The lexer enters a formatting snippet, the `depth`-th around this
  place. -/
  | snippetEntered (line col : Nat) (depth : Int)
  /-- An error ends the tokens early. -/
  | lexingStopped (error : Error)
  /-- The grammar starts on this many tokens. -/
  | parsingStarted (count : Nat) (strict : Bool)
  /-- A statement is skipped because of an error. -/
  | recovering (error : Error)
  /-- The grammar reads a formatting snippet. -/
  | snippetParsed (line col : Nat)
  /-- A tree has been shown. -/
  | rendered (kind target : String)
  /-- An entry of a session is read. -/
  | evaluating (lines : Nat)
  /-- A run reads a source. -/
  | sourceRead (filename : String) (length : Nat)
  /-- A run has written its output. -/
  | outputWritten (target path : String)
deriving DecidableEq, Repr

namespace Event

/-- The level of an event. -/
def severity : Event → Severity
  | sourceRead .. | outputWritten .. => .info
  | _ => .debug

/-- The part of the program that an event comes from. -/
def origin : Event → String
  | snippetEntered .. => "stp.stp_lexer"
  | lexingStopped _ | parsingStarted .. | recovering _ | snippetParsed .. =>
    "stp.stp_parser"
  | rendered .. => "stp.stp_render"
  | evaluating _ => "stp.stp_repl"
  | sourceRead .. | outputWritten .. => "stp.stp_cli"

/-- The wording of an event. -/
def message : Event → String
  | snippetEntered line col depth =>
    s!"entering formatting snippet at line {line}, col {col} (depth {depth})"
  | lexingStopped error => "lexing stopped early: " ++ error.summary
  | parsingStarted count strict =>
    s!"parsing {count} tokens (strict=" ++ (if strict then "True" else "False") ++ ")"
  | recovering error =>
    "recovering from " ++ Text.quoted error.message
      ++ s!" at line {error.span.line}"
  | snippetParsed line col => s!"parsing formatting snippet at line {line}, col {col}"
  | rendered kind target => "rendered " ++ kind ++ " tree as " ++ target
  | evaluating lines => s!"evaluating {lines} line(s)"
  | sourceRead filename length =>
    "parsing " ++ filename ++ s!" ({length} characters)"
  | outputWritten target path => "wrote " ++ target ++ " output to " ++ path

/-- The line of the log that reports an event. -/
def logLine (e : Event) : String :=
  e.severity.name ++ " " ++ e.origin ++ ": " ++ e.message ++ "\n"

/-- The log of a trace, down to a threshold. -/
def log (threshold : Severity) (trace : List Event) : String :=
  String.join ((trace.filter (threshold.rank ≤ ·.severity.rank)).map logLine)

end Event

end StpLang
