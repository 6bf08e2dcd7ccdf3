import StpLang.Diagnostic
import StpLang.Limit
import StpLang.Program
import StpLang.Render
import StpLang.Text.Blank

/-!
Interactive sessions.

A user types lines. Lines are collected into an entry while delimiters are open
or a line ends with a backslash; a complete entry is a command, which starts
with a colon, or a program, which is read and shown. The words `exit` and
`quit` end a session, and so does the end of the input.

* `openDelimiters` counts the delimiters that a line leaves open.
* `Settings.command` carries out a command.
* `Session.enter` takes one typed line.
* `Session.transcript` takes all lines and lists what is shown at each prompt.
-/

namespace StpLang

/-! ### Open delimiters -/

/-- Where a line stands while its delimiters are counted. -/
inductive Quoting where
  /-- Outside strings. -/
  | outside
  /-- In a string. -/
  | inside
  /-- In a string, behind a backslash. -/
  | escaped
deriving DecidableEq, Repr

/-- The delimiters opened less those closed on the rest of a line, without
regard to strings and comments. -/
def countDelimiters : Quoting → List Char → Int
  | _, [] => 0
  | .escaped, _ :: cs => countDelimiters .inside cs
  | .inside, c :: cs =>
    if c = '\\' then countDelimiters .escaped cs
    else if c = '"' then countDelimiters .outside cs
    else countDelimiters .inside cs
  | .outside, c :: cs =>
    if c = '#' then 0
    else if c = '"' then countDelimiters .inside cs
    else if c = '(' || c = '[' || c = '{' then countDelimiters .outside cs + 1
    else if c = ')' || c = ']' || c = '}' then countDelimiters .outside cs - 1
    else countDelimiters .outside cs

/-- The delimiters opened less those closed on a line. -/
def openDelimiters (line : String) : Int := countDelimiters .outside line.toList

/-! ### Commands -/

/-- What commands can change. -/
structure Settings where
  /-- The name of the form in which programs are shown. A session starts with the
  name that it is given; a command sets it to the name of a form. -/
  target : String := "tree"
  strict : Bool := false
deriving DecidableEq, Repr

namespace Settings

/-- Carries out `:target argument`. -/
def setTarget (s : Settings) (argument : String) : Settings × String :=
  match Target.ofAnyCase argument with
  | .ok target =>
    ({ s with target := target.name }, "[mode] >>> Target " ++ target.name ++ "\n")
  | .error _ =>
    (s, "[error] >>> Unknown target " ++ Text.quoted argument ++ "; choose from "
      ++ Text.join ", " (Target.all.map Target.name) ++ "\n")

/-- Carries out `:strict`. -/
def toggleStrict (s : Settings) : Settings × String :=
  ({ s with strict := !s.strict },
    "[mode] >>> Strict mode " ++ (if s.strict then "OFF" else "ON") ++ "\n")

/-- Carries out an entry that is a command: the settings afterwards and what is
shown. -/
def command (s : Settings) (entry : String) : Option (Settings × String) :=
  match entry.toList with
  | ':' :: cs =>
    let name := String.ofList (cs.takeWhile (· != ' '))
    let argument := Text.strip (String.ofList (cs.dropWhile (· != ' ')))
    some <|
      if name == "target" then s.setTarget argument
      else if name == "strict" then s.toggleStrict
      else (s, "[error] >>> Unknown command :" ++ name ++ "\n")
  | _ => none

end Settings

/-! ### Entries -/

/-- Why a session breaks off. -/
inductive SessionFault where
  /-- The environment sets no usable limit. -/
  | limit (fault : Limit.Fault)
  /-- A name, in small letters, that names no form. -/
  | target (name : String)
  /-- A tree cannot be shown. -/
  | render (fault : RenderFault)
deriving DecidableEq, Repr

/-- The wording of a fault. -/
def SessionFault.message : SessionFault → String
  | limit fault => fault.message
  | target name => Target.unknownMessage name
  | render fault => fault.message

/-- What an entry shows, and its log. -/
structure Shown where
  text : String
  trace : List Event := []

/-- The name under which entries are reported. -/
def entryName : String := "<repl>"

/-- The diagnostic of an error in an entry, as a line of its own. -/
def entryDiagnostic (entry : String) (e : Error) : String :=
  e.format entry entryName ++ "\n"

/-- The form that the settings name. -/
def Settings.form (s : Settings) : Except SessionFault Target :=
  (Target.ofAnyCase s.target).mapError .target

/-- Shows the tree of an entry and the errors met in it. -/
def showTree (s : Settings) (entry : String) (tree : Tree) : Except SessionFault Shown := do
  let form ← s.form
  let text ← (form.render tree).mapError .render
  return ⟨text ++ String.join (tree.errors.map (entryDiagnostic entry)),
    [.rendered tree.root.kind.name form.name]⟩

/-- Reads an entry and shows it. -/
def evaluate (s : Settings) (limit : Int) (entry : String) : Except SessionFault Shown :=
  let reading := read entry s.strict limit
  match reading.result with
  | .error e => return ⟨entryDiagnostic entry e, reading.trace⟩
  | .ok tree => do
    let shown ← showTree s entry tree
    return { shown with trace := reading.trace ++ shown.trace }

/-- A session between two lines. -/
structure Session where
  settings : Settings
  /-- The limit on nesting, needed only when a program is read. -/
  limit : Except Limit.Fault Int
  /-- The lines of the unfinished entry, the latest first. -/
  pending : List String := []
  /-- The delimiters that the unfinished entry leaves open. -/
  depth : Int := 0

/-- What a line leads to. -/
structure Reply where
  /-- The session afterwards, unless the line ends it. -/
  next : Option Session
  shown : Shown

namespace Session

/-- The greeting. -/
def banner (s : Session) : String :=
  "Stp REPL [target=" ++ s.settings.target
    ++ "]. Type 'exit' or 'quit' to leave.\n"

/-- What a user sees before typing. -/
def prompt (s : Session) : String := if s.pending.isEmpty then ">>> " else "... "

/-- The text that ends a session. -/
def farewell : String := "Exiting Stp REPL.\n"

/-- Takes a finished entry of `count` lines. -/
def submit (s : Session) (entry : String) (count : Nat) : Except SessionFault Reply :=
  let ready := { s with pending := [], depth := 0 }
  if entry.isEmpty then return ⟨some ready, ⟨"", []⟩⟩
  else match s.settings.command entry with
    | some (settings, text) => return ⟨some { ready with settings }, ⟨text, []⟩⟩
    | none => do
      let limit ← s.limit.mapError .limit
      let shown ← evaluate s.settings limit entry
      return ⟨some ready, { shown with trace := .evaluating count :: shown.trace }⟩

/-- The word that a line consists of ends the session. -/
def isExit (line : String) : Bool :=
  let word := Text.strip line
  word == "exit" || word == "quit"

/-- Takes a typed line. -/
def enter (s : Session) (line : String) : Except SessionFault Reply :=
  if s.pending.isEmpty && isExit line then return ⟨none, ⟨farewell, []⟩⟩
  else
    let pending := line :: s.pending
    let depth := s.depth + openDelimiters line
    if depth ≤ 0 && line.toList.getLast? != some '\\' then
      s.submit (Text.strip (Text.join "\n" pending.reverse)) pending.length
    else return ⟨some { s with pending, depth }, ⟨"", []⟩⟩

/-- What is shown when the input ends or is interrupted. -/
def closing : Shown := ⟨"\n" ++ farewell, []⟩

/-- The prompts and what is shown behind each, when the lines are typed and
then the input ends. -/
def transcript (s : Session) : List String → Except SessionFault (List (String × Shown))
  | [] => return [(s.prompt, closing)]
  | line :: lines => do
    let reply ← s.enter line
    let more ← match reply.next with
      | some next => next.transcript lines
      | none => pure []
    return (s.prompt, reply.shown) :: more

end Session

end StpLang
