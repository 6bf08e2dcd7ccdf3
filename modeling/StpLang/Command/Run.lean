import StpLang.Command.Disk
import StpLang.Command.Options
import StpLang.Session

/-!
The command.

Without a source the command holds a session. With one it reads the source,
shows the tree, writes it to a file if asked to, and reports the errors. The
log goes where the reports go.

* `readSource` finds the text of a source.
* `runSource` carries out a run on a source.
* `runSession` holds a session on given lines.
* `Command.run` does what the arguments ask for.
-/

namespace StpLang

namespace Command

/-- What a run leaves behind. -/
structure Outcome where
  status : Nat
  stdout : String := ""
  stderr : String := ""
deriving DecidableEq, Repr

/-- How a command ends. -/
inductive Ending where
  | finished (outcome : Outcome)
  | refused (refusal : Refusal)
  | broken (fault : SessionFault)

/-- The report that ends a run before its work is done. -/
def complaint (message : String) : String := "stp: " ++ message ++ "\n"

/-- A run that ends with a complaint. -/
def complain (stderr message : String) : Outcome :=
  { status := 2, stderr := stderr ++ complaint message }

/-- The name under which a source is reported, and its text. -/
structure SourceText where
  filename : String
  text : String

/-- The text of a file, in which every line end is a line feed. -/
def textOfBytes (bytes : List UInt8) : Except String String :=
  match Text.Utf8.decode bytes with
  | .ok cs => .ok (String.ofList (Text.unifyNewlines cs))
  | .error f => .error f.message

/-- Finds the text of a source: the source itself, or that of a file. -/
def readSource {m : Type → Type} [Monad m] (files : Files m) (isText : Bool)
    (source : String) : m (Except String SourceText) := do
  if isText then return .ok ⟨"<string>", source⟩
  else if !source.endsWith ".stp" then return .error "Only .stp files are supported."
  else match ← files.read source with
    | .error f => return .error (f.message source)
    | .ok bytes => return (textOfBytes bytes).map (⟨source, ·⟩)

/-- The diagnostic of an error, as lines of their own. -/
def report (s : SourceText) (e : Error) : String := e.format s.text s.filename ++ "\n"

/-- The status of a run that met the given errors. -/
def statusOf (errors : List Error) : Nat := if errors.isEmpty then 0 else 1

/-- Shows a tree in a form, on the given `stderr` so far: to a file if there is a
path, else to the standard output. The errors are reported afterwards. -/
def deliver {m : Type → Type} [Monad m] (files : Files m) (o : Options) (target : Target)
    (s : SourceText) (stderr : String) (tree : Tree) : m Outcome := do
  match target.render tree with
  | .error f => return complain stderr f.message
  | .ok text =>
    let log := Event.log o.logLevel
    let stderr := stderr ++ log [.rendered tree.root.kind.name target.name]
    let reports := String.join (tree.errors.map (report s))
    let status := statusOf tree.errors
    let path := o.out.getD ""
    if path.isEmpty then
      return { status, stdout := text, stderr := stderr ++ reports }
    else match ← files.write path text with
      | .error f => return complain stderr (f.message path)
      | .ok () =>
        let stderr := stderr ++ log [.outputWritten target.name path]
        return { status, stderr := stderr ++ reports }

/-- Carries out a run on a source. -/
def runSource {m : Type → Type} [Monad m] (files : Files m) (setting : Option String)
    (o : Options) (source : String) : m Ending := do
  match ← readSource files o.isText source with
  | .error message => return .finished (complain "" message)
  | .ok s =>
    let log := Event.log o.logLevel
    let stderr := log [.sourceRead s.filename s.text.length]
    match Limit.resolve o.maxDepth setting with
    | .error f => return .finished (complain stderr f.message)
    | .ok limit =>
      let reading := read s.text (!o.recover) limit
      let stderr := stderr ++ log reading.trace
      match reading.result, o.target with
      | .error e, _ => return .finished { status := 1, stderr := stderr ++ report s e }
      | .ok _, none => return .refused (.takenBack .target)
      | .ok tree, some target => return .finished (← deliver files o target s stderr tree)

/-- The name that stands for a form that was taken back. -/
def noTarget : String := "[]"

/-- The session that the options ask for. -/
def session (o : Options) (setting : Option String) : Session :=
  { settings := { target := (o.target.map Target.name).getD noTarget }
    limit := Limit.resolve o.maxDepth setting }

/-- Holds a session on the given lines. -/
def runSession (setting : Option String) (o : Options) (lines : List String) :
    Except SessionFault Outcome := do
  let s := session o setting
  let steps ← s.transcript lines
  return {
    status := 0
    stdout := s.banner ++ String.join (steps.map fun (prompt, shown) => prompt ++ shown.text)
    stderr := String.join (steps.map fun (_, shown) => Event.log o.logLevel shown.trace) }

/-- Does what the arguments ask for, given the lines that a user would type. -/
def run {m : Type → Type} [Monad m] (files : Files m) (setting : Option String)
    (arguments lines : List String) : m Ending := do
  match Options.ofArguments arguments with
  | .error refusal => return .refused refusal
  | .ok o =>
    match o.repl, o.source with
    | false, some source => runSource files setting o source
    | _, _ =>
      match runSession setting o lines with
      | .ok outcome => return .finished outcome
      | .error fault => return .broken fault

end Command

end StpLang
