import StpLang.Command.Help
import StpLang.Command.Run

/-!
The program: the command on the arguments, the environment, the files and the
standard streams of a system.
-/

namespace StpLang

namespace Command

/-- The fault that an error of the system stands for, with the number and the reason
that the system gives. Without them it is a failure of the device. -/
def faultOfSystem : IO.Error → FileFault
  | .interrupted _ number reason | .noFileOrDirectory _ number reason
  | .alreadyExists _ number reason | .invalidArgument _ number reason
  | .permissionDenied _ number reason | .resourceExhausted _ number reason
  | .inappropriateType _ number reason | .noSuchThing _ number reason
  | .otherError number reason | .resourceBusy number reason
  | .resourceVanished number reason | .unsupportedOperation number reason
  | .hardwareFault number reason | .unsatisfiedConstraints number reason
  | .illegalOperation number reason | .protocolError number reason
  | .timeExpired number reason => .refused number.toNat reason
  | .unexpectedEof | .userError _ => .refused 5 "Input/output error"

/-- Carries out an access to the file at a path. -/
def reach {α : Type} (path : String) (access : IO α) : IO (Except FileFault α) := do
  if Disk.hasNull path then return .error .nullInPath
  try
    return .ok (← access)
  catch e => return .error (faultOfSystem e)

/-- The files of the system. -/
def systemFiles : Files IO where
  read path := reach path do
    let file ← IO.FS.Handle.mk path .read
    return (← file.readBinToEnd).toList
  write path text := reach path (IO.FS.writeFile path text)

/-- Shows a reply and its log. -/
def printShown (level : Severity) (shown : Shown) : IO Unit := do
  IO.eprint (Event.log level shown.trace)
  IO.print shown.text
  (← IO.getStdout).flush

/-- Holds a session on the standard input. -/
def holdSession (o : Options) (setting : Option String) : IO UInt32 := do
  let stdin ← IO.getStdin
  let mut s := session o setting
  IO.print s.banner
  repeat
    IO.print s.prompt
    (← IO.getStdout).flush
    let line ← stdin.getLine
    if line.isEmpty then
      printShown o.logLevel Session.closing
      return 0
    let typed := if line.endsWith "\n" then String.ofList line.toList.dropLast else line
    match s.enter typed with
    | .error fault =>
      IO.eprintln fault.message
      return 1
    | .ok reply =>
      printShown o.logLevel reply.shown
      match reply.next with
      | some next => s := next
      | none => return 0
  return 0

/-- Says why the arguments are not carried out. -/
def refuse : Refusal → IO UInt32
  | .help => do
    IO.print help
    return 0
  | _ => do
    IO.eprint usage
    return 2

/-- Shows what a run leaves behind. -/
def finish : Ending → IO UInt32
  | .finished outcome => do
    IO.print outcome.stdout
    IO.eprint outcome.stderr
    return outcome.status.toUInt32
  | .refused refusal => refuse refusal
  | .broken fault => do
    IO.eprintln fault.message
    return 1

end Command

end StpLang

open StpLang in
/-- Runs the command. -/
def main (arguments : List String) : IO UInt32 := do
  let setting ← IO.getEnv "STP_MAX_DEPTH"
  match Options.ofArguments arguments with
  | .error refusal => Command.refuse refusal
  | .ok o =>
    match o.repl, o.source with
    | false, some source =>
      Command.finish (← Command.runSource Command.systemFiles setting o source)
    | _, _ => Command.holdSession o setting
