import StpLang.Event
import StpLang.Render
import StpLang.Text.Decimal

/-!
The arguments of the command.

Arguments are switches and at most one source. A switch has a long name, which
may be cut short as long as it stays unique, and perhaps a letter; letters may
share one dash, and a value may follow its switch in the same argument. Behind
a letter that takes no value an equality sign introduces further letters. The
mark `--` as the value of a switch takes back the value given before.

* `Word.of` reads one argument.
* `Options.ofArguments` reads all of them.
-/

namespace StpLang

/-- The switches of the command. -/
inductive Switch where
  | help
  | string
  | target
  | out
  | recover
  | maxDepth
  | repl
  | logLevel
deriving DecidableEq, Repr

namespace Switch

/-- The spellings of the switches. -/
def spellings : List (String × Switch) :=
  [("-h", help), ("--help", help), ("-s", string), ("--string", string),
    ("-t", target), ("--target", target), ("-o", out), ("--out", out),
    ("--recover", recover), ("--max-depth", maxDepth), ("--repl", repl),
    ("--log-level", logLevel)]

/-- The switch needs a value. -/
def takesValue : Switch → Bool
  | target | out | maxDepth | logLevel => true
  | help | string | recover | repl => false

end Switch

/-- What one argument is. -/
inductive Word where
  /-- The source, or the value of a switch. -/
  | value (text : String)
  /-- Switches without values, then one more switch with the value that the
  argument holds. -/
  | switches (plain : List Switch) (last : Switch) (value : Option String)
  /-- The first `--`, behind which all arguments are values. -/
  | separator
  /-- A switch that does not exist. -/
  | unknown
  /-- A switch that cannot be used in this way. -/
  | misused
  /-- The beginning of several switches. -/
  | ambiguous
deriving DecidableEq, Repr

namespace Word

/-- A switch without value before the switches of a word. -/
def after (s : Switch) : Word → Word
  | switches plain last v => switches (s :: plain) last v
  | w => w

/-- The switch `s` under its long name, with a text behind an equality sign in
the same argument. -/
def assigned (s : Switch) (text : List Char) : Word :=
  if s.takesValue then switches [] s (some (String.ofList text)) else misused

/-- The switch `s` under its letter, with more characters in the same argument:
its value, or the letters of further switches. -/
def cluster (s : Switch) : List Char → Word
  | [] => assigned s []
  | c :: cs =>
    if s.takesValue then assigned s (c :: cs)
    else match Switch.spellings.lookup (String.ofList ['-', c]) with
      | some t => (if cs.isEmpty then switches [] t none else cluster t cs).after s
      | none => misused

/-- A dash with a decimal number is a value. -/
def isNegativeNumber (cs : List Char) : Bool :=
  let isDigits (ds : List Char) : Bool := ds.all fun d => (Text.digit? d).isSome
  let body := if cs.getLast? == some '\n' then cs.dropLast else cs
  match body with
  | '-' :: ds =>
    let whole := ds.takeWhile (· != '.')
    match ds.dropWhile (· != '.') with
    | [] => !whole.isEmpty && isDigits whole
    | _ :: fraction => isDigits whole && !fraction.isEmpty && isDigits fraction
  | _ => false

/-- What an argument that is no spelling of a switch may still be: a switch cut
short, or letters behind one dash. -/
def abbreviated (text : String) : Option Word :=
  let cs := text.toList
  match cs with
  | '-' :: '-' :: _ =>
    let name := cs.takeWhile (· != '=')
    let text := (cs.dropWhile (· != '=')).tail
    match Switch.spellings.filter fun e => name.isPrefixOf e.1.toList with
    | [] => none
    | [(_, s)] =>
      some (if cs.contains '=' then assigned s text else switches [] s none)
    | _ => some ambiguous
  | '-' :: c :: more =>
    (Switch.spellings.lookup (String.ofList ['-', c])).map (cluster · more)
  | _ => none

/-- What an argument is that starts with a dash and is no switch. -/
def unswitched (text : String) : Word :=
  if isNegativeNumber text.toList || text.toList.contains ' ' then value text
  else unknown

/-- Reads one argument. -/
def of (text : String) : Word :=
  let cs := text.toList
  if cs.head? != some '-' || cs.length == 1 then value text
  else match Switch.spellings.lookup text with
    | some s => switches [] s none
    | none =>
      let spelling := cs.takeWhile (· != '=')
      let rest := (cs.dropWhile (· != '=')).tail
      match cs.contains '=', Switch.spellings.lookup (String.ofList spelling) with
      | true, some s => if spelling.length = 2 then cluster s rest else assigned s rest
      | _, _ => (abbreviated text).getD (unswitched text)

/-- Reads the arguments one by one. -/
def ofArguments : List String → List Word
  | [] => []
  | "--" :: texts => separator :: texts.map value
  | text :: texts => of text :: ofArguments texts

end Word

/-- What the arguments ask for. -/
structure Options where
  source : Option String := none
  /-- The source is a text, not a path. -/
  isText : Bool := false
  /-- The form to show, unless it was taken back. -/
  target : Option Target := some .tree
  out : Option String := none
  recover : Bool := false
  maxDepth : Option Int := none
  repl : Bool := false
  logLevel : Severity := .warning
deriving DecidableEq, Repr

/-- Why the arguments are not carried out. -/
inductive Refusal where
  /-- They are wrong. -/
  | usage
  /-- They ask for help. -/
  | help
  /-- They take back the value of a switch that needs one. -/
  | takenBack (s : Switch)
deriving DecidableEq, Repr

namespace Options

/-- The forms that the command offers. -/
def targets : List Target := [.tree, .stp, .json]

/-- Sets a switch without value. -/
def raise (o : Options) : Switch → Except Refusal Options
  | .string => .ok { o with isText := true }
  | .recover => .ok { o with recover := true }
  | .repl => .ok { o with repl := true }
  | .help => .error .help
  | _ => .error .usage

/-- Sets a switch to a value. -/
def assign (o : Options) (s : Switch) (value : String) : Except Refusal Options :=
  match s with
  | .target =>
    match targets.find? (·.name == value) with
    | some target => .ok { o with target := some target }
    | none => .error .usage
  | .out => .ok { o with out := some value }
  | .maxDepth =>
    match Text.integer? value with
    | some n => .ok { o with maxDepth := some n }
    | none => .error .usage
  | .logLevel =>
    match Severity.ofName? value with
    | some level => .ok { o with logLevel := level }
    | none => .error .usage
  | _ => .error .usage

/-- Takes back the value of a switch. -/
def takeBack (o : Options) : Switch → Options
  | .target => { o with target := none }
  | .out => { o with out := none }
  | .maxDepth => { o with maxDepth := none }
  | _ => o

/-- The arguments read so far. -/
structure Progress where
  options : Options := {}
  /-- The switches whose value has been taken back. -/
  takenBack : List Switch := []
  /-- Something was left over. -/
  leftover : Bool := false
  /-- The word before was the source. -/
  afterSource : Bool := false

/-- A word that may be the source. -/
def Progress.place (p : Progress) (text : String) : Progress :=
  if p.options.source.isSome then { p with leftover := true, afterSource := false }
  else { p with options := { p.options with source := some text }, afterSource := true }

/-- The mark behind which all words are values; it may stand beside the
source. -/
def Progress.separate (p : Progress) : Progress :=
  { p with
    leftover := p.leftover || (p.options.source.isSome && !p.afterSource)
    afterSource := false }

/-- Raises the switches `plain` and sets the switch `s` to a value; the mark `--`
in place of the value takes back the one before. -/
def Progress.set (p : Progress) (plain : List Switch) (s : Switch) (value : String) :
    Except Refusal Progress := do
  let o ← plain.foldlM raise p.options
  if value == "--" then
    return { p with
      options := o.takeBack s, takenBack := s :: p.takenBack, afterSource := false }
  else
    return { p with
      options := ← o.assign s value
      takenBack := p.takenBack.filter (· != s)
      afterSource := false }

/-- Reads words. -/
def readWords (p : Progress) : List Word → Except Refusal Progress
  | [] => .ok p
  | .value text :: ws => readWords (p.place text) ws
  | .separator :: ws => readWords p.separate ws
  | .unknown :: ws => readWords { p with leftover := true, afterSource := false } ws
  | .misused :: _ => .error .usage
  | .ambiguous :: _ => .error .usage
  | .switches plain last (some value) :: ws => do
    readWords (← p.set plain last value) ws
  | .switches plain last none :: ws => do
    if last.takesValue then
      match ws with
      | .value text :: ws => readWords (← p.set plain last text) ws
      | _ => .error .usage
    else
      let o ← (plain ++ [last]).foldlM raise p.options
      readWords { p with options := o, afterSource := false } ws

/-- Reads the arguments. -/
def ofArguments (arguments : List String) : Except Refusal Options := do
  let words := Word.ofArguments arguments
  if words.contains .ambiguous then .error .usage
  let p ← readWords {} words
  if p.leftover then .error .usage
  if p.takenBack.contains .logLevel then .error (.takenBack .logLevel)
  if p.takenBack.contains .maxDepth then .error (.takenBack .maxDepth)
  if p.options.maxDepth.any (· < 1) then .error .usage
  return p.options

end Options

end StpLang
