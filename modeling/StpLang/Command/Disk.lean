import StpLang.Text.Quoted
import StpLang.Text.Utf8

/-!
Files.

The command reads one file and may write one. What can go wrong is a
`FileFault`; how files are reached is left open by `Files`, so that the command
can run on the files of a system as well as on a `Disk`, which is a value.

* `FileFault.message` is the report of the system.
* `Disk.locate` finds a path, from the root or from the working directory.
* `Disk.read` and `Disk.write` read and write the file to which a path leads.
-/

namespace StpLang

/-! ### Faults -/

/-- Why a file cannot be reached. -/
inductive FileFault where
  /-- The system refuses, with a number and a reason. -/
  | refused (number : Nat) (reason : String)
  /-- The path holds a null character. -/
  | nullInPath
deriving DecidableEq, Repr

namespace FileFault

/-- Nothing is there. -/
def missing : FileFault := refused 2 "No such file or directory"

/-- A file is used as a folder. -/
def notDirectory : FileFault := refused 20 "Not a directory"

/-- A folder is used as a file. -/
def isDirectory : FileFault := refused 21 "Is a directory"

/-- The path, or a name in it, is too long. -/
def nameTooLong : FileFault := refused 36 "File name too long"

/-- The report of a fault at a path. -/
def message (path : String) : FileFault → String
  | refused number reason => s!"[Errno {number}] " ++ reason ++ ": " ++ Text.quoted path
  | nullInPath => "embedded null byte"

end FileFault

/-- The report of bytes that are no text. -/
def Text.Utf8.Fault.message (f : Text.Utf8.Fault) : String :=
  let place :=
    if f.count = 1 then
      "byte 0x" ++ String.ofList (Text.hex 2 f.first.toNat) ++ s!" in position {f.offset}"
    else s!"bytes in position {f.offset}-{f.offset + f.count - 1}"
  "'utf-8' codec can't decode " ++ place ++ ": " ++ f.reason.message

/-- How files are read and written. -/
structure Files (m : Type → Type) where
  read : String → m (Except FileFault (List UInt8))
  write : String → String → m (Except FileFault Unit)

/-- Everything on a system, and the working directory. A place is the list of the
names on the way from the root. There are no links, and nothing is forbidden. -/
structure Disk where
  files : List (List String × List UInt8) := []
  folders : List (List String) := []
  /-- The working directory. -/
  here : List String := []

namespace Disk

/-! ### Places -/

/-- What stands at a place. -/
inductive Entry where
  | file (bytes : List UInt8)
  | folder
  /-- The device that is empty and swallows what is written to it. -/
  | device
deriving DecidableEq

/-- The place of the device. -/
def nullDevice : List String := ["dev", "null"]

/-- The places that are known. What lies on the way to one of them is a folder. -/
def known (d : Disk) : List (List String) :=
  nullDevice :: d.here :: d.folders ++ d.files.map (·.1)

/-- What stands at a place. -/
def entryAt? (d : Disk) (place : List String) : Option Entry :=
  match d.files.lookup place with
  | some bytes => some (.file bytes)
  | none =>
    if place == nullDevice then some .device
    else if d.known.any place.isPrefixOf then some .folder
    else none

/-! ### Paths -/

/-- A path that starts at the root of the system. -/
def isAbsolute (path : String) : Bool := path.toList.head? == some '/'

/-- A path that leads to a folder or nowhere. -/
def endsInSlash (path : String) : Bool := path.toList.getLast? == some '/'

/-- A path with a null character, which no system takes. -/
def hasNull (path : String) : Bool := path.toList.contains (Char.ofNat 0)

/-- The names that a path is made of. -/
def names (path : String) : List String :=
  ((path.toList.splitOn '/').filter (!·.isEmpty)).map String.ofList

/-- The longest name, in bytes. -/
def maxName : Nat := 255

/-- The longest path, in bytes. -/
def maxPath : Nat := 4095

/-- One name further on the way. There is nothing above the root. -/
def follow (place : List String) (name : String) : List String :=
  if name == "." then place else if name == ".." then place.dropLast else place ++ [name]

/-- Follows names from a folder; all but the last must be folders. -/
def walk (d : Disk) (place : List String) : List String → Except FileFault (List String)
  | [] => .ok place
  | name :: rest => do
    if name.utf8ByteSize > maxName then .error .nameTooLong
    let next := follow place name
    if rest.isEmpty then return next
    match d.entryAt? next with
    | none => .error .missing
    | some .folder => walk d next rest
    | some _ => .error .notDirectory

/-- The place of a path. -/
def locate (d : Disk) (path : String) : Except FileFault (List String) := do
  if hasNull path then .error .nullInPath
  if path.utf8ByteSize > maxPath then .error .nameTooLong
  if path.isEmpty then .error .missing
  d.walk (if isAbsolute path then [] else d.here) (names path)

/-! ### Reading and writing -/

/-- The bytes of a file. -/
def read (d : Disk) (path : String) : Except FileFault (List UInt8) := do
  match d.entryAt? (← d.locate path) with
  | none => .error .missing
  | some .folder => .error .isDirectory
  | some (.file bytes) => if endsInSlash path then .error .notDirectory else return bytes
  | some .device => if endsInSlash path then .error .notDirectory else return []

/-- The disk with a file at a place, in the stead of what was there. -/
def put (d : Disk) (place : List String) (bytes : List UInt8) : Disk :=
  { d with files := (place, bytes) :: d.files.filter (·.1 != place) }

/-- The disk after a text has been written to a file. -/
def write (d : Disk) (path text : String) : Except FileFault Disk := do
  let place ← d.locate path
  if endsInSlash path then .error .isDirectory
  match d.entryAt? place with
  | some .folder => .error .isDirectory
  | some .device => return d
  | some (.file _) | none => return d.put place text.toUTF8.toList

/-- The files below the working directory that are not as they were `before`, by
their names from there. -/
def changes (before after : Disk) : List (List String × List UInt8) :=
  after.files.filterMap fun (place, bytes) =>
    if before.files.lookup place == some bytes then none
    else (before.here.isPrefixOf? place).map (·, bytes)

/-- The files of a disk that changes. -/
def access : Files (StateM Disk) where
  read path := return (← get).read path
  write path text := do
    match (← get).write path text with
    | .ok d =>
      set d
      return .ok ()
    | .error f => return .error f

end Disk

end StpLang
