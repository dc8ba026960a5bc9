import Std.Time.Format
import TagCache.Command.Arguments
import TagCache.Host.Disk

/-!
# The program

The machine that the program really runs on, as a host, and the entry point.
-/

namespace TagCache

namespace SystemHost

/-- The number of a fault, which some functions of the system give with its sign changed. -/
def faultNumber (number : UInt32) : Nat :=
  if number < 0x80000000 then number.toNat else (-number).toNat

/-- The fault that a number stands for. -/
def numberedFault (number : UInt32) (text : String) : FileFault :=
  match faultNumber number with
  | 2 => .notFound
  | 17 => .alreadyExists
  | 20 => .notDirectory
  | 21 => .isDirectory
  | 36 => .nameTooLong
  | n => .other n text

/-- The fault that the system reports. -/
def fault : IO.Error → FileFault
  | .noFileOrDirectory _ number text => numberedFault number text
  | .alreadyExists _ number text => numberedFault number text
  | .inappropriateType _ number text => numberedFault number text
  | .permissionDenied _ number text => numberedFault number text
  | .resourceExhausted _ number text => numberedFault number text
  | .invalidArgument _ number text => numberedFault number text
  | .otherError number text => numberedFault number text
  | e => .other 0 (toString e)

/-- Try something with files. -/
def attempt {α : Type} (p : Path) (action : IO α) : IO (Except FileFault α) := do
  if Disk.hasNul p then return .error .nulInName
  try return .ok (← action) catch e => return .error (fault e)

/-- The path of what lies at a path, without needless steps. -/
def canonical? (p : Path) : IO (Option Path) := do
  return (← attempt p (IO.FS.realPath p)).toOption.map (·.toString)

/-- Whether something of a type lies at a path. -/
def isOfType (type : IO.FS.FileType) (p : Path) : IO Bool := do
  let found ← attempt p do return (← (← IO.FS.realPath p).metadata).type == type
  return found.toOption.getD false

/-- The path of a place. -/
def pathOf (l : Location) : Path := "/" ++ "/".intercalate l

/-- Read a database, which has no table where it is absent from a directory. -/
def loadStore (l : Location) : IO (Except Failure Store) := do
  match ← attempt (pathOf l) (IO.FS.readBinFile (pathOf l)) with
  | .ok bytes => return Option.orFail .storage (Store.ofBytes? bytes)
  | .error .notFound =>
    return if ← isOfType .dir (pathOf l.dropLast) then .ok .blank else .error .storage
  | .error _ => return .error .storage

/-- Write a database. -/
def saveStore (l : Location) (s : Store) : IO (Except Failure Unit) := do
  let written ← attempt (pathOf l) (IO.FS.writeBinFile (pathOf l) s.bytes)
  return written.mapError fun _ => .storage

/-- What this host says of failures. It knows of no causes below them. -/
def wording : Wording where
  storage := ⟨"the database cannot be used", []⟩
  json := ⟨"the text is not the expected JSON", []⟩
  yaml := "the text is not the expected YAML"
  output := ⟨"the output is closed", []⟩
  overflow := "a sum does not fit a word"

/-- The time in universal time. -/
def now : IO String := do
  return (Std.Time.DateTime.ofTimestamp (← Std.Time.Timestamp.now)
    Std.Time.TimeZone.ZoneRules.UTC).toISO8601String

instance : Host IO where
  workingDirectory := return (← IO.currentDir).toString
  canonical? := canonical?
  isPresent p := return (← canonical? p).isSome
  isFile := isOfType .file
  isDirectory := isOfType .dir
  read p := attempt p (IO.FS.readBinFile p)
  write p bytes := attempt p (IO.FS.writeBinFile p bytes)
  makeDirectory p := attempt p (IO.FS.createDir p)
  databaseAt? p := return Disk.empty.databaseAt? p
  loadStore := loadStore
  saveStore := saveStore
  now := now
  print := IO.print
  report := IO.eprint
  log r := IO.eprint r.line
  conditions := return { wording, room := none, checksSums := false }

end SystemHost

end TagCache

/-- Run the program. -/
def main (args : List String) : IO UInt32 := do
  return UInt32.ofNat (← TagCache.Command.launch args)
