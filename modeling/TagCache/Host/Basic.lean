import TagCache.Host.Fault
import TagCache.Path
import TagCache.Session.Course
import TagCache.Store.Schema

/-!
# Hosts

What a command asks of the machine that it runs on (`Host`): files, databases, the time, two streams
for its output, and the conditions of its sessions. A command is written over any host;
`Host.readText` and `Host.openStore` are what most commands start with.
-/

namespace TagCache

/-- A record of the log. -/
structure LogRecord where
  time : String
  level : LogLevel
  /-- The part of the program that it comes from. -/
  source : String
  text : String
deriving DecidableEq, Repr

/-- The line of a record. Levels fill five columns. -/
def LogRecord.line (r : LogRecord) : String :=
  let level := r.level.text
  let gap := String.ofList (List.replicate (5 - level.length) ' ')
  "[" ++ r.time ++ " " ++ level ++ gap ++ " " ++ r.source ++ "] " ++ r.text ++ "\n"

/-- The machine that a command runs on. -/
class Host (m : Type → Type) where
  /-- The directory that the command was started in. -/
  workingDirectory : m Path
  /-- The path of what lies at a path, without needless steps. -/
  canonical? : Path → m (Option Path)
  /-- Whether something lies at a path. -/
  isPresent : Path → m Bool
  /-- Whether a file lies at a path. -/
  isFile : Path → m Bool
  /-- Whether a directory lies at a path. -/
  isDirectory : Path → m Bool
  /-- Read a file. -/
  read : Path → m (Except FileFault ByteArray)
  /-- Write a file, which is created where it is absent. -/
  write : Path → ByteArray → m (Except FileFault Unit)
  /-- Make one directory. -/
  makeDirectory : Path → m (Except FileFault Unit)
  /-- The place of the database that a path names. -/
  databaseAt? : Path → m (Option Location)
  /-- Read a database, which has no table where it is absent. -/
  loadStore : Location → m (Except Failure Store)
  /-- Write a database. -/
  saveStore : Location → Store → m (Except Failure Unit)
  /-- The time as it is written in records. -/
  now : m String
  /-- Write to the output. -/
  print : String → m Unit
  /-- Write to the stream of reports. -/
  report : String → m Unit
  /-- Write a record of the log to the stream of reports. -/
  log : LogRecord → m Unit
  /-- The conditions of sessions. -/
  conditions : m Conditions

namespace Host

variable {m : Type → Type} [Monad m] [Host m]

/-- Read a file as text. -/
def readText (p : Path) : m (Except FileFault String) := do
  match ← read p with
  | .error e => return .error e
  | .ok bytes =>
    match String.fromUTF8? bytes with
    | some text => return .ok text
    | none => return .error .notText

/-- Write a text to a file. -/
def writeText (p : Path) (text : String) : m (Except FileFault Unit) := write p text.toUTF8

/-- Make a directory, unless it is there. -/
def ensureDirectory (p : Path) : m (Except FileFault Unit) := do
  match ← makeDirectory p with
  | .ok () => return .ok ()
  | .error e => return if ← isDirectory p then .ok () else .error e

/-- Make the directory at the end of steps, which are given in reverse. Those above it are made only
where it cannot be made for want of them. -/
def ensureDirectories : List String → m (Except FileFault Unit)
  | [] => return .ok ()
  | s :: above => do
    let p := "/".intercalate (s :: above).reverse
    match ← ensureDirectory p with
    | .error .notFound =>
      match ← ensureDirectories above with
      | .ok () => ensureDirectory p
      | .error e => return .error e
    | result => return result

/-- Make a directory and those above it. -/
def makeDirectories (p : Path) : m (Except FileFault Unit) := ensureDirectories p.steps.reverse

/-- Open a database and bring its layout to the newest version. A layout that is refused stays as it
is. -/
def openStore (p : Path) : m (Except Failure (Location × Store)) := do
  match ← databaseAt? p with
  | none => return .error .storage
  | some l =>
    match (← loadStore l).bind Store.opened with
    | .error e => return .error e
    | .ok store => return (← saveStore l store).map fun () => (l, store)

/-- Write a line to the output. -/
def printLine (text : String) : m Unit := print (text ++ "\n")

/-- Log a warning of a part of the program. -/
def warn (source text : String) : m Unit := do
  log { time := ← now, level := .warn, source, text }

end Host

end TagCache
