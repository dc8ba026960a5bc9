import TagCache.Json.Printer
import TagCache.Partition
import TagCache.Segment

/-!
# Failures

Everything that can go wrong, as causes (`Failure`), and the messages that tell of them
(`Failure.messages`). How a library words its own failures is not known here: messages are made from
a wording (`Wording`), in which a complaint of a library comes with the causes that it names.
-/

namespace TagCache

/-- What a library says of a failure: its message, and those of the causes below, the nearest
first. -/
structure Complaint where
  message : String
  causes : List String
deriving DecidableEq, Inhabited, Repr

/-- The messages of a complaint, the outermost first. -/
def Complaint.messages (c : Complaint) : List String := c.message :: c.causes

/-- What is said of failures that come from outside. -/
structure Wording where
  /-- What the database says. -/
  storage : Complaint
  /-- What the reader of JSON says. -/
  json : Complaint
  /-- What the reader of YAML says. Its causes are not kept. -/
  yaml : String
  /-- What the output says that takes no further line. -/
  output : Complaint
  /-- What is said of a sum that does not fit a word. -/
  overflow : String
deriving DecidableEq, Inhabited, Repr

/-- What is wrong with a cache entry. -/
inductive Malformation where
  /-- The entry is not an object. -/
  | notObject (found : Json)
  /-- A field that holds a table is not an object. -/
  | notTable (field : String) (found : Json)
  /-- A count is not an integer that is at least zero. -/
  | badCount (found : Json)
  /-- A key of the address table is not an address. -/
  | badAddress (key : String)
deriving DecidableEq, Repr

/-- The message of a malformation. -/
def Malformation.message : Malformation → String
  | .notObject v => "expected an object, found " ++ v.compact
  | .notTable f v => "field " ++ f ++ " is not a table: " ++ v.compact
  | .badCount v => "count " ++ v.compact ++ " is not an integer"
  | .badAddress k => "bad address key " ++ Text.quoted k

/-- What is wrong with a database snapshot. -/
inductive SnapshotFault where
  | reversedBounds (low high : Address)
  | duplicateFunction (entry : Address)
  | emptyChunk (entry : Address)
  | entryOutside (entry : Address)
  | overlap (entry other : Address)
  /-- The text is not a snapshot in YAML. -/
  | unreadable
deriving DecidableEq, Repr

/-- The message of a fault of a snapshot. -/
def SnapshotFault.message (w : Wording) : SnapshotFault → String
  | .reversedBounds low high => "bounds " ++ low.text ++ ".." ++ high.text ++ " are reversed"
  | .duplicateFunction e => "function " ++ e.text ++ " is defined more than once"
  | .emptyChunk e => "function " ++ e.text ++ " has an empty chunk"
  | .entryOutside e => "function " ++ e.text ++ " does not contain its own entry point"
  | .overlap e e' => "functions " ++ e.text ++ " and " ++ e'.text ++ " overlap"
  | .unreadable => w.yaml

/-- The oldest version of the database layout. It stands for a database without any table. -/
def minVersion : Int := 0

/-- The newest version of the database layout. -/
def currentVersion : Int := 2

/-- Why an operation failed. -/
inductive Failure where
  | functionNotFound (address : Address)
  | segmentNotFound (selector : Selector)
  /-- A deletion named a key that is not stored. -/
  | entryMissing (key : CacheKey)
  | malformedEntry (partition : Partition) (reason : Malformation)
  | invalidSnapshot (fault : SnapshotFault)
  /-- The database has a layout newer than the newest known one. -/
  | unsupportedVersion (found : Int)
  /-- A table of the database is missing or holds something else than is expected. -/
  | storage
  /-- A text is not JSON or not of the wanted shape. -/
  | json
  /-- The output takes no further line. -/
  | outputFull
deriving DecidableEq, Repr

namespace Failure

/-- The message of a failure. -/
def message (w : Wording) : Failure → String
  | .functionNotFound a => "No function found at address " ++ a.text
  | .segmentNotFound s => "Unable to locate segment for " ++ s.text
  | .entryMissing k => "Cache entry " ++ k.text ++ " does not exist"
  | .malformedEntry p r => "Malformed cache entry for " ++ p.text ++ ": " ++ r.message
  | .invalidSnapshot f => "Invalid database snapshot: " ++ f.message w
  | .unsupportedVersion v =>
    "Unsupported schema version " ++ String.ofList (Json.integerText v) ++ "; supported range is "
      ++ String.ofList (Json.integerText minVersion) ++ "..="
      ++ String.ofList (Json.integerText currentVersion)
  | .storage => "SQLite error: " ++ w.storage.message
  | .json => "JSON error: " ++ w.json.message
  | .outputFull => "I/O error: " ++ w.output.message

/-- The complaint that a failure passes on. -/
def complaint? (w : Wording) : Failure → Option Complaint
  | .storage => some w.storage
  | .json => some w.json
  | .outputFull => some w.output
  | _ => none

/-- The messages of a failure, the outermost first. A complaint that is passed on is the cause. -/
def messages (w : Wording) (e : Failure) : List String :=
  e.message w :: (e.complaint? w).elim [] Complaint.messages

/-- The messages of a failure in one line. -/
def summary (w : Wording) (e : Failure) : String := ": ".intercalate (e.messages w)

end Failure

end TagCache
