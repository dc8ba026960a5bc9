import TagCache.Json.Basic
import TagCache.Text.Lowercase

/-!
# The history of runs

Each run of a cache operation leaves a record (`RunRecord`). It is stored as a row whose status is a
text (`RunRow`), which reads back in letters of either case (`RunStatus.parse`).
-/

namespace TagCache

/-- How a run ended. -/
inductive RunStatus where
  | succeeded
  | failed
deriving DecidableEq, Repr

namespace RunStatus

/-- The stored word for a status. -/
def text : RunStatus → String
  | .succeeded => "succeeded"
  | .failed => "failed"

/-- Read the stored word in letters of either case. What is no status is given back in lower
case. -/
def parse (text : String) : Except String RunStatus :=
  let lower := Text.lowercase text
  if lower = RunStatus.succeeded.text then .ok .succeeded
  else if lower = RunStatus.failed.text then .ok .failed
  else .error lower

/-- The message for a lower-case text that is no status. -/
def invalidMessage (lower : String) : String := "Invalid rebuild status '" ++ lower ++ "'"

end RunStatus

/-- What is noted about one run, with its status in one of two forms. -/
structure RunNote (status : Type) where
  operation : String
  /-- The digest of the snapshot that the run read. -/
  snapshotHash : Option String
  status : status
  /-- The target of the run or the message of its failure. -/
  detail : Option String
  startedAt : String
  finishedAt : String
deriving DecidableEq, Repr

/-- A record of the history. -/
abbrev RunRecord := RunNote RunStatus

/-- A record as it is stored. -/
abbrev RunRow := RunNote String

/-- The row that stores a record. -/
def RunRecord.toRow (r : RunRecord) : RunRow := { r with status := r.status.text }

/-- The record that a row stores, if its status is one. -/
def RunRow.toRecord? (r : RunRow) : Option RunRecord :=
  match RunStatus.parse r.status with
  | .ok status => some { r with status := status }
  | .error _ => none

/-- The form of a record that is written. -/
def RunRecord.toJson (r : RunRecord) : Json :=
  .object [
    ("operation", .string r.operation),
    ("snapshot_hash", .ofOption .string r.snapshotHash),
    ("status", .string r.status.text),
    ("detail", .ofOption .string r.detail),
    ("started_at", .string r.startedAt),
    ("finished_at", .string r.finishedAt)]

end TagCache
