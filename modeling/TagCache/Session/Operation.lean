import TagCache.Session.Erase

/-!
# Operations on the cache

The changes of the cache that can be asked for by name (`Operation`). Each one runs in a session and
gives a summary of what it did (`Operation.run`); what is kept of a run is a record
(`Operation.record`).
-/

namespace TagCache

/-- A change of the cache. -/
inductive Operation where
  /-- Erase the cache and build it anew. -/
  | everything
  /-- Build the cache without erasing it first. -/
  | all
  /-- Build the cache of the function that owns an address. -/
  | contents (address : Address)
  /-- Build the globals index. -/
  | globals
  /-- Add the references of custom names. -/
  | customNames
  /-- Add the references of extra comment lines. -/
  | extraComments
  /-- Erase the cache. -/
  | erase
deriving DecidableEq, Repr

namespace Operation

/-- The name that an operation is recorded with. -/
def name : Operation → String
  | .everything => "everything"
  | .all => "all"
  | .contents _ => "contents"
  | .globals => "globals"
  | .customNames => "customnames"
  | .extraComments => "extracomments"
  | .erase => "erase"

/-- What is noted about an operation that succeeded. -/
def target? : Operation → Option String
  | .contents a => some ("function " ++ a.text)
  | _ => none

/-- Run an operation, and give its summary. -/
def run (db : Snapshot) : Operation → Session String
  | .everything => do
    Session.everything db
    return "Rebuilt the globals index and every function cache"
  | .all => do
    Session.all db
    return "Updated the globals index and every function cache"
  | .contents a => do
    let counts ← Session.contents db a
    return "Counted " ++ Text.decimal counts.addresses.size ++ " address(es) and "
      ++ Text.decimal counts.names.size ++ " tag name(s) for " ++ a.text
  | .globals => do
    let counts ← Session.globals db
    return "Indexed " ++ Text.decimal counts.addresses.size ++ " global address(es) and "
      ++ Text.decimal counts.names.size ++ " tag name(s)"
  | .customNames => do
    return "Added " ++ Text.decimal (← Session.customNames db) ++ " custom name reference(s)"
  | .extraComments => do
    return "Added " ++ Text.decimal (← Session.extraComments db) ++ " extra comment reference(s)"
  | .erase => do
    let removed ← Session.erase db
    return "Removed " ++ Text.decimal removed ++ " cache entr" ++ if removed = 1 then "y" else "ies"

/-- The record of a run. -/
def record (op : Operation) (w : Wording) (snapshotHash : Option String)
    (outcome : Except Failure String) (startedAt finishedAt : String) : RunRecord :=
  let (status, detail) := match outcome with
    | .ok _ => (RunStatus.succeeded, op.target?)
    | .error e => (RunStatus.failed, some (e.summary w))
  { operation := op.name, snapshotHash, status, detail, startedAt, finishedAt }

end Operation

end TagCache
