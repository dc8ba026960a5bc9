import TagCache.Project.Basic

/-!
# The status of a project

A summary of a project, its snapshot and its cache (`Status`), shown as text or as JSON
(`Project.showStatus`).
-/

namespace TagCache

/-- A summary of a project. -/
structure Status where
  name : String
  root : Path
  configFile : Path
  database : Path
  version : Int
  snapshotFile : Path
  /-- The digest of the snapshot file. -/
  snapshotHash : Option String
  functions : Nat
  heads : Nat
  /-- The number of contents caches. -/
  caches : Nat
  globalNames : Nat
  globalAddresses : Nat
  /-- The number of records in the history. -/
  runs : Nat
deriving DecidableEq, Repr

namespace Status

/-- The form of a summary that is written. -/
def toJson (s : Status) : Json :=
  .object [
    ("name", .string s.name),
    ("root", .string s.root),
    ("config_file", .string s.configFile),
    ("db_path", .string s.database),
    ("schema_version", .int s.version),
    ("snapshot_path", .string s.snapshotFile),
    ("snapshot_sha256", .ofOption .string s.snapshotHash),
    ("functions", .ofCount s.functions),
    ("defined_addresses", .ofCount s.heads),
    ("contents_caches", .ofCount s.caches),
    ("global_names", .ofCount s.globalNames),
    ("global_addresses", .ofCount s.globalAddresses),
    ("recorded_operations", .ofCount s.runs)]

/-- The line about a file. -/
def fileLine (label : String) (file : Path) (there : Bool) : String :=
  "- " ++ label ++ ": " ++ (if there then "OK" else "MISSING") ++ " (" ++ file ++ ")"

/-- The lines of a summary, given which of the three files are there. -/
def lines (s : Status) (configThere databaseThere snapshotThere : Bool) : List String := [
  "tagfix Project Status",
  "=====================",
  "Name: " ++ s.name,
  "Root: " ++ s.root,
  "Schema version: " ++ String.ofList (Json.integerText s.version) ++ " (latest "
    ++ String.ofList (Json.integerText currentVersion) ++ ")",
  "",
  "Files:",
  fileLine "Config" s.configFile configThere,
  fileLine "Cache DB" s.database databaseThere,
  fileLine "Snapshot" s.snapshotFile snapshotThere,
  "",
  "Snapshot: " ++ Text.decimal s.functions ++ " function(s), " ++ Text.decimal s.heads
    ++ " defined address(es)",
  "Snapshot SHA-256: " ++ s.snapshotHash.getD "-",
  "Cache: " ++ Text.decimal s.caches ++ " function cache(s), " ++ Text.decimal s.globalNames
    ++ " global tag name(s), " ++ Text.decimal s.globalAddresses ++ " global address(es)",
  "Recorded operations: " ++ Text.decimal s.runs]

end Status

namespace Project

/-- The counts of the globals index, empty where it has no key. -/
def globalCounts (s : Store) : Except Failure Counts := do
  match ← s.read .globals with
  | none => return ∅
  | some entry =>
    match entry.counts with
    | .ok counts => return counts
    | .error reason => throw (.malformedEntry .globals reason)

/-- The summary of a project, given the digest of its snapshot file. -/
def status (p : Project) (globals : Counts) (snapshotHash : Option String) :
    Except Failure Status := do
  return {
    name := p.config.name
    root := p.layout.root
    configFile := p.layout.configFile
    database := p.database
    version := p.store.version
    snapshotFile := p.snapshotFile
    snapshotHash
    functions := p.snapshot.entries.length
    heads := p.snapshot.heads.size
    caches := (← p.store.contentsKeys).length
    globalNames := globals.names.size
    globalAddresses := globals.addresses.size
    runs := (← p.store.listRuns).length }

variable {m : Type → Type} [Monad m] [Host m]

/-- Show the summary of a project. -/
def showStatus (p : Project) (asJson : Bool) : Step m Unit := do
  let globals ← Step.orStop .failure (globalCounts p.store)
  let snapshotHash ← ExceptT.lift (fingerprint? p.snapshotFile)
  let status ← Step.orStop .failure (p.status globals snapshotHash)
  if asJson then ExceptT.lift (Host.printLine status.toJson.pretty)
  else
    let configThere ← ExceptT.lift (Host.isFile p.layout.configFile)
    let databaseThere ← ExceptT.lift (Host.isFile p.database)
    let snapshotThere ← ExceptT.lift (Host.isFile p.snapshotFile)
    (status.lines configThere databaseThere snapshotThere).forM fun line =>
      ExceptT.lift (Host.printLine line)

end Project

end TagCache
