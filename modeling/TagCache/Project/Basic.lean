import TagCache.Digest
import TagCache.Host.Basic
import TagCache.Project.Config
import TagCache.Project.Layout
import TagCache.Project.Problem
import TagCache.Snapshot.Format

/-!
# Projects

A project is a configuration, an open cache database and a snapshot (`Project`). `Project.load`
reads the configuration in a directory, opens the database and reads the snapshot, in this order;
what it meets first is the problem. `Project.fingerprint` is the digest of a snapshot file.
-/

namespace TagCache

/-- A project with everything opened. -/
structure Project where
  layout : Layout
  config : Config
  /-- The path of the cache database. -/
  database : Path
  /-- The place of the cache database. -/
  location : Location
  store : Store
  /-- The path of the snapshot. -/
  snapshotFile : Path
  snapshot : Snapshot

/-- A step of a command, which may meet a problem. -/
abbrev Step (m : Type → Type) := ExceptT Problem m

namespace Step

variable {m : Type → Type} [Monad m] {α ε : Type}

/-- Go on with a result, or stop with a problem made of its error. -/
def orStop (problem : ε → Problem) : Except ε α → Step m α
  | .ok a => pure a
  | .error e => throw (problem e)

/-- Go on with the result of an action, or stop with a problem made of its error in a context. -/
def within (context : String) (problem : ε → Problem) (action : m (Except ε α)) : Step m α := do
  orStop (fun e => .within context (problem e)) (← ExceptT.lift action)

end Step

namespace Project

variable {m : Type → Type} [Monad m] [Host m]

/-- The directory that the text of a root names. -/
def resolveRoot (root : String) : m Path := do
  let path := (← Host.workingDirectory).join root
  return (← Host.canonical? path).getD path

/-- Read the configuration of a project. -/
def loadConfig (layout : Layout) : Step m Config := do
  let text ← Step.within ("Failed to read project config at " ++ layout.configFile) .file
    (Host.readText layout.configFile)
  match Config.parse? text with
  | some config => return config
  | none => throw (.within "Failed to parse project config JSON" .malformedConfig)

/-- Read a text as a snapshot, in the format that the name of its file tells. -/
def parseSnapshot (file : Path) (text : String) : Except Failure Snapshot :=
  if file.extension? = some "yaml" ∨ file.extension? = some "yml" then Snapshot.parseYaml text
  else Snapshot.parseJson text

/-- Read a snapshot. -/
def loadSnapshot (file : Path) : Step m Snapshot := do
  let text ← Step.within ("Failed to read snapshot at " ++ file) .file (Host.readText file)
  Step.orStop (fun e => .within ("Failed to parse snapshot at " ++ file) (.failure e))
    (parseSnapshot file text)

/-- Open the project in a directory. -/
def load (root : Path) : Step m Project := do
  let layout := Layout.ofRoot root
  let config ← loadConfig layout
  let database := layout.resolve config.database
  let (location, store) ← Step.within ("Failed to open cache database at " ++ database) .failure
    (Host.openStore database)
  let snapshotFile := layout.resolve config.snapshot
  let snapshot ← loadSnapshot snapshotFile
  return { layout, config, database, location, store, snapshotFile, snapshot }

/-- Open the project that the text of a root names. -/
def loadAt (root : String) : Step m Project := do load (← ExceptT.lift (resolveRoot root))

/-- The digest of a snapshot file. -/
def fingerprint (file : Path) : Step m String := do
  let bytes ← Step.within ("Failed to read snapshot for hashing: " ++ file) .file (Host.read file)
  return (Digest.sha256 bytes).text

/-- The digest of a snapshot file. If it cannot be read, that is only logged. -/
def fingerprint? (file : Path) : m (Option String) := do
  match ← (fingerprint file).run with
  | .ok hash => return some hash
  | .error problem =>
    Host.warn "tagfix" (problem.summary (← Host.conditions).wording)
    return none

end Project

end TagCache
