import TagCache.Project.Basic

/-!
# New projects

`Project.create` makes the files of a project in a directory: its configuration, its cache database,
and an empty snapshot where none is there.
-/

namespace TagCache.Project

variable {m : Type → Type} [Monad m] [Host m]

/-- Write an empty snapshot where nothing lies. -/
def ensureSnapshot (file : Path) : Step m Unit := do
  if !(← ExceptT.lift (Host.isPresent file)) then
    Step.within ("Failed to write empty snapshot: " ++ file) .file
      (Host.writeText file (Snapshot.empty 0 0).toJson.pretty)

/-- Make a project in the directory that the text of a root names. -/
def create (root : String) (name snapshot : Option String) : Step m Unit := do
  let layout := Layout.ofRoot (← ExceptT.lift (resolveRoot root))
  Step.within ("Failed to create meta dir: " ++ layout.metaDir) .file
    (Host.makeDirectories layout.metaDir)
  let config := Config.new (name.getD (Layout.defaultName layout.root)) layout.relativeDatabase
    (snapshot.getD layout.relativeSnapshot)
  Step.within ("Failed to write project config: " ++ layout.configFile) .file
    (Host.writeText layout.configFile config.toJson.pretty)
  discard <| Step.within ("Failed to initialize cache database at " ++ layout.database) .failure
    (Host.openStore layout.database)
  let snapshotFile := layout.resolve config.snapshot
  ensureSnapshot snapshotFile
  [ "Initialized tagfix project:",
    "  Name: " ++ config.name,
    "  Root: " ++ layout.root,
    "  Config: " ++ layout.configFile,
    "  DB path (relative): " ++ config.database,
    "  Snapshot: " ++ snapshotFile ].forM fun line => ExceptT.lift (Host.printLine line)

end TagCache.Project
