import TagCache.Path

/-!
# The layout of a project

Where the files of a project lie below its root directory (`Layout`), and how a configured path is
understood (`Layout.resolve`). The paths that a new configuration holds are relative to the root.
-/

namespace TagCache

/-- The places of a project's files. -/
structure Layout where
  root : Path
  /-- The directory of the project's own files. -/
  metaDir : Path
  /-- The file of the configuration. -/
  configFile : Path
  /-- The default place of the cache database. -/
  database : Path
  /-- The default place of the snapshot. -/
  snapshot : Path
deriving DecidableEq, Repr

namespace Layout

/-- The layout of the project in a directory. -/
def ofRoot (root : Path) : Layout :=
  let metaDir := root.join ".tagfix"
  { root, metaDir
    configFile := metaDir.join "project.json"
    database := metaDir.join "cache.db"
    snapshot := root.join "database.json" }

/-- A path as seen from the root, where it lies below it. -/
def relative (l : Layout) (p : Path) : Path := (p.relativeTo? l.root).getD p

/-- The default place of the cache database as seen from the root. -/
def relativeDatabase (l : Layout) : Path := l.relative l.database

/-- The default place of the snapshot as seen from the root. -/
def relativeSnapshot (l : Layout) : Path := l.relative l.snapshot

/-- The place that a configured path names. -/
def resolve (l : Layout) (configured : Path) : Path :=
  if configured.isAbsolute then configured else l.root.join configured

/-- The name of a project that is not given one: that of its directory. -/
def defaultName (root : Path) : String := root.fileName?.getD "tagfix-project"

end Layout

end TagCache
