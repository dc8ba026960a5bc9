import TagCache.Project.Config
import TagCache.Project.Layout
import TagCache.Proofs.Document
import TagCache.Proofs.Json.Pretty
import TagCache.Proofs.Path

/-!
# The paths in a configuration

A new configuration names the database and the snapshot by their ways from the root. Its text is
read as the configuration (`Config.parse?_pretty`), and its paths name the places of the layout,
whatever the root (`default_paths_resolve`). So whoever reads the configuration finds the files that
were made with it.
-/

namespace TagCache

/-! ## Configurations as texts -/

namespace Config

open Document

/-- The form of a configuration that is written can be read. -/
theorem legible_toJson (c : Config) : c.toJson.Legible := by
  unfold toJson
  cases c.description <;>
    exact ⟨trivial, trivial, trivial, ⟨trivial, trivial⟩, ⟨trivial, trivial⟩, trivial⟩

/-- A record of one path is read as the path. -/
theorem path?_document (path : String) :
    path? (Json.object [("path", .string path)]).document = some path := by
  have hfields : (Json.object [("path", .string path)]).document.record? true ["path"]
      = some [some (Json.string path).document] := record?_object (by simp) true ["path"]
  unfold path?
  rw [hfields]
  exact text?_string path

/-- An optional text is read back. -/
theorem optional?_document (o : Option String) :
    optional? text? (Json.ofOption .string o).document = some o := by
  cases o with
  | none => rfl
  | some s => exact congrArg (Option.map some) (text?_string s)

/-- A configuration is read back from the form that is written. -/
theorem ofDocument?_document (c : Config) : ofDocument? c.toJson.document = some c := by
  have hfields : c.toJson.document.record? true fieldNames
      = some [some (Json.string c.name).document,
        some (Json.ofOption .string c.description).document, some (Json.string c.version).document,
        some (Json.object [("path", .string c.database)]).document,
        some (Json.object [("path", .string c.snapshot)]).document] :=
    record?_object (by exact (by decide : fieldNames.Nodup)) true fieldNames
  unfold ofDocument?
  rw [hfields]
  simp only [Option.bind_eq_bind, Option.bind_some, required?, withDefault?, text?_string,
    optional?_document, path?_document]
  rfl

/-- The text of a configuration is read as the configuration. -/
theorem parse?_pretty (c : Config) : parse? c.toJson.pretty = some c := by
  unfold parse?
  rw [Json.read?_pretty c.legible_toJson]
  exact c.ofDocument?_document

end Config

/-! ## Paths from the root -/

namespace Layout

/-- The default place of the database is in the directory of the project's own files. -/
theorem database_ofRoot (root : Path) :
    (ofRoot root).database = root.join ".tagfix/cache.db" := by
  have hjoin : Path.join ".tagfix" "cache.db" = ".tagfix/cache.db" := by decide
  show (root.join ".tagfix").join "cache.db" = _
  rw [Path.join_assoc, hjoin]

/-- The configuration lies beside it. -/
theorem configFile_ofRoot (root : Path) :
    (ofRoot root).configFile = root.join ".tagfix/project.json" := by
  have hjoin : Path.join ".tagfix" "project.json" = ".tagfix/project.json" := by decide
  show (root.join ".tagfix").join "project.json" = _
  rw [Path.join_assoc, hjoin]

/-- A relative path without a dot in front is found again below any root that it is joined to. -/
theorem relativeTo?_join {root p : Path} (hp : p.isAbsolute = false)
    (hsteps : p.further = p.components) (hself : Path.ofComponents p.components = p) :
    (root.join p).relativeTo? root = some p := by
  by_cases hroot : root = ""
  · rw [hroot, Path.empty_join, Path.relativeTo?_empty, hself]
  · rw [Path.relativeTo?_join hroot hp, hsteps, hself]

/-- Seen from the root, the default place of the database is a fixed path. -/
theorem relativeTo?_database (root : Path) :
    (ofRoot root).database.relativeTo? root = some ".tagfix/cache.db" := by
  rw [database_ofRoot]
  exact relativeTo?_join (by decide) (by decide) (by decide)

/-- So is that of the snapshot. -/
theorem relativeTo?_snapshot (root : Path) :
    (ofRoot root).snapshot.relativeTo? root = some "database.json" :=
  relativeTo?_join (by decide) (by decide) (by decide)

/-- A new project is configured with that path of the database. -/
theorem relativeDatabase_ofRoot (root : Path) :
    (ofRoot root).relativeDatabase = ".tagfix/cache.db" :=
  congrArg (Option.getD · _) (relativeTo?_database root)

/-- It is configured with that path of the snapshot. -/
theorem relativeSnapshot_ofRoot (root : Path) :
    (ofRoot root).relativeSnapshot = "database.json" :=
  congrArg (Option.getD · _) (relativeTo?_snapshot root)

/-- An absolute path of a configuration is taken as it is. -/
theorem resolve_of_isAbsolute (l : Layout) {configured : Path} (h : configured.isAbsolute = true) :
    l.resolve configured = configured :=
  if_pos h

/-- A relative path of a configuration goes on from the root. -/
theorem resolve_of_relative (l : Layout) {configured : Path} (h : configured.isAbsolute = false) :
    l.resolve configured = l.root.join configured :=
  if_neg (Bool.eq_false_iff.1 h)

end Layout

/-- The database and the snapshot of a layout are found below its root, by ways that are the same
for all roots, and these ways name their places again. The text of a new configuration is read as
that configuration, whose path names the database. A configured path names itself if it is absolute,
and otherwise the place at the end of the root's steps and its own. -/
theorem default_paths_resolve (root : Path) :
    let l := Layout.ofRoot root
    (l.database.relativeTo? root = some ".tagfix/cache.db" ∧
      l.relativeDatabase = ".tagfix/cache.db" ∧ l.resolve l.relativeDatabase = l.database) ∧
    (l.snapshot.relativeTo? root = some "database.json" ∧
      l.relativeSnapshot = "database.json" ∧ l.resolve l.relativeSnapshot = l.snapshot) ∧
    (∀ name snapshot, ∃ config,
      Config.parse? (Config.new name l.relativeDatabase snapshot).toJson.pretty = some config ∧
      l.resolve config.database = l.database ∧ config.snapshot = snapshot) ∧
    ∀ configured : Path,
      (configured.isAbsolute = true → l.resolve configured = configured) ∧
      (configured.isAbsolute = false → l.resolve configured = root.join configured ∧
        (root ≠ "" → (l.resolve configured).components
          = root.components ++ configured.further)) := by
  intro l
  have hdatabase : l.resolve l.relativeDatabase = l.database := by
    rw [Layout.relativeDatabase_ofRoot, Layout.database_ofRoot]
    exact l.resolve_of_relative (by decide)
  have hsnapshot : l.resolve l.relativeSnapshot = l.snapshot := by
    rw [Layout.relativeSnapshot_ofRoot]
    exact l.resolve_of_relative (by decide)
  refine ⟨⟨Layout.relativeTo?_database root, Layout.relativeDatabase_ofRoot root, hdatabase⟩,
    ⟨Layout.relativeTo?_snapshot root, Layout.relativeSnapshot_ofRoot root, hsnapshot⟩,
    fun name snapshot => ⟨_, Config.parse?_pretty _, hdatabase, rfl⟩, fun configured => ?_⟩
  refine ⟨l.resolve_of_isAbsolute, fun h => ⟨l.resolve_of_relative h, fun hroot => ?_⟩⟩
  rw [l.resolve_of_relative h]
  exact Path.components_join hroot h

/-- The root of a file system, and a path that has to be joined to it. -/
theorem default_paths_resolve_root :
    (Layout.ofRoot "/").resolve (Layout.ofRoot "/").relativeDatabase = "/.tagfix/cache.db" ∧
    Path.isAbsolute "./a//../b" = false ∧ ("/" : Path) ≠ "" ∧
    Path.components ((Layout.ofRoot "/").resolve "./a//../b")
      = [.root, .name "a", .parent, .name "b"] := by
  obtain ⟨⟨-, -, hdatabase⟩, -, -, hresolve⟩ := default_paths_resolve "/"
  obtain ⟨-, hrelative⟩ := hresolve "./a//../b"
  obtain ⟨-, hcomponents⟩ := hrelative (by decide)
  refine ⟨hdatabase.trans (by decide), by decide, by decide, ?_⟩
  exact (hcomponents (by decide)).trans (by decide)

end TagCache
