import TagCache.Document
import TagCache.Json.Printer
import TagCache.Json.Reader

/-!
# Project configurations

What a project is called and where its database and its snapshot lie (`Config`), with its JSON form
(`Config.parse?`, `Config.toJson`).
-/

namespace TagCache

/-- The configuration of a project. -/
structure Config where
  name : String
  description : Option String
  /-- The version of the form of the configuration. -/
  version : String
  /-- The path of the cache database. -/
  database : String
  /-- The path of the snapshot. -/
  snapshot : String
deriving DecidableEq, Repr

namespace Config

open Document

/-- The configuration of a new project. -/
def new (name database snapshot : String) : Config :=
  { name, description := none, version := "0.1.0", database, snapshot }

/-- Decode a record of one path. -/
def path? (d : Document) : Option String := do
  match ← d.record? true ["path"] with
  | [path] => required? text? path
  | _ => none

/-- The names of the fields of a configuration. -/
def fieldNames : List String := ["name", "description", "config_version", "db", "snapshot"]

/-- Decode a configuration. -/
def ofDocument? (d : Document) : Option Config := do
  match ← d.record? true fieldNames with
  | [name, description, version, database, snapshot] =>
    return {
      name := ← required? text? name
      description := ← withDefault? none (optional? text?) description
      version := ← required? text? version
      database := ← required? path? database
      snapshot := ← required? path? snapshot }
  | _ => none

/-- Read a configuration. -/
def parse? (text : String) : Option Config := (Json.read? text).bind ofDocument?

/-- The form of a configuration that is written. -/
def toJson (c : Config) : Json :=
  .object [
    ("name", .string c.name),
    ("description", .ofOption .string c.description),
    ("config_version", .string c.version),
    ("db", .object [("path", .string c.database)]),
    ("snapshot", .object [("path", .string c.snapshot)])]

end Config

end TagCache
