import TagCache.Store.Basic

/-!
# The layout of the database

Opening a database brings its layout to the newest version (`StoreM.upgrade`). Version 1 has the
tables of the cache, version 2 adds the history. A layout newer than that is refused, and a table
that is there already is kept with its rows.
-/

namespace TagCache

namespace Store

/-- A database without any table. -/
def blank : Store := ⟨0, none, none, none, none⟩

/-- The store with the tables of the cache, which makes it version 1. -/
def withCacheTables (s : Store) : Store :=
  { s with
    version := 1
    contents := s.contents <|> some ∅
    names := s.names <|> some ∅
    addresses := s.addresses <|> some ∅ }

/-- The store with the table of the history, which makes it version 2. -/
def withHistory (s : Store) : Store := { s with version := 2, runs := s.runs <|> some [] }

/-- The names of the tables that are there, in order. -/
def tableNames (s : Store) : List String :=
  (if s.contents.isSome then ["contents_cache"] else [])
    ++ (if s.addresses.isSome then ["globals_addresses"] else [])
    ++ (if s.names.isSome then ["globals_names"] else [])
    ++ (if s.runs.isSome then ["rebuild_runs"] else [])

end Store

/-- Bring the layout to the newest version. -/
def StoreM.upgrade : StoreM Unit := do
  let version := (← get).version
  if currentVersion < version then throw (.unsupportedVersion version)
  if version = 0 then modify Store.withCacheTables
  if (← get).version < currentVersion then modify Store.withHistory

/-- Open a database. -/
def Store.opened (s : Store) : Except Failure Store :=
  match StoreM.upgrade s with
  | (.ok (), s) => .ok s
  | (.error e, _) => .error e

/-- A store without entries. -/
def Store.fresh : Store := Store.blank.withCacheTables.withHistory

end TagCache
