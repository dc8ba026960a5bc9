import TagCache.Session.Basic
import TagCache.Snapshot.Basic

/-!
# Building the cache

Operations that count references in a snapshot and store the counts: of one function
(`Session.contents`), of the globals index (`Session.globals`) or of both for the whole database
(`Session.all`), and operations that add the references of custom names (`Session.customNames`) and
extra comment lines (`Session.extraComments`) one by one. Building lays the counts over what is
stored; it removes no key.
-/

namespace TagCache.Session

/-- A position in a list of things done, counted from one. -/
def progress (position total : Nat) : String :=
  Text.decimal position ++ " of " ++ Text.decimal total

/-- Count the tags of addresses in order, visiting each. -/
def countTags (db : Snapshot) (addresses : List Address) : Session Counts :=
  countReferences visit (fun a => pure (db.tagsAt a)) addresses

/-- Count the references held by the items of a function. -/
def countContents (db : Snapshot) (f : Address) : Session Counts := do
  countTags db (← ofExcept (Option.orFail (.functionNotFound f) (db.functionItems? f)))

/-- Build the contents cache of the function that owns an address. An address outside all functions
gives a warning and empty counts. -/
def contents (db : Snapshot) (a : Address) : Session Counts := do
  let tell (level : LogLevel) (text : String) := log level ("contents(" ++ a.text ++ "): " ++ text)
  match db.functionOf? a with
  | none =>
    tell .warn ("unable to cache the address " ++ a.text ++ " as it is not a function")
    return ∅
  | some f =>
    tell .debug ("fetching the cache for the function " ++ f.text)
    let counts ← countContents db f
    visit a
    tell .debug ("updating the name references for function " ++ f.text)
    mutate (.setNames (.contents f) counts.names)
    tell .debug ("updating the address references for function " ++ f.text)
    mutate (.setAddresses (.contents f) (counts.addresses.filter fun a _ => db.withinFunction a))
    return counts

/-- Count the tags of the functions with the given entry points, from a position on. -/
def countFunctionTags (db : Snapshot) (total : Nat) :
    Nat → Counts → List Address → Session Counts
  | _, counts, [] => return counts
  | position, counts, f :: fs => do
    visit f
    let names ← ofExcept (Option.orFail (.functionNotFound f) (db.functionTags? f))
    writeLine ("globals: counting the tags assigned to function " ++ f.text ++ " : "
      ++ progress position total)
    countFunctionTags db total (position + 1) (counts.tally f names.toList) fs

/-- The defined addresses within the bounds that no function owns, ascending. -/
def globalHeads (db : Snapshot) : List Address :=
  db.boundedHeads.filter fun a => !db.withinFunction a

/-- Count the tags of functions and of the addresses outside functions. -/
def countGlobals (db : Snapshot) : Session Counts := do
  let functions ← countFunctionTags db db.entries.length 1 ∅ db.entries
  writeLine "globals: counting any tags that are assigned to global data"
  let data ← countTags db (globalHeads db)
  writeLine "globals: tallying up the database tags for building the index"
  let counts := functions.merge data
  writeLine ("globals: found " ++ Text.decimal counts.addresses.size
    ++ " addresses to include in index")
  writeLine ("globals: found " ++ Text.decimal counts.names.size ++ " tags to include in index")
  return counts

/-- Build the globals index. -/
def globals (db : Snapshot) : Session Counts := do
  let counts ← countGlobals db
  writeLine "globals: updating the name references in the index for the database"
  mutate (.setNames .globals counts.names)
  writeLine "globals: updating the address references in the index for the database"
  mutate (.setAddresses .globals counts.addresses)
  return counts

/-- Build the contents caches of functions, from a position on. -/
def allContents (db : Snapshot) (total : Nat) : Nat → List Address → Session Unit
  | _, [] => return ()
  | position, f :: fs => do
    writeLine ("updating the cache for the tags belonging to function (" ++ f.text ++ ") : "
      ++ progress position total)
    discard (contents db f)
    allContents db total (position + 1) fs

/-- Build the contents cache of every function and then the globals index. -/
def all (db : Snapshot) : Session Unit := do
  allContents db db.entries.length 1 db.entries
  writeLine "updating the index for the database with references for all globals"
  discard (globals db)

/-! ## Implicit tags -/

/-- Where an implicit tag at an address is counted: with the function that owns the address, but at
an entry point, and outside functions, in the globals index. -/
def implicitPartition (db : Snapshot) (a : Address) : Partition :=
  match db.functionOf? a with
  | some f => if f = a then .globals else .contents f
  | none => .globals

/-- Add references one by one, and count them. -/
def addReferences : List (Partition × Address × String) → Session Nat
  | [] => return 0
  | (p, a, name) :: rest => do
    mutate (.increment p a name)
    return 1 + (← addReferences rest)

/-- The references of the custom names within the bounds, in order. -/
def customNameReferences (db : Snapshot) : List (Partition × Address × String) :=
  (db.boundedHeads.filter db.hasCustomName).map fun a => (implicitPartition db a, a, nameTag)

/-- Add a reference for each custom name, and count them. -/
def customNames (db : Snapshot) : Session Nat := do
  let added ← addReferences (customNameReferences db)
  log .debug ("customnames: added " ++ Text.decimal added ++ " references")
  return added

/-- The references of the extra comment lines at an address: those before it, then those after. -/
def extraReferences (db : Snapshot) (a : Address) : List (Partition × Address × String) :=
  [ExtraSide.before, .after].flatMap fun side =>
    List.replicate (db.extraLines a side) (implicitPartition db a, a, side.tag)

/-- Add a reference for each extra comment line within the bounds, and count them. -/
def extraComments (db : Snapshot) : Session Nat := do
  let added ← addReferences (db.boundedHeads.flatMap (extraReferences db))
  log .debug ("extracomments: added " ++ Text.decimal added ++ " references")
  return added

end TagCache.Session
