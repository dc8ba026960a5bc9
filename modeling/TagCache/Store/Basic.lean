import TagCache.Entry
import TagCache.Store.History

/-!
# The store

The persisted cache (`Store`): one document text for each function, the rows of the globals index,
the history of runs, and the version of the layout. A table may be missing, and then whatever
touches it fails. Counts of the index are 64-bit words; a count raised past the greatest signed
number is a real number from then on (`StoredCount.next`), and an index that holds a real number
cannot be read. A change of the store is a value (`Mutation`), which `Mutation.apply` carries out;
what it writes in two steps it writes in one transaction (`StoreM.transaction`).
-/

namespace TagCache

/-- A count of the globals index as it is stored. -/
inductive StoredCount where
  | whole (n : UInt64)
  /-- A number beyond the range of signed words. -/
  | real
deriving DecidableEq, Repr

namespace StoredCount

/-- The greatest signed word. -/
def maxSigned : UInt64 := 0x7fffffffffffffff

/-- A count as it is stored. -/
def ofNat (n : Nat) : StoredCount := .whole (UInt64.ofNat n)

/-- The stored count raised by one. -/
def next : StoredCount → StoredCount
  | .whole n => if n = maxSigned then .real else .whole (n + 1)
  | .real => .real

/-- The count, if it is a word. -/
def toNat? : StoredCount → Option Nat
  | .whole n => some n.toNat
  | .real => none

end StoredCount

/-- The persisted cache. -/
structure Store where
  /-- The version of the layout. -/
  version : Int
  /-- The document text of each function. -/
  contents : Option (Table Address String)
  /-- The names of the globals index. -/
  names : Option (Table String StoredCount)
  /-- The addresses of the globals index. -/
  addresses : Option (Table Address StoredCount)
  /-- The history, in the order of its row numbers. -/
  runs : Option (List RunRow)
deriving DecidableEq, Inhabited

/-- An action on the store. What it changed before a failure stays changed. -/
abbrev StoreM := ExceptT Failure (StateM Store)

/-- A value, or a failure where there is none. -/
def Option.orFail {α : Type} (e : Failure) : Option α → Except Failure α
  | some a => .ok a
  | none => .error e

/-- A change of the store that is undone as a whole where a part of it fails. -/
def StoreM.transaction {α : Type} (action : StoreM α) : StoreM α := fun before =>
  match action before with
  | (.ok a, after) => (.ok a, after)
  | (.error e, _) => (.error e, before)

namespace Store

/-! ## Reading -/

/-- The document of a function, if there is one. -/
def readContents (s : Store) (f : Address) : Except Failure (Option Entry) := do
  match (← Option.orFail .storage s.contents).find? f with
  | none => return none
  | some text => return some (← Entry.parse (.contents f) text)

/-- The counts of an index table, if none of them is a real number. -/
def wholeCounts {κ : Type} [Ord κ] [Std.TransOrd κ] [Std.LawfulEqOrd κ]
    (t : Table κ StoredCount) : Except Failure (Table κ Nat) := do
  if t.values.all (·.toNat?.isSome) then
    return t.mapValues fun _ c => c.toNat?.getD 0
  else throw .storage

/-- The globals index, if it has a key. -/
def readGlobals (s : Store) : Except Failure (Option Entry) := do
  let names ← wholeCounts (← Option.orFail .storage s.names)
  let addresses ← wholeCounts (← Option.orFail .storage s.addresses)
  let counts : Counts := ⟨addresses, names⟩
  return if counts.isEmpty then none else some (.ofCounts .globals counts)

/-- The entry of a partition, if anything is stored for it. -/
def read (s : Store) : Partition → Except Failure (Option Entry)
  | .contents f => s.readContents f
  | .globals => s.readGlobals

/-- The functions with a document, ascending. -/
def contentsKeys (s : Store) : Except Failure (List Address) :=
  (Option.orFail .storage s.contents).map Table.keys

/-- The keys of the globals index: names in order, then addresses ascending. -/
def globalKeys (s : Store) : Except Failure (List GlobalKey) := do
  let names ← Option.orFail .storage s.names
  let addresses ← Option.orFail .storage s.addresses
  return names.keys.map .name ++ addresses.keys.map .address

/-- The records of the history in order. -/
def listRuns (s : Store) : Except Failure (List RunRecord) := do
  (← Option.orFail .storage s.runs).mapM fun r => Option.orFail .storage r.toRecord?

end Store

/-! ## Writing -/

namespace StoreM

/-- Ask the store. -/
def asks {α : Type} (f : Store → Except Failure α) : StoreM α := do
  liftExcept (f (← get))
where
  /-- The result as an action. -/
  liftExcept : Except Failure α → StoreM α
    | .ok a => pure a
    | .error e => throw e

/-- Store an entry of a contents partition. -/
def writeContents (f : Address) (e : Entry) : StoreM Unit := do
  let contents ← asks fun s => Option.orFail .storage s.contents
  modify fun s => { s with contents := some (contents.insert f e.text) }

/-- Change the document of a function, which is created where it is absent. -/
def updateContents (f : Address) (update : Entry → Except Malformation Entry) : StoreM Unit := do
  let entry := (← asks (·.readContents f)).getD (.empty (.contents f))
  match update entry with
  | .ok entry => writeContents f entry
  | .error reason => throw (.malformedEntry (.contents f) reason)

/-- Change the names of the globals index. -/
def updateNames (change : Table String StoredCount → Table String StoredCount) : StoreM Unit := do
  let names ← asks fun s => Option.orFail .storage s.names
  modify fun s => { s with names := some (change names) }

/-- Change the addresses of the globals index. -/
def updateAddresses (change : Table Address StoredCount → Table Address StoredCount) :
    StoreM Unit := do
  let addresses ← asks fun s => Option.orFail .storage s.addresses
  modify fun s => { s with addresses := some (change addresses) }

/-- Lay counts over a table of the index. -/
def overlay {κ : Type} [Ord κ] [Std.TransOrd κ] [Std.LawfulEqOrd κ] (counts : Table κ Nat)
    (t : Table κ StoredCount) : Table κ StoredCount :=
  t.overlay (counts.mapValues fun _ n => StoredCount.ofNat n)

/-- Raise the count of a key of the index by one, from zero where it is absent. -/
def raise {κ : Type} [Ord κ] [Std.TransOrd κ] [Std.LawfulEqOrd κ] (k : κ)
    (t : Table κ StoredCount) : Table κ StoredCount :=
  t.insert k (match t.find? k with
    | some c => c.next
    | none => .whole 1)

/-- Delete the document of a function. -/
def removeContents (f : Address) : StoreM Unit := do
  let contents ← asks fun s => Option.orFail .storage s.contents
  if contents.contains f then
    modify fun s => { s with contents := some (contents.erase f) }
  else throw (.entryMissing (.contents f))

/-- Delete a key of the globals index. -/
def removeGlobal (k : GlobalKey) : StoreM Unit := do
  match k with
  | .name n =>
    let names ← asks fun s => Option.orFail .storage s.names
    if names.contains n then updateNames (·.erase n) else throw (.entryMissing (.global k))
  | .address a =>
    let addresses ← asks fun s => Option.orFail .storage s.addresses
    if addresses.contains a then updateAddresses (·.erase a)
    else throw (.entryMissing (.global k))

/-- Delete everything stored for a partition, and count what was deleted. -/
def deleteAll : Partition → StoreM Nat
  | .contents f =>
    tryCatch (do removeContents f; return 1) fun e =>
      match e with
      | .entryMissing _ => return 0
      | e => throw e
  | .globals => do
    let keys ← asks (·.globalKeys)
    keys.forM removeGlobal
    return keys.length

/-- Add a record to the history, and give its row number. -/
def insertRun (r : RunRecord) : StoreM Nat := do
  let runs ← asks fun s => Option.orFail .storage s.runs
  modify fun s => { s with runs := some (runs ++ [r.toRow]) }
  return runs.length + 1

end StoreM

/-- A change of the cached counts. -/
inductive Mutation where
  /-- Give names absolute counts. -/
  | setNames (partition : Partition) (counts : NameTable)
  /-- Give addresses absolute counts. -/
  | setAddresses (partition : Partition) (counts : AddressTable)
  /-- Add one reference from an address to a name. -/
  | increment (partition : Partition) (address : Address) (name : String)
  /-- Delete the document of a function. -/
  | removeContents (function : Address)
  /-- Delete a key of the globals index. -/
  | removeGlobal (key : GlobalKey)
deriving DecidableEq

/-- Carry out a change. -/
def Mutation.apply : Mutation → StoreM Unit
  | .setNames (.contents f) t => StoreM.updateContents f fun e => .ok (e.setNames t)
  | .setNames .globals t => StoreM.updateNames (StoreM.overlay t)
  | .setAddresses (.contents f) t => StoreM.updateContents f fun e => .ok (e.setAddresses t)
  | .setAddresses .globals t => StoreM.updateAddresses (StoreM.overlay t)
  | .increment (.contents f) a n => StoreM.updateContents f fun e => e.increment a n
  | .increment .globals a n => StoreM.transaction do
    StoreM.updateNames (StoreM.raise n)
    StoreM.updateAddresses (StoreM.raise a)
  | .removeContents f => StoreM.removeContents f
  | .removeGlobal k => StoreM.removeGlobal k

/-- Whether a change of a store adds up what does not fit a word. That is so of documents only: the
database adds up the counts of the index. -/
def Mutation.overflows (s : Store) : Mutation → Bool
  | .increment (.contents f) a n =>
    match s.readContents f with
    | .ok (some e) => e.overflows a n
    | _ => false
  | _ => false

end TagCache
