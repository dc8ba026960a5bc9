import TagCache.Session.Rebuild

/-!
# Erasing the cache

An erasure deletes one key at a time, when it is asked for the next one (`Erasure`). A key that is
gone already counts as deleted. `Session.erase` runs the erasure of all contents caches and then
that of the globals index, and writes a line for each key; `Session.everything` builds the cache
anew after that.
-/

namespace TagCache

/-- Keys that are still to be deleted, in order. -/
structure Erasure (κ : Type) where
  /-- Delete one key. -/
  remove : κ → Session Unit
  /-- The number of keys at the start. -/
  total : Nat
  /-- The position of the next key. -/
  index : Nat
  pending : List κ

namespace Erasure

variable {κ : Type}

/-- The erasure of a list of keys. -/
def ofKeys (remove : κ → Session Unit) (keys : List κ) : Erasure κ :=
  ⟨remove, keys.length, 0, keys⟩

/-- Delete a key that may be gone already. -/
def removal (remove : κ → Session Unit) (k : κ) : Session Unit :=
  tryCatch (remove k) fun e =>
    match e with
    | .entryMissing _ => return ()
    | e => throw e

/-- The deletion of the next key, which gives its position and itself, and the erasure after
it. -/
def next? (e : Erasure κ) : Option (Session (Nat × κ) × Erasure κ) :=
  match e.pending with
  | [] => none
  | k :: rest =>
    some (do removal e.remove k; return (e.index, k),
      { e with index := e.index + 1, pending := rest })

/-- The least and the greatest number of keys that are still to be deleted. -/
def sizeHint (e : Erasure κ) : Nat × Option Nat := (e.pending.length, some e.pending.length)

/-- Delete at most `n` keys. A failure is one of the results and stops nothing. -/
def pull : Nat → Erasure κ → StateM SessionState (List (Except Failure (Nat × κ)) × Erasure κ)
  | 0, e => return ([], e)
  | n + 1, e =>
    match e.next? with
    | none => return ([], e)
    | some (action, rest) => do
      let item ← action.run
      let (items, rest) ← pull n rest
      return (item :: items, rest)

/-- Delete keys from a position on, and report each one after it is deleted. -/
def drainFrom (remove : κ → Session Unit) (report : Nat → κ → Session Unit) :
    Nat → List κ → Session Unit
  | _, [] => return ()
  | index, k :: rest => do
    removal remove k
    report index k
    drainFrom remove report (index + 1) rest

/-- Delete all keys, and report each one after it is deleted. The first failure ends it. -/
def drain (e : Erasure κ) (report : Nat → κ → Session Unit) : Session Unit :=
  drainFrom e.remove report e.index e.pending

end Erasure

namespace Session

/-- The erasure of the contents cache of every function. Each function is visited. -/
def contentsErasure (db : Snapshot) : Erasure Address :=
  Erasure.ofKeys (fun f => do visit f; mutate (.removeContents f)) db.entries

/-- The erasure of every key of the globals index. -/
def globalsErasure : Session (Erasure GlobalKey) := do
  return Erasure.ofKeys (fun k => mutate (.removeGlobal k)) (← asks (·.globalKeys))

/-- Erase the contents caches and then the globals index, and count their keys. -/
def erase (db : Snapshot) : Session Nat := do
  let keys ← asks (·.globalKeys)
  let contents := contentsErasure db
  let total := contents.total + keys.length
  contents.drain fun i f =>
    writeLine ("removing the cache for function " ++ f.text ++ " : " ++ progress (1 + i) total)
  let globals ← globalsErasure
  globals.drain fun i k =>
    writeLine ("removing the global " ++ k.text ++ " from the index : "
      ++ progress (1 + contents.total + i) total)
  log .debug ("erase: visited " ++ Text.decimal total ++ " cache entries")
  return total

/-- Erase the cache and build it anew. -/
def everything (db : Snapshot) : Session Unit := do
  discard (erase db)
  all db

end Session

end TagCache
