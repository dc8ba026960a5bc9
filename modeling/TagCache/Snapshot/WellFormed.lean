import TagCache.Failure
import TagCache.Snapshot.Basic

/-!
# Well-formed snapshots

What the cache relies on: bounds in order, distinct entry points, non-empty chunks, functions that
contain their own entry points, and no address in two functions (`Snapshot.WellFormed`).
`Snapshot.check` decides it and tells the first fault that it meets.
-/

namespace TagCache.Snapshot

/-- What the cache relies on. -/
structure WellFormed (s : Snapshot) : Prop where
  bounds : s.low ≤ s.high
  distinct : (s.functions.map (·.entry)).Nodup
  nonempty : ∀ f ∈ s.functions, ∀ c ∈ f.chunks, c.start < c.stop
  entry_mem : ∀ f ∈ s.functions, f.contains f.entry = true
  disjoint : s.functions.Pairwise fun f g =>
    ∀ a : Address, ¬(f.contains a = true ∧ g.contains a = true)

/-- Check functions one by one, given the entry points already seen. -/
def checkFunctions (seen : KeySet Address) : List FunctionInfo → Except SnapshotFault Unit
  | [] => .ok ()
  | f :: fs =>
    if seen.contains f.entry then .error (.duplicateFunction f.entry)
    else if f.chunks.any (·.isEmpty) then .error (.emptyChunk f.entry)
    else if !f.contains f.entry then .error (.entryOutside f.entry)
    else checkFunctions (seen.add f.entry) fs

/-- Check each function against the later ones. -/
def checkOverlaps : List FunctionInfo → Except SnapshotFault Unit
  | [] => .ok ()
  | f :: fs =>
    match fs.find? f.overlaps with
    | some g => .error (.overlap f.entry g.entry)
    | none => checkOverlaps fs

/-- Check a snapshot: its bounds, then each function, then each pair of functions. -/
def check (s : Snapshot) : Except SnapshotFault Unit := do
  if s.high < s.low then throw (.reversedBounds s.low s.high)
  checkFunctions ∅ s.functions
  checkOverlaps s.functions

end TagCache.Snapshot
