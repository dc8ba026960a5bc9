import TagCache.Counts
import TagCache.Json.Basic
import TagCache.Segment

/-!
# Database snapshots

The authoritative view of a disassembly database (`Snapshot`): its bounds and defined addresses
("heads"), its functions with their chunks and tags, the tags, custom names and extra comment lines
at addresses, its segments and the cursor. The queries of this module are all that the cache reads:
the tags of addresses and functions, the functions and their items, and which function owns an
address (`Snapshot.functionOf?`: the first in the list that contains it).
-/

namespace TagCache

/-- The tags of one place, by name. -/
abbrev TagTable := Table String Json

/-- A range of addresses from `start` up to below `stop` that one function owns. -/
structure Chunk where
  start : Address
  stop : Address
deriving DecidableEq, Repr, Inhabited

namespace Chunk

/-- Whether the chunk covers an address. -/
def contains (c : Chunk) (a : Address) : Bool := c.start ≤ a && a < c.stop

/-- Whether two chunks overlap, as their ends tell. -/
def overlaps (c d : Chunk) : Bool := c.start < d.stop && d.start < c.stop

/-- Whether the chunk covers no address. -/
def isEmpty (c : Chunk) : Bool := c.stop ≤ c.start

end Chunk

/-- A function: its entry point, its chunks and the tags of the function itself. -/
structure FunctionInfo where
  entry : Address
  chunks : List Chunk
  tags : TagTable
deriving DecidableEq, Inhabited

namespace FunctionInfo

/-- Whether an address lies in one of the chunks. -/
def contains (f : FunctionInfo) (a : Address) : Bool := f.chunks.any (·.contains a)

/-- Whether a chunk of one function overlaps a chunk of the other. -/
def overlaps (f g : FunctionInfo) : Bool :=
  f.chunks.any fun c => g.chunks.any fun d => c.overlaps d

/-- Give a tag to the first of the functions with the given entry point. -/
def tagFirst (entry : Address) (name : String) (value : Json) :
    List FunctionInfo → List FunctionInfo
  | [] => []
  | f :: fs =>
    if f.entry = entry then { f with tags := f.tags.insert name value } :: fs
    else f :: tagFirst entry name value fs

end FunctionInfo

/-- The number of extra comment lines on either side of an address. -/
structure ExtraLines where
  before : Nat
  after : Nat
deriving DecidableEq, Repr, Inhabited

/-- The lines on one side. -/
def ExtraLines.on (x : ExtraLines) : ExtraSide → Nat
  | .before => x.before
  | .after => x.after

/-- A headless image of a disassembly database. -/
structure Snapshot where
  /-- The first address of the bounds. -/
  low : Address
  /-- The first address above the bounds. -/
  high : Address
  /-- Every defined address. -/
  heads : KeySet Address
  functions : List FunctionInfo
  /-- The tags at addresses. -/
  tags : Table Address TagTable
  customNames : KeySet Address
  extraComments : Table Address ExtraLines
  segments : List Segment
  /-- The address under the cursor. -/
  cursor : Option Address
deriving DecidableEq

/-- Put an address into an ascending list, behind its equals. -/
def insertAscending (a : Address) : List Address → List Address
  | [] => [a]
  | b :: rest => if b ≤ a then b :: insertAscending a rest else a :: b :: rest

/-- The addresses in ascending order. -/
def ascending (as : List Address) : List Address := as.foldr insertAscending []

namespace Snapshot

/-- A database with the given bounds and nothing in it. -/
def empty (low high : Address) : Snapshot :=
  { low, high, heads := ∅, functions := [], tags := ∅, customNames := ∅, extraComments := ∅,
    segments := [], cursor := none }

instance : Inhabited Snapshot := ⟨empty 0 0⟩

/-- The first function with the given entry point. -/
def function? (s : Snapshot) (entry : Address) : Option FunctionInfo :=
  s.functions.find? (·.entry == entry)

/-- The names of the tags at an address. -/
def tagsAt (s : Snapshot) (a : Address) : NameSet :=
  match s.tags.find? a with
  | some t => t.mapValues fun _ _ => ()
  | none => ∅

/-- The names of the tags of the function with the given entry point. -/
def functionTags? (s : Snapshot) (entry : Address) : Option NameSet :=
  (s.function? entry).map fun f => f.tags.mapValues fun _ _ => ()

/-- The entry points of all functions, ascending. -/
def entries (s : Snapshot) : List Address := ascending (s.functions.map (·.entry))

/-- The entry point of the function that owns an address: the first in the list that contains
it. -/
def functionOf? (s : Snapshot) (a : Address) : Option Address :=
  (s.functions.find? (·.contains a)).map (·.entry)

/-- Whether a function owns the address. -/
def withinFunction (s : Snapshot) (a : Address) : Bool := (s.functionOf? a).isSome

/-- Whether an address lies in the function with the given entry point. -/
def functionContains (s : Snapshot) (entry a : Address) : Bool :=
  (s.function? entry).any (·.contains a)

/-- The defined addresses in the function with the given entry point, ascending. -/
def functionItems? (s : Snapshot) (entry : Address) : Option (List Address) :=
  (s.function? entry).map fun f => s.heads.toList.filter f.contains

/-- The defined addresses from `low` up to below `high`, ascending. -/
def headsIn (s : Snapshot) (low high : Address) : List Address :=
  s.heads.toList.filter fun a => low ≤ a && a < high

/-- The defined addresses within the bounds, ascending. -/
def boundedHeads (s : Snapshot) : List Address := s.headsIn s.low s.high

/-- Whether the user gave the address a name. -/
def hasCustomName (s : Snapshot) (a : Address) : Bool := s.customNames.contains a

/-- The number of extra comment lines on one side of an address. -/
def extraLines (s : Snapshot) (a : Address) (side : ExtraSide) : Nat :=
  match s.extraComments.find? a with
  | some x => x.on side
  | none => 0

/-! ## Building -/

/-- Define an address. -/
def withHead (s : Snapshot) (a : Address) : Snapshot := { s with heads := s.heads.add a }

/-- Define a function with one chunk. Its entry point becomes a head. -/
def withFunction (s : Snapshot) (entry start stop : Address) : Snapshot :=
  { s.withHead entry with functions := s.functions ++ [⟨entry, [⟨start, stop⟩], ∅⟩] }

/-- Give a tag to the first function with the given entry point. -/
def withFunctionTag (s : Snapshot) (entry : Address) (name : String) (value : Json) : Snapshot :=
  { s with functions := FunctionInfo.tagFirst entry name value s.functions }

/-- Give a tag to an address, which becomes a head. -/
def withTag (s : Snapshot) (a : Address) (name : String) (value : Json) : Snapshot :=
  { s.withHead a with tags := s.tags.insert a ((s.tags.getD a ∅).insert name value) }

/-- Note that the user named an address, which becomes a head. -/
def withCustomName (s : Snapshot) (a : Address) : Snapshot :=
  { s.withHead a with customNames := s.customNames.add a }

/-- Set the extra comment lines of an address, which becomes a head. -/
def withExtraComments (s : Snapshot) (a : Address) (lines : ExtraLines) : Snapshot :=
  { s.withHead a with extraComments := s.extraComments.insert a lines }

/-- Add a segment behind the others. -/
def withSegment (s : Snapshot) (g : Segment) : Snapshot := { s with segments := s.segments ++ [g] }

end Snapshot

end TagCache
