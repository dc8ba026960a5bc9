import TagCache.Document
import TagCache.Json.Printer
import TagCache.Json.Reader
import TagCache.Snapshot.WellFormed
import TagCache.Yaml.Reader

/-!
# The file format of snapshots

A snapshot is a record of its parts; only the bounds have no default. `Snapshot.ofDocument?` decodes
one from any structured text, `Snapshot.toJson` gives the form that is written, with every set and
table in ascending order, and `Snapshot.parseJson` and `Snapshot.parseYaml` read a text and check
what they read.
-/

namespace TagCache

/-- What a file format allows beyond its grammar. -/
structure Dialect where
  /-- Whether a record may be a sequence of its fields. -/
  positional : Bool
  /-- The greatest number of sequences and mappings around and at a value. -/
  maxDepth : Nat
deriving DecidableEq, Repr

namespace Document

/-- A set of addresses, as a sequence. -/
def addressSet? (d : Document) : Option (KeySet Address) := do
  return KeySet.ofList (← (← d.items?).mapM (·.word?))

/-- A table by addresses. Of two members with one key the later holds. -/
def addressTable? {α : Type} (read : Document → Option α) (d : Document) :
    Option (Table Address α) := do
  let members ← (← d.members?).mapM fun (k, v) => do return (← k.word?, ← read v)
  return Table.ofList members

/-- A table of tags, whose values nest at most `room` sequences and mappings. Of two members with
one key the later holds. -/
def tagTable? (room : Nat) (d : Document) : Option TagTable := do
  return Table.ofList (← membersToJson? room (← d.members?))

/-- Two addresses. -/
def addressPair? : Document → Option (Address × Address)
  | .sequence [x, y] => do return (← x.word?, ← y.word?)
  | _ => none

end Document

open Document

/-- The names of the fields of a chunk. -/
def Chunk.fieldNames : List String := ["start", "end"]

/-- Decode a chunk. -/
def Chunk.ofDocument? (positional : Bool) (d : Document) : Option Chunk := do
  match ← d.record? positional fieldNames with
  | [start, stop] => return ⟨← required? word? start, ← required? word? stop⟩
  | _ => none

/-- The form of a chunk that is written. -/
def Chunk.toJson (c : Chunk) : Json :=
  .object [("start", .ofCount c.start.toNat), ("end", .ofCount c.stop.toNat)]

/-- The names of the fields of a function. -/
def FunctionInfo.fieldNames : List String := ["entry", "chunks", "tags"]

/-- Decode a function whose tags nest at most `room` sequences and mappings. -/
def FunctionInfo.ofDocument? (positional : Bool) (room : Nat) (d : Document) :
    Option FunctionInfo := do
  match ← d.record? positional fieldNames with
  | [entry, chunks, tags] =>
    return {
      entry := ← required? word? entry
      chunks := ← required? (fun d => do (← d.items?).mapM (Chunk.ofDocument? positional)) chunks
      tags := ← withDefault? ∅ (tagTable? room) tags }
  | _ => none

/-- The form of a function that is written. An empty table of tags is left out. -/
def FunctionInfo.toJson (f : FunctionInfo) : Json :=
  .object ([("entry", .ofCount f.entry.toNat), ("chunks", .array (f.chunks.map Chunk.toJson))]
    ++ if f.tags.isEmpty then [] else [("tags", .object f.tags.entries)])

/-- The names of the fields of extra comment lines. -/
def ExtraLines.fieldNames : List String := ["prefix", "suffix"]

/-- Decode extra comment lines. -/
def ExtraLines.ofDocument? (positional : Bool) (d : Document) : Option ExtraLines := do
  match ← d.record? positional fieldNames with
  | [before, after] =>
    let lines? := withDefault? 0 (wordBelow? UInt64.size)
    return ⟨← lines? before, ← lines? after⟩
  | _ => none

/-- The form of extra comment lines that is written. -/
def ExtraLines.toJson (x : ExtraLines) : Json :=
  .object [("prefix", .ofCount x.before), ("suffix", .ofCount x.after)]

/-- The names of the fields of a segment. -/
def Segment.fieldNames : List String := ["handle", "name", "start", "end"]

/-- Decode a segment. -/
def Segment.ofDocument? (positional : Bool) (d : Document) : Option Segment := do
  match ← d.record? positional fieldNames with
  | [handle, name, start, stop] =>
    return {
      handle := UInt32.ofNat (← required? (wordBelow? UInt32.size) handle)
      name := ← required? text? name
      start := ← required? word? start
      stop := ← required? word? stop }
  | _ => none

/-- The form of a segment that is written. -/
def Segment.toJson (s : Segment) : Json :=
  .object [("handle", .ofCount s.handle.toNat), ("name", .string s.name),
    ("start", .ofCount s.start.toNat), ("end", .ofCount s.stop.toNat)]

namespace Snapshot

/-- The names of the fields of a snapshot. -/
def fieldNames : List String :=
  ["bounds", "heads", "functions", "tags", "custom_names", "extra_comments", "segments", "cursor"]

/-- Decode a snapshot. The values of tags stand inside three levels at an address and inside four
at a function. -/
def ofDocument? (dialect : Dialect) (d : Document) : Option Snapshot := do
  let positional := dialect.positional
  match ← d.record? positional fieldNames with
  | [bounds, heads, functions, tags, customNames, extraComments, segments, cursor] =>
    let (low, high) ← required? addressPair? bounds
    let listOf {α : Type} (read : Document → Option α) (d : Document) : Option (List α) := do
      (← d.items?).mapM read
    return {
      low, high
      heads := ← withDefault? ∅ addressSet? heads
      functions := ← withDefault? []
        (listOf (FunctionInfo.ofDocument? positional (dialect.maxDepth - 4))) functions
      tags := ← withDefault? ∅ (addressTable? (tagTable? (dialect.maxDepth - 3))) tags
      customNames := ← withDefault? ∅ addressSet? customNames
      extraComments := ← withDefault? ∅ (addressTable? (ExtraLines.ofDocument? positional))
        extraComments
      segments := ← withDefault? [] (listOf (Segment.ofDocument? positional)) segments
      cursor := ← withDefault? none (optional? word?) cursor }
  | _ => none

/-- A set of addresses in the form that is written. -/
def addressesToJson (s : KeySet Address) : Json :=
  .array (s.toList.map fun a => .ofCount a.toNat)

/-- A table by addresses in the form that is written. -/
def tableToJson {α : Type} (value : α → Json) (t : Table Address α) : Json :=
  .object (t.entries.map fun b => (Text.decimal b.1.toNat, value b.2))

/-- The form of a snapshot that is written. An absent cursor is left out. -/
def toJson (s : Snapshot) : Json :=
  .object ([
    ("bounds", .array [.ofCount s.low.toNat, .ofCount s.high.toNat]),
    ("heads", addressesToJson s.heads),
    ("functions", .array (s.functions.map FunctionInfo.toJson)),
    ("tags", tableToJson (fun t => .object t.entries) s.tags),
    ("custom_names", addressesToJson s.customNames),
    ("extra_comments", tableToJson ExtraLines.toJson s.extraComments),
    ("segments", .array (s.segments.map Segment.toJson))]
    ++ match s.cursor with
      | none => []
      | some a => [("cursor", .ofCount a.toNat)])

/-- The canonical text of a snapshot. -/
def text (s : Snapshot) : String := s.toJson.compact

/-- A snapshot that was decoded, if it passes the check. -/
def checked (s : Snapshot) : Except Failure Snapshot :=
  match s.check with
  | .ok () => .ok s
  | .error fault => .error (.invalidSnapshot fault)

/-- What JSON allows. -/
def jsonDialect : Dialect := ⟨true, Json.maxDepth⟩

/-- What YAML allows. -/
def yamlDialect : Dialect := ⟨false, 128⟩

/-- Read a snapshot from JSON and check it. -/
def parseJson (text : String) : Except Failure Snapshot :=
  match (Json.read? text).bind (ofDocument? jsonDialect) with
  | some s => s.checked
  | none => .error .json

/-- Read a snapshot from YAML and check it. -/
def parseYaml (text : String) : Except Failure Snapshot :=
  match (Yaml.read? text).bind (ofDocument? yamlDialect) with
  | some s => s.checked
  | none => .error (.invalidSnapshot .unreadable)

end Snapshot

end TagCache
