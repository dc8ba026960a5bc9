import TagCache.Json.Printer
import TagCache.Json.Reader
import TagCache.Store.Schema

/-!
# The file format of the store

A store lies in a file as a mark that occurs in no text and a JSON text of its tables
(`Store.bytes`). A table that is missing is null there. `Store.ofBytes?` reads such a file, and
takes a file that holds nothing for a database without any table.
-/

namespace TagCache

/-- A count as it is written. -/
def StoredCount.toJson : StoredCount → Json
  | .whole n => .ofCount n.toNat
  | .real => .null

/-- Decode a count. -/
def StoredCount.ofDocument? (d : Document) : Option StoredCount := do
  match ← d.optional? Document.word? with
  | some n => return .whole n
  | none => return .real

/-- A row of the history as it is written. -/
def RunRow.toJson (r : RunRow) : Json :=
  .array [.string r.operation, .ofOption .string r.snapshotHash, .string r.status,
    .ofOption .string r.detail, .string r.startedAt, .string r.finishedAt]

/-- Decode a row of the history. -/
def RunRow.ofDocument? : Document → Option RunRow
  | .sequence [operation, snapshotHash, status, detail, startedAt, finishedAt] =>
    return {
      operation := ← operation.text?
      snapshotHash := ← snapshotHash.optional? Document.text?
      status := ← status.text?
      detail := ← detail.optional? Document.text?
      startedAt := ← startedAt.text?
      finishedAt := ← finishedAt.text? }
  | _ => none

namespace Store

/-- The bindings of a table as they are written. -/
def tableToJson {κ ν : Type} [Ord κ] (key : κ → Json) (value : ν → Json) (t : Table κ ν) : Json :=
  .array (t.entries.map fun b => .array [key b.1, value b.2])

/-- Decode a table. -/
def tableOf? {κ ν : Type} [Ord κ] [Std.TransOrd κ] [Std.LawfulEqOrd κ]
    (key : Document → Option κ) (value : Document → Option ν) (d : Document) :
    Option (Table κ ν) := do
  let bindings ← (← d.items?).mapM fun
    | .sequence [k, v] => do return (← key k, ← value v)
    | _ => none
  return Table.ofList bindings

/-- A store as it is written. -/
def toJson (s : Store) : Json :=
  let address (a : Address) : Json := .ofCount a.toNat
  .array [
    .int s.version,
    .ofOption (tableToJson address .string) s.contents,
    .ofOption (tableToJson .string StoredCount.toJson) s.names,
    .ofOption (tableToJson address StoredCount.toJson) s.addresses,
    .ofOption (fun rows => .array (rows.map RunRow.toJson)) s.runs]

/-- Decode a store. -/
def ofDocument? : Document → Option Store
  | .sequence [.leaf version, contents, names, addresses, runs] => do
    let .int version ← version.value? | none
    return {
      version
      contents := ← contents.optional? (tableOf? Document.word? Document.text?)
      names := ← names.optional? (tableOf? Document.text? StoredCount.ofDocument?)
      addresses := ← addresses.optional? (tableOf? Document.word? StoredCount.ofDocument?)
      runs := ← runs.optional? fun d => do (← d.items?).mapM RunRow.ofDocument? }
  | _ => none

/-- The byte that stands in front of a store in a file. It occurs in no text. -/
def mark : UInt8 := 0xff

/-- The bytes of a file that holds a store. -/
def bytes (s : Store) : ByteArray := ⟨#[mark]⟩ ++ s.toJson.compact.toUTF8

/-- Read the bytes of a file as a store. A file of at most one byte is a database without any
table. -/
def ofBytes? (b : ByteArray) : Option Store :=
  if b.size ≤ 1 then some blank
  else if b.data[0]? = some mark then do
    ofDocument? (← Json.read? (← String.fromUTF8? (b.extract 1 b.size)))
  else none

end Store

end TagCache
