import TagCache.Counts
import TagCache.Failure
import TagCache.Json.Reader

/-!
# Cache entries

The stored form of a partition's counts is a JSON object with a table of names and a table of
addresses (`Entry`). All fields are kept as they are, so an unexpected one lives on until it can be
reported. Decoding goes through each table in the order of the key texts (`Entry.names`,
`Entry.addresses`), so of two spellings of one address the later text holds; writing puts the new
counts under the written form of the address and leaves every other key alone. Counts are words of
64 bits, so the sum of an increment may wrap (`Entry.overflows`).
-/

namespace TagCache

/-- The field of the table of names. -/
def namesField : String := "__tags__"

/-- The field of the table of addresses. -/
def addressesField : String := "__address__"

/-- The two fields of a well-formed entry. -/
def expectedFields : KeySet String := KeySet.ofList [namesField, addressesField]

/-- The stored form of one partition. -/
structure Entry where
  partition : Partition
  fields : Table String Json
deriving DecidableEq

namespace Entry

/-- The entry with two empty tables. -/
def empty (p : Partition) : Entry :=
  ⟨p, Table.ofList [(namesField, .object []), (addressesField, .object [])]⟩

/-- The entry as a JSON value. -/
def toJson (e : Entry) : Json := .object e.fields.entries

/-- The text that is stored. -/
def text (e : Entry) : String := e.toJson.compact

/-- Read the text that is stored. -/
def parse (p : Partition) (text : String) : Except Failure Entry :=
  match Json.parse? text with
  | none => .error .json
  | some (.object members) => .ok ⟨p, Table.ofList members⟩
  | some v => .error (.malformedEntry p (.notObject v))

/-- The fields that are present. -/
def keys (e : Entry) : KeySet String := KeySet.ofList e.fields.keys

/-- The members of a field that holds a table, none where the field is absent. -/
def members (e : Entry) (field : String) : Except Malformation (List (String × Json)) :=
  match e.fields.find? field with
  | none => .ok []
  | some (.object ms) => .ok ms
  | some v => .error (.notTable field v)

/-- A value as a count. -/
def count (v : Json) : Except Malformation Nat :=
  match v.count? with
  | some n => .ok n
  | none => .error (.badCount v)

/-- A key of the address table as an address. -/
def addressOf (key : String) : Except Malformation Address :=
  match Address.parse? key with
  | some a => .ok a
  | none => .error (.badAddress key)

/-- The bindings of a table of names. -/
def decodeNames : List (String × Json) → Except Malformation (List (String × Nat))
  | [] => .ok []
  | (k, v) :: ms => do
    let n ← count v
    return (k, n) :: (← decodeNames ms)

/-- The bindings of a table of addresses. A key is looked at before its count. -/
def decodeAddresses : List (String × Json) → Except Malformation (List (Address × Nat))
  | [] => .ok []
  | (k, v) :: ms => do
    let a ← addressOf k
    let n ← count v
    return (a, n) :: (← decodeAddresses ms)

/-- The table of names. -/
def names (e : Entry) : Except Malformation NameTable := do
  return Table.ofList (← decodeNames (← e.members namesField))

/-- The table of addresses. -/
def addresses (e : Entry) : Except Malformation AddressTable := do
  return Table.ofList (← decodeAddresses (← e.members addressesField))

/-- Both tables. A fault of the addresses is found before one of the names. -/
def counts (e : Entry) : Except Malformation Counts := do
  let addresses ← e.addresses
  let names ← e.names
  return ⟨addresses, names⟩

/-- The members that an update starts from: those of a field that holds a table, and none where it
is absent or holds something else. -/
def tableMembers (e : Entry) (field : String) : List (String × Json) :=
  match e.fields.find? field with
  | some (.object ms) => ms
  | _ => []

/-- Lay counts over a field's table. -/
def overlay (e : Entry) (field : String) (counts : List (String × Nat)) : Entry :=
  let ms := counts.foldl (fun ms b => Bindings.insert b.1 (.ofCount b.2) ms) (e.tableMembers field)
  { e with fields := e.fields.insert field (.object ms) }

/-- Give names absolute counts. -/
def setNames (e : Entry) (t : NameTable) : Entry := e.overlay namesField t.entries

/-- Give addresses absolute counts, under their written form. -/
def setAddresses (e : Entry) (t : AddressTable) : Entry :=
  e.overlay addressesField (t.entries.map fun b => (b.1.text, b.2))

/-- The entry of a partition with the given counts. -/
def ofCounts (p : Partition) (c : Counts) : Entry :=
  ((empty p).setNames c.names).setAddresses c.addresses

/-- The count after a count. The greatest word is followed by zero. -/
def nextCount (n : Nat) : Nat := (n + 1) % UInt64.size

/-- Add one reference from an address to a name. A fault of the names is found before one of the
addresses. -/
def increment (e : Entry) (a : Address) (name : String) : Except Malformation Entry := do
  let names ← e.names
  let addresses ← e.addresses
  let e := e.overlay namesField [(name, nextCount (names.getD name 0))]
  return e.overlay addressesField [(a.text, nextCount (addresses.getD a 0))]

/-- Whether an increment finds a count that is the greatest word. -/
def overflows (e : Entry) (a : Address) (name : String) : Bool :=
  match e.counts with
  | .ok c => UInt64.size ≤ c.names.getD name 0 + 1 || UInt64.size ≤ c.addresses.getD a 0 + 1
  | .error _ => false

end Entry

end TagCache
