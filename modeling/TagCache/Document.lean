import TagCache.Json.Basic
import TagCache.Table

/-!
# Documents

A structured text as it was written, before it is known which type is wanted (`Document`). A unit of
text keeps what it can be read as (`Leaf`), so one set of decoders serves every format. A record is
a mapping that binds each of its fields at most once, and where the format allows it a sequence of
the fields in their order (`Document.record?`); fields that are not asked for are passed over
unread.
-/

namespace TagCache

/-- A unit of text, as the things it can be read as. -/
structure Leaf where
  /-- The reading where a text is wanted. -/
  text? : Option String
  /-- The reading where an unsigned word is wanted. -/
  word? : Option Nat
  /-- The reading where any value may stand. -/
  value? : Option Json
  /-- Whether the absence of a value is written. -/
  isNull : Bool := false
  /-- Whether nothing is written, which also reads as an empty sequence or mapping. -/
  isVoid : Bool := false
deriving DecidableEq, Repr, Inhabited

/-- A structured text. -/
inductive Document where
  | leaf (l : Leaf)
  | sequence (items : List Document)
  | mapping (members : List (Document × Document))
deriving Repr, Inhabited

namespace Document

/-- The document as a text. -/
def text? : Document → Option String
  | .leaf l => l.text?
  | _ => none

mutual

/-- The value of a document that nests at most `room` sequences and mappings. Of two members with
one key the later holds. -/
def toJson? (room : Nat) : Document → Option Json
  | .leaf l => l.value?
  | .sequence items =>
    match room with
    | 0 => none
    | room + 1 => (itemsToJson? room items).map .array
  | .mapping members =>
    match room with
    | 0 => none
    | room + 1 => (membersToJson? room members).map fun ms => .object (Table.ofList ms).entries
termination_by structural d => d

/-- The values of the items. -/
def itemsToJson? (room : Nat) : List Document → Option (List Json)
  | [] => some []
  | d :: ds => do return (← toJson? room d) :: (← itemsToJson? room ds)
termination_by structural ds => ds

/-- The members with their values. -/
def membersToJson? (room : Nat) : List (Document × Document) → Option (List (String × Json))
  | [] => some []
  | (k, d) :: ms => do return (← k.text?, ← toJson? room d) :: (← membersToJson? room ms)
termination_by structural ms => ms

end

/-- The document as a number below a bound. -/
def wordBelow? (bound : Nat) : Document → Option Nat
  | .leaf l => l.word?.filter (· < bound)
  | _ => none

/-- The document as a 64-bit word. -/
def word? (d : Document) : Option UInt64 := (d.wordBelow? UInt64.size).map UInt64.ofNat

/-- The items of a sequence. -/
def items? : Document → Option (List Document)
  | .leaf l => if l.isVoid then some [] else none
  | .sequence items => some items
  | .mapping _ => none

/-- The members of a mapping. -/
def members? : Document → Option (List (Document × Document))
  | .leaf l => if l.isVoid then some [] else none
  | .sequence _ => none
  | .mapping members => some members

/-- Whether the document stands for the absence of a value. -/
def isNull : Document → Bool
  | .leaf l => l.isNull
  | _ => false

/-- Read the document unless it stands for the absence of a value. -/
def optional? {α : Type} (read : Document → Option α) (d : Document) : Option (Option α) :=
  if d.isNull then some none else (read d).map some

/-- The documents bound to a name. -/
def boundTo (name : String) (members : List (String × Document)) : List Document :=
  members.filterMap fun m => if m.1 = name then some m.2 else none

/-- The field of a name, absent where the name is not bound, refused where it is bound twice. -/
def field? (members : List (String × Document)) (name : String) : Option (Option Document) :=
  match boundTo name members with
  | [] => some none
  | [d] => some (some d)
  | _ => none

/-- The fields that the members of a mapping bind, by their names in order. -/
def fields? (names : List String) (members : List (Document × Document)) :
    Option (List (Option Document)) := do
  let members ← members.mapM fun (k, d) => k.text?.map (·, d)
  names.mapM (field? members)

/-- The fields of a record by their names in order, each absent or given. A sequence gives the
fields from the first on, where `positional` allows it. -/
def record? (positional : Bool) (names : List String) (d : Document) :
    Option (List (Option Document)) :=
  match d with
  | .sequence items =>
    if positional ∧ items.length ≤ names.length then
      some (items.map some ++ List.replicate (names.length - items.length) none)
    else none
  | d => d.members?.bind (fields? names)

/-- Read a field that must be given. -/
def required? {α : Type} (read : Document → Option α) (field : Option Document) : Option α :=
  field.bind read

/-- Read a field that has a default. -/
def withDefault? {α : Type} (default : α) (read : Document → Option α) :
    Option Document → Option α
  | none => some default
  | some d => read d

end Document

end TagCache
