import TagCache.Address
import TagCache.Text.Quoted

/-!
# Segments

A segment is a named half-open range of addresses (`Segment`). A selector names the segment that is
wanted by the cursor, a handle, an address or a name (`Selector`); `Selector.parse` reads one in
this order of preference, and `Segment.select?` finds the first segment that it fits.
-/

namespace TagCache

/-- A named range of addresses from `start` up to below `stop`. -/
structure Segment where
  handle : UInt32
  name : String
  start : Address
  stop : Address
deriving DecidableEq, Repr, Inhabited

namespace Segment

/-- The number of addresses in the segment, zero where the range is reversed. -/
def size (s : Segment) : Nat := s.stop.toNat - s.start.toNat

/-- Whether the segment covers an address. -/
def contains (s : Segment) (a : Address) : Bool := s.start ≤ a && a < s.stop

/-- How listings show a segment: name, range and size. -/
def text (s : Segment) : String :=
  s.name ++ " " ++ Text.hex s.start.toNat ++ "-" ++ Text.hex s.stop.toNat ++ " (+"
    ++ Text.hex s.size ++ ")"

end Segment

/-- How a caller names the segment it wants. -/
inductive Selector where
  /-- The segment under the cursor. -/
  | current
  | name (name : String)
  | address (address : Address)
  | handle (handle : UInt32)
deriving DecidableEq, Repr

namespace Selector

/-- How messages name a selector. -/
def text : Selector → String
  | .current => "the current position"
  | .name n => "name " ++ Text.quoted n
  | .address a => "address " ++ a.text
  | .handle h => "handle #" ++ Text.decimal h.toNat

/-- The number of handles. -/
def handleCount : Nat := UInt32.size

/-- The handle that a text names by a hash sign and a decimal number. -/
def parseHandle? : List Char → Option UInt32
  | '#' :: cs => (Text.readBelow? 10 handleCount cs).map UInt32.ofNat
  | _ => none

/-- Whether a text is the word for the cursor, in letters of either case. -/
def isCurrent (text : String) : Bool := text.toList.map Char.toLower = "current".toList

/-- Read a selector: the word for the cursor, else a handle, else an address, else a name. -/
def parse (text : String) : Selector :=
  if isCurrent text then .current
  else match parseHandle? text.toList with
    | some h => .handle h
    | none =>
      match Address.parse? text with
      | some a => .address a
      | none => .name text

/-- Whether a segment is one that the selector names, with the cursor where it is. -/
def fits (cursor : Option Address) (s : Segment) : Selector → Bool
  | .current => cursor.any s.contains
  | .name n => s.name == n
  | .address a => s.contains a
  | .handle h => s.handle == h

end Selector

/-- The first segment that a selector names. -/
def Segment.select? (segments : List Segment) (cursor : Option Address) (sel : Selector) :
    Option Segment :=
  segments.find? fun s => sel.fits cursor s

end TagCache
