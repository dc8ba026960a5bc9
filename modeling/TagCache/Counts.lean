import TagCache.Address
import TagCache.Table

/-!
# Reference counts

How many tag names sit at each address and how many addresses carry each tag name (`Counts`). Both
sides are sparse: an absent key counts zero. `Counts.tally` records the names found at an address
once on each side, `Counts.merge` adds up two counts, and `countReferences` tallies a list of
addresses in order, visiting each before its tags are asked for.
-/

namespace TagCache

/-- The number of tag names attached to each address. -/
abbrev AddressTable := Table Address Nat

/-- The number of addresses carrying each tag name. -/
abbrev NameTable := Table String Nat

/-- A set of tag names. -/
abbrev NameSet := KeySet String

/-- The tag that stands for a name given by the user. -/
def nameTag : String := "__name__"

/-- The tag that stands for applied type information. -/
def typeInfoTag : String := "__typeinfo__"

/-- The side of an address that an extra comment line stands on. -/
inductive ExtraSide where
  | before
  | after
deriving DecidableEq, Repr

/-- The tag that stands for one extra comment line. -/
def ExtraSide.tag : ExtraSide → String
  | .before => "__extra_prefix__"
  | .after => "__extra_suffix__"

/-- Raise the count of a key. -/
def Table.raise {κ : Type} [Ord κ] [Std.TransOrd κ] [Std.LawfulEqOrd κ] (t : Table κ Nat) (k : κ)
    (n : Nat) : Table κ Nat :=
  t.insert k (t.getD k 0 + n)

/-- Raise the count of each key by its count in the second table. -/
def Table.raiseAll {κ : Type} [Ord κ] [Std.TransOrd κ] [Std.LawfulEqOrd κ] (t u : Table κ Nat) :
    Table κ Nat :=
  u.entries.foldl (fun t b => t.raise b.1 b.2) t

/-- A pair of count tables over the same references. -/
structure Counts where
  addresses : AddressTable
  names : NameTable
deriving DecidableEq

namespace Counts

/-- No references. -/
def empty : Counts := ⟨∅, ∅⟩

instance : EmptyCollection Counts := ⟨empty⟩
instance : Inhabited Counts := ⟨empty⟩

/-- Record one reference from an address to a name. -/
def record (c : Counts) (a : Address) (name : String) : Counts :=
  ⟨c.addresses.raise a 1, c.names.raise name 1⟩

/-- Record every name found at an address. -/
def tally (c : Counts) (a : Address) (names : List String) : Counts :=
  names.foldl (·.record a) c

/-- The counts of both, added up on shared keys. -/
def merge (c d : Counts) : Counts :=
  ⟨c.addresses.raiseAll d.addresses, c.names.raiseAll d.names⟩

/-- The sum of the counts of the addresses. -/
def addressTotal (c : Counts) : Nat := c.addresses.values.foldr (· + ·) 0

/-- The sum of the counts of the names. -/
def nameTotal (c : Counts) : Nat := c.names.values.foldr (· + ·) 0

/-- Whether neither side has a key. -/
def isEmpty (c : Counts) : Bool := c.addresses.isEmpty && c.names.isEmpty

/-- The counts of a set of names at each address. -/
def ofSets (sets : Table Address NameSet) : Counts :=
  sets.entries.foldl (fun c b => c.tally b.1 b.2.toList) ∅

end Counts

/-- Tally the tags of addresses in order. Each address is visited, and then its tags are asked for;
a failure to give them ends the count. -/
def countReferences {m : Type → Type} [Monad m] (visit : Address → m Unit)
    (tags : Address → m NameSet) (addresses : List Address) : m Counts :=
  addresses.foldlM (fun c a => do visit a; return c.tally a (← tags a).toList) ∅

end TagCache
