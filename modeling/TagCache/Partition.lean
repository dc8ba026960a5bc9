import TagCache.Address
import TagCache.Text.Quoted

/-!
# Partitions

The cache has one contents partition for each function and the globals index (`Partition`). The
index holds a count for each key of its own (`GlobalKey`), so what can be absent from the cache is
a partition or such a key (`CacheKey`).
-/

namespace TagCache

/-- Where a reference count lives. -/
inductive Partition where
  /-- The contents cache of the function with the given entry point. -/
  | contents (function : Address)
  | globals
deriving DecidableEq, Repr

/-- How messages name a partition. -/
def Partition.text : Partition → String
  | .contents f => "contents(" ++ f.text ++ ")"
  | .globals => "globals"

/-- A key of the globals index. -/
inductive GlobalKey where
  | name (name : String)
  | address (address : Address)
deriving DecidableEq, Repr

/-- How messages name a key of the index. -/
def GlobalKey.text : GlobalKey → String
  | .name n => "tagname " ++ Text.quoted n
  | .address a => "address " ++ a.text

/-- What a deletion names. -/
inductive CacheKey where
  | contents (function : Address)
  | global (key : GlobalKey)
deriving DecidableEq, Repr

/-- How messages name the target of a deletion. -/
def CacheKey.text : CacheKey → String
  | .contents f => (Partition.contents f).text
  | .global k => k.text

end TagCache
