import TagCache.Host.Fault
import TagCache.Path
import TagCache.Store.Format

/-!
# Disks

A tree of directories, files and databases (`Disk`). Files and directories are found by following a
path step by step (`Disk.follow`); a database is found by the steps that are left once each step up
has cancelled the name before it (`Disk.settle`). A relative path starts from the root.
-/

namespace TagCache

/-- What lies at a place of a disk. -/
inductive Node where
  | directory
  | file (bytes : ByteArray)
  /-- A file that holds a cache database. -/
  | database (store : Store)

/-- Whether a directory lies at a place. -/
def Node.isDirectory : Node → Bool
  | .directory => true
  | _ => false

/-- The bytes of a file. -/
def Node.bytes? : Node → Option ByteArray
  | .directory => none
  | .file bytes => some bytes
  | .database store => some store.bytes

/-- A tree of directories, files and databases. The root is always there. -/
structure Disk where
  nodes : Table Location Node

namespace Disk

/-- A disk with nothing but its root. -/
def empty : Disk := ⟨∅⟩

/-- What lies at a place. -/
def node? (d : Disk) (l : Location) : Option Node :=
  if l.isEmpty then some .directory else d.nodes.find? l

/-- The disk with something put at a place. -/
def put (d : Disk) (l : Location) (n : Node) : Disk := ⟨d.nodes.insert l n⟩

/-! ## Lengths -/

/-- The greatest number of bytes of a name. -/
def maxNameBytes : Nat := 255

/-- The greatest number of bytes of a path. -/
def maxPathBytes : Nat := 4095

/-- The greatest number of bytes of the path of a database from the root. -/
def maxDatabaseBytes : Nat := 511

/-- How many bytes longer than the name of a database the name of its journal is. -/
def journalSuffixBytes : Nat := 8

/-- Whether a name is longer than any in a directory. -/
def isLongName (s : String) : Bool := maxNameBytes < s.utf8ByteSize

/-- The number of bytes of the path of a place. -/
def pathBytes (l : Location) : Nat := l.foldl (fun n s => n + s.utf8ByteSize + 1) 0

/-- Whether a path has a name that no file can have. -/
def hasNul (p : Path) : Bool := p.toList.contains '\x00'

/-- Refuse a path that cannot be followed, whatever the disk holds. -/
def allow (p : Path) : Except FileFault Unit :=
  if hasNul p then .error .nulInName
  else if maxPathBytes < p.utf8ByteSize then .error .nameTooLong
  else .ok ()

/-! ## Following a path -/

/-- Follow steps from a place. Each step leaves a directory; only the place that the last one
reaches need not be there. -/
def follow (d : Disk) (l : Location) : List String → Except FileFault Location
  | [] => .ok l
  | s :: rest =>
    match d.node? l with
    | none => .error .notFound
    | some .directory =>
      if s = "" ∨ s = "." then follow d l rest
      else if s = ".." then follow d l.dropLast rest
      else if isLongName s then .error .nameTooLong
      else follow d (l ++ [s]) rest
    | some _ => .error .notDirectory

/-- The place that a path leads to. What has a slash behind it must be a directory. -/
def locate (d : Disk) (p : Path) : Except FileFault Location := do
  if p = "" then throw .notFound
  allow p
  d.follow [] ((Path.pieces p.toList).map String.ofList)

/-- What lies where a path leads. -/
def lookup (d : Disk) (p : Path) : Except FileFault Node := do
  match d.node? (← d.locate p) with
  | some n => return n
  | none => throw .notFound

/-- Whether something lies where a path leads. -/
def isPresent (d : Disk) (p : Path) : Bool :=
  match d.lookup p with
  | .ok _ => true
  | .error _ => false

/-- Whether a path leads to a file. -/
def isFile (d : Disk) (p : Path) : Bool :=
  match d.lookup p with
  | .ok n => !n.isDirectory
  | .error _ => false

/-- Whether a path leads to a directory. -/
def isDirectory (d : Disk) (p : Path) : Bool :=
  match d.lookup p with
  | .ok n => n.isDirectory
  | .error _ => false

/-- The path of a place without needless steps. -/
def canonical? (d : Disk) (p : Path) : Option Path :=
  match d.locate p with
  | .ok l => if (d.node? l).isSome then some ("/" ++ "/".intercalate l) else none
  | .error _ => none

/-- The bytes of the file that a path leads to. -/
def read (d : Disk) (p : Path) : Except FileFault ByteArray := do
  match (← d.lookup p).bytes? with
  | some bytes => return bytes
  | none => throw .isDirectory

/-! ## Changing files -/

/-- The directory that a path goes through last, and the last step. -/
def parentOf (d : Disk) (steps : List String) : Except FileFault (Location × String) := do
  let last := steps.getLast?.getD "."
  return (← d.follow [] (steps.dropLast ++ ["."]), last)

/-- Whether a step names something in its directory. -/
def isName (s : String) : Bool := s ≠ "" && s ≠ "." && s ≠ ".."

/-- Write a file, which is created where it is absent. -/
def write (d : Disk) (p : Path) (bytes : ByteArray) : Except FileFault Disk := do
  allow p
  let (l, last) ← d.parentOf p.steps
  if !isName last || p.toList.getLast? = some '/' then throw .isDirectory
  if isLongName last then throw .nameTooLong
  match d.node? (l ++ [last]) with
  | some .directory => throw .isDirectory
  | _ => return d.put (l ++ [last]) (.file bytes)

/-- Remove a file, if there is one. -/
def remove (d : Disk) (p : Path) : Option Disk :=
  match d.locate p with
  | .ok l =>
    match d.node? l with
    | some (.file _) | some (.database _) => some ⟨d.nodes.erase l⟩
    | _ => none
  | .error _ => none

/-- Make one directory. -/
def makeDirectory (d : Disk) (p : Path) : Except FileFault Disk := do
  if p = "" then throw .notFound
  allow p
  let (l, last) ← d.parentOf p.steps
  if !isName last then throw .alreadyExists
  if isLongName last then throw .nameTooLong
  if (d.node? (l ++ [last])).isSome then throw .alreadyExists
  return d.put (l ++ [last]) .directory

/-! ## Databases -/

/-- The place that steps from a place name once each step up has cancelled the name before it. No
name lies below a file, none in a directory is too long, and neither is the path at any step. -/
def settle (d : Disk) (l : Location) : List String → Option Location
  | [] => some l
  | s :: rest =>
    if s = "" ∨ s = "." then settle d l rest
    else if s = ".." then settle d l.dropLast rest
    else if maxDatabaseBytes < pathBytes (l ++ [s]) then none
    else match d.node? l with
      | some (.file _) | some (.database _) => none
      | some .directory => if isLongName s then none else settle d (l ++ [s]) rest
      | none => settle d (l ++ [s]) rest

/-- The place of the database that a path names. Its journal must have a name too. -/
def databaseAt? (d : Disk) (p : Path) : Option Location :=
  if hasNul p then none
  else (d.settle [] p.steps).filter fun l =>
    (l.getLast?.getD "").utf8ByteSize + journalSuffixBytes ≤ maxNameBytes

/-- The database at a place. Where nothing lies in a directory, it is one without any table. -/
def loadStore (d : Disk) (l : Location) : Except Failure Store :=
  match d.node? l with
  | none => if (d.node? l.dropLast).any Node.isDirectory then .ok .blank else .error .storage
  | some .directory => .error .storage
  | some (.file bytes) => Option.orFail .storage (Store.ofBytes? bytes)
  | some (.database s) => .ok s

/-- The disk with a database stored at a place. -/
def saveStore (d : Disk) (l : Location) (s : Store) : Disk := d.put l (.database s)

end Disk

end TagCache
