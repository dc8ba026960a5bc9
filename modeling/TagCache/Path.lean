import TagCache.Text.Pieces

/-!
# Paths

A path is a text that names a place in a tree of files by steps between slashes (`Path`).
`Path.join` goes on from a directory, `Path.components` gives the steps that count, and
`Path.relativeTo?` is the way to a place from a directory above it. None of them looks at any
file.
-/

namespace TagCache

/-- The name of a place in a tree of files. -/
abbrev Path := String

/-- A place in a tree of files: the names on the way to it from the root. -/
abbrev Location := List String

namespace Path

/-- The texts between the slashes of a text. -/
def pieces (cs : List Char) : List (List Char) := Text.pieces '/' cs

/-- The texts between the slashes of a path, without those at the end that are empty. -/
def steps (p : Path) : List String :=
  ((pieces p.toList).reverse.dropWhile List.isEmpty).reverse.map String.ofList

/-- Whether a path starts from the root of the tree. -/
def isAbsolute (p : Path) : Bool := p.toList.head? = some '/'

/-- The path that goes on from a directory. An absolute path stands for itself. -/
def join (base p : Path) : Path :=
  if p.isAbsolute then p
  else match base.toList.getLast? with
    | none | some '/' => base ++ p
    | some _ => base ++ "/" ++ p

/-- A step of a path. -/
inductive Component where
  /-- The root of the tree. -/
  | root
  /-- The directory that a relative path starts from. -/
  | here
  /-- The directory above. -/
  | parent
  | name (name : String)
deriving DecidableEq, Repr

/-- The text of a step. -/
def Component.text : Component → String
  | .root => ""
  | .here => "."
  | .parent => ".."
  | .name n => n

/-- The step that a text between slashes stands for, if it leads anywhere. -/
def component? : List Char → Option Component
  | [] | ['.'] => none
  | ['.', '.'] => some .parent
  | cs => some (.name (String.ofList cs))

/-- The steps of a path. Doubled slashes and single dots count only at the start. -/
def components (p : Path) : List Component :=
  match pieces p.toList with
  | [] => []
  | first :: rest =>
    (if p.isAbsolute then [.root] else if first = ['.'] then [.here] else (component? first).toList)
      ++ rest.filterMap component?

/-- The last step of a path, if it is a name. -/
def fileName? (p : Path) : Option String :=
  match p.components.getLast? with
  | some (.name n) => some n
  | _ => none

/-- What follows the last dot of the file name, unless that dot is its first character. -/
def extension? (p : Path) : Option String := do
  let reversed := (← p.fileName?).toList.reverse
  match reversed.dropWhile (· ≠ '.') with
  | '.' :: _ :: _ => return String.ofList (reversed.takeWhile (· ≠ '.')).reverse
  | _ => none

/-- The path of steps. -/
def ofComponents (cs : List Component) : Path := "/".intercalate (cs.map Component.text)

/-- The way to a place from a directory above it, as the path of the steps that remain. On the two
default paths of a project, which this is for, that is the text behind the prefix. In general it is
not: the text `a//b` would remain as it is written. -/
def relativeTo? (p base : Path) : Option Path :=
  (base.components.isPrefixOf? p.components).map ofComponents

end Path

end TagCache
