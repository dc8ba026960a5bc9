import TagCache.Project.Check
import TagCache.Project.Create
import TagCache.Project.Listing
import TagCache.Project.Status

/-!
# Commands

What the program can be told to do (`Command`), and how it does it on a host (`Command.run`). A text
that names the function to be built is read before the project is opened, one that names the
function to be checked after that.
-/

namespace TagCache

/-- Something that the program can be told to do, to the project that a text names the root of. -/
inductive Command where
  /-- Make a new project. -/
  | create (root : String) (name snapshot : Option String)
  /-- Show a summary. -/
  | status (root : String) (json : Bool)
  /-- Change the cache. -/
  | operate (root : String) (op : Operation)
  /-- Build the cache of the function that a text names. -/
  | contents (root function : String)
  /-- Check the keys of the contents caches. -/
  | checkIndex (root : String)
  /-- Check the contents caches of the function that a text names, or of all. -/
  | checkContents (root : String) (function : Option String)
  /-- Show the segments, or the one that a text selects. -/
  | segments (root : String) (select : Option String) (json : Bool)
  /-- Show the history of the cache. -/
  | history (root : String) (json : Bool)
deriving DecidableEq, Repr

namespace Command

variable {m : Type → Type} [Monad m] [Host m]

/-- Carry out a command. -/
def run : Command → Step m Unit
  | .create root name snapshot => Project.create root name snapshot
  | .status root json => do (← Project.loadAt root).showStatus json
  | .operate root op => do (← Project.loadAt root).operate op
  | .contents root function => do
    let a ← Project.parseAddress function
    (← Project.loadAt root).operate (.contents a)
  | .checkIndex root => do (← Project.loadAt root).checkIndex
  | .checkContents root function => do (← Project.loadAt root).checkContents function
  | .segments root select json => do (← Project.loadAt root).listSegments select json
  | .history root json => do (← Project.loadAt root).listRuns json

/-- Carry out a command, report the problem if it stops, and give the exit status. -/
def perform (c : Command) : m Nat := do
  match ← c.run.run with
  | .ok () => return 0
  | .error problem =>
    Host.report (problem.report (← Host.conditions).wording)
    return problem.exitStatus

end Command

end TagCache
