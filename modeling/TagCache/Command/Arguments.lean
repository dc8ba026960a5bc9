import TagCache.Command.Basic

/-!
# Command lines

A command line is the name of a command and its options (`Command.parse`). An option with a value is
written `--name value` or `--name=value`; in the first form the value does not start with a dash,
unless it is one alone. No option is given twice. Some arguments ask for something else than a
command (`Aside`); the first of them, or the first misuse, decides.
-/

namespace TagCache

/-- What a command line comes to if it is no command. -/
inductive Aside where
  | help
  | version
  | misuse
deriving DecidableEq, Repr

/-- The options that a command takes. -/
structure Grammar where
  /-- The names of the options with a value. -/
  valued : List String
  /-- The names of the options without one. -/
  flags : List String

/-- The options that a command line gives. -/
structure Given where
  values : List (String × String)
  flags : List String

namespace Given

/-- No option at all. -/
def empty : Given := ⟨[], []⟩

/-- The value of an option. -/
def value? (g : Given) (name : String) : Option String := g.values.lookup name

/-- Whether an option without a value is given. -/
def has (g : Given) (name : String) : Bool := g.flags.contains name

/-- The root of the project: the directory of the command unless it is given. -/
def root (g : Given) : String := (g.value? "root").getD "."

end Given

namespace Grammar

/-- Whether an argument can be the value of the option before it. -/
def isValue (arg : String) : Bool := arg = "-" || arg.toList.head? ≠ some '-'

/-- The name and the attached value of an option, from what follows the two dashes. -/
def split (cs : List Char) : String × Option String :=
  let name := String.ofList (cs.takeWhile (· ≠ '='))
  match cs.dropWhile (· ≠ '=') with
  | [] => (name, none)
  | _ :: value => (name, some (String.ofList value))

/-- Add an option with a value. -/
def giveValue (name value : String) (g : Given) : Except Aside Given :=
  if (g.value? name).isSome then .error .misuse
  else .ok { g with values := g.values ++ [(name, value)] }

/-- Add an option without a value. -/
def giveFlag (name : String) (g : Given) : Except Aside Given :=
  if g.has name then .error .misuse else .ok { g with flags := g.flags ++ [name] }

/-- Read options. -/
def read (grammar : Grammar) (given : Given) : List String → Except Aside Given
  | [] => .ok given
  | arg :: rest =>
    match arg.toList with
    | ['-', '-'] => if rest.isEmpty then .ok given else .error .misuse
    | '-' :: '-' :: cs =>
      let (name, attached) := split cs
      if name = "help" ∧ attached.isNone then .error .help
      else if grammar.flags.contains name ∧ attached.isNone then do
        grammar.read (← giveFlag name given) rest
      else if grammar.valued.contains name then
        match attached, rest with
        | some value, rest => do grammar.read (← giveValue name value given) rest
        | none, value :: rest =>
          if isValue value then do grammar.read (← giveValue name value given) rest
          else .error .misuse
        | none, [] => .error .misuse
      else .error .misuse
    | '-' :: 'h' :: _ => .error .help
    | _ => .error .misuse

end Grammar

/-- A command of the command line: its name, its options, and the command that they make. -/
structure Entrance where
  name : String
  summary : String
  grammar : Grammar
  /-- The command, unless an option is missing that it cannot do without. -/
  make : Given → Option Command

namespace Command

/-- The entrance of a command that takes nothing but a root. -/
def simple (name summary : String) (make : String → Command) : Entrance :=
  ⟨name, summary, ⟨["root"], []⟩, fun g => some (make g.root)⟩

/-- The commands of the command line. -/
def entrances : List Entrance := [
  ⟨"init-project", "Make a new project", ⟨["root", "name", "snapshot"], []⟩, fun g =>
    some (.create g.root (g.value? "name") (g.value? "snapshot"))⟩,
  ⟨"status", "Show a summary of the project", ⟨["root"], ["json"]⟩, fun g =>
    some (.status g.root (g.has "json"))⟩,
  simple "everything" "Erase the cache and build it anew" (.operate · .everything),
  simple "all" "Build the cache" (.operate · .all),
  ⟨"contents", "Build the cache of one function", ⟨["root", "function"], []⟩, fun g =>
    (g.value? "function").map (.contents g.root)⟩,
  simple "globals" "Build the globals index" (.operate · .globals),
  simple "customnames" "Add the references of custom names" (.operate · .customNames),
  simple "extracomments" "Add the references of extra comment lines" (.operate · .extraComments),
  simple "erase" "Erase the cache" (.operate · .erase),
  simple "verify-index" "Check the keys of the function caches" .checkIndex,
  ⟨"verify-content", "Check function caches against a recount", ⟨["root", "function"], []⟩, fun g =>
    some (.checkContents g.root (g.value? "function"))⟩,
  ⟨"segments", "List the segments or select one", ⟨["root", "select"], ["json"]⟩, fun g =>
    some (.segments g.root (g.value? "select") (g.has "json"))⟩,
  ⟨"history", "List the recorded operations", ⟨["root"], ["json"]⟩, fun g =>
    some (.history g.root (g.has "json"))⟩]

/-- Whether help can be asked for about what these arguments name: all, or one command. -/
def isTopic : List String → Bool
  | [] => true
  | [name] => name = "help" || entrances.any (·.name = name)
  | _ => false

/-- Read a command line. -/
def parse : List String → Except Aside Command
  | [] => .error .misuse
  | arg :: rest =>
    match entrances.find? (·.name = arg), arg.toList with
    | some entrance, _ => do
      match entrance.make (← entrance.grammar.read .empty rest) with
      | some command => return command
      | none => throw .misuse
    | none, '-' :: 'V' :: _ => .error .version
    | none, '-' :: 'h' :: _ => .error .help
    | none, _ =>
      if arg = "--version" then .error .version
      else if arg = "--help" ∨ (arg = "help" ∧ isTopic rest) then .error .help
      else .error .misuse

/-- The line that tells the version of the program. -/
def versionText : String := "tagfix 0.1.0\n"

/-- The options of a command as they are listed. -/
def optionsText (g : Grammar) : String :=
  String.join (g.valued.map fun n => " [--" ++ n ++ " <" ++ n ++ ">]")
    ++ String.join (g.flags.map fun n => " [--" ++ n ++ "]")

/-- What can be asked of the program. -/
def helpText : String :=
  "Usage: tagfix <command> [options]\n\nCommands:\n"
    ++ String.join (entrances.map fun e =>
      "  " ++ e.name ++ optionsText e.grammar ++ "\n      " ++ e.summary ++ "\n")

variable {m : Type → Type} [Monad m] [Host m]

/-- Do what a command line asks for, and give the exit status. -/
def launch (args : List String) : m Nat := do
  match parse args with
  | .ok command => command.perform
  | .error .help => do Host.print helpText; return 0
  | .error .version => do Host.print versionText; return 0
  | .error .misuse => do Host.report helpText; return 2

end Command

end TagCache
