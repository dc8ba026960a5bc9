import TagCache.Store.Basic
import TagCache.Text.Pieces

/-!
# Sessions

A session runs operations on a store and leaves a trace of what happened (`SessionState`): the lines
written, the addresses visited, the records logged and the changes made, in one order. The output
may take a limited number of lines; the line after the last one fails, and what was done before it
stays done (`Session.takeLine`). A text with line feeds in it is written line by line
(`Session.writeLine`).
-/

namespace TagCache

/-- The weight of a log record. -/
inductive LogLevel where
  | debug
  | warn
deriving DecidableEq, Repr

/-- The word for a level in listings. -/
def LogLevel.text : LogLevel → String
  | .debug => "DEBUG"
  | .warn => "WARN"

/-- Something that happened in a session. -/
inductive Event where
  /-- A scan reached an address. -/
  | visited (address : Address)
  | logged (level : LogLevel) (text : String)
  /-- The output took a line. -/
  | wrote (line : String)
  /-- The store was changed. -/
  | stored (mutation : Mutation)
deriving DecidableEq

namespace Event

/-- The address that was visited. -/
def visit? : Event → Option Address
  | .visited a => some a
  | _ => none

/-- The record that was logged. -/
def record? : Event → Option (LogLevel × String)
  | .logged l t => some (l, t)
  | _ => none

/-- The line that was written. -/
def line? : Event → Option String
  | .wrote l => some l
  | _ => none

/-- The change that was made. -/
def mutation? : Event → Option Mutation
  | .stored m => some m
  | _ => none

end Event

/-- The store, the room left in the output, and what happened so far. -/
structure SessionState where
  store : Store
  /-- The number of lines that the output still takes, if it is limited. -/
  room : Option Nat
  events : Array Event

namespace SessionState

/-- The state at the start of a session. -/
def start (store : Store) (room : Option Nat) : SessionState := ⟨store, room, #[]⟩

/-- The addresses visited, in order. -/
def visits (s : SessionState) : List Address := s.events.toList.filterMap Event.visit?

/-- The records logged, in order. -/
def records (s : SessionState) : List (LogLevel × String) := s.events.toList.filterMap Event.record?

/-- The lines written, in order. -/
def lines (s : SessionState) : List String := s.events.toList.filterMap Event.line?

/-- The changes of the store, in order. -/
def mutations (s : SessionState) : List Mutation := s.events.toList.filterMap Event.mutation?

/-- Note that something happened. -/
def note (s : SessionState) (e : Event) : SessionState := { s with events := s.events.push e }

end SessionState

/-- An operation of a session. What it did before a failure stays done. -/
abbrev Session := ExceptT Failure (StateM SessionState)

namespace Session

/-- The result of a computation. -/
def ofExcept {α : Type} : Except Failure α → Session α
  | .ok a => pure a
  | .error e => throw e

/-- Reach an address. -/
def visit (a : Address) : Session Unit := modify (·.note (.visited a))

/-- Log a record. -/
def log (level : LogLevel) (text : String) : Session Unit := modify (·.note (.logged level text))

/-- The output takes one line, if there is room for it. -/
def takeLine (line : String) : Session Unit := do
  match (← get).room with
  | none => modify (·.note (.wrote line))
  | some 0 => throw .outputFull
  | some (n + 1) => modify fun s => { s.note (.wrote line) with room := some n }

/-- Write a text and the end of its line to the output. -/
def writeLine (text : String) : Session Unit := (Text.lines text).forM takeLine

/-- Change the store. -/
def mutate (m : Mutation) : Session Unit := do
  let s ← get
  match m.apply s.store with
  | (.ok (), store) => set ({ s with store }.note (.stored m))
  | (.error e, store) =>
    set { s with store }
    throw e

/-- Ask the store. -/
def asks {α : Type} (f : Store → Except Failure α) : Session α := do
  ofExcept (f (← get).store)

end Session

end TagCache
