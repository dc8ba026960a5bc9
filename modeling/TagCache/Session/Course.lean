import TagCache.Session.Basic

/-!
# The course of a session

A session runs under conditions that it does not choose (`Conditions`). Where sums are not checked
they wrap, and every session returns. Where they are checked, a session stops at the first change in
which a sum does not fit a word, and what it did before stays done (`Session.course`).
-/

namespace TagCache

/-- What a run finds and does not choose. -/
structure Conditions where
  wording : Wording
  /-- The number of lines that the output of a session takes, if it is limited. -/
  room : Option Nat
  /-- Whether the program stops at a sum that does not fit a word. The sum wraps otherwise. -/
  checksSums : Bool
deriving DecidableEq, Inhabited

/-- How a session ends. -/
inductive Ending (α : Type) where
  /-- With a result or a failure. -/
  | returned (result : Except Failure α)
  /-- At a change in which a sum does not fit a word. -/
  | overflowed

/-- How a session ends, what happened in it, and the store that it leaves. -/
structure Course (α : Type) where
  ending : Ending α
  events : List Event
  store : Store

namespace Event

/-- The store after an event. -/
def effect (e : Event) (s : Store) : Store := e.mutation?.elim s fun m => (m.apply s).2

/-- Whether an event is a change of a store in which a sum does not fit a word. -/
def overflows (e : Event) (s : Store) : Bool := e.mutation?.any (·.overflows s)

end Event

namespace Session

/-- The events before the first one that overflows, and the store that this one finds. -/
def overflow? : Store → List Event → Option (List Event × Store)
  | _, [] => none
  | s, e :: es =>
    if e.overflows s then some ([], s)
    else (overflow? (e.effect s) es).map fun (before, found) => (e :: before, found)

/-- Run a session on a store under conditions. -/
def course {α : Type} (session : Session α) (c : Conditions) (store : Store) : Course α :=
  let (result, s) := session (.start store c.room)
  match if c.checksSums then overflow? store s.events.toList else none with
  | some (events, found) => ⟨.overflowed, events, found⟩
  | none => ⟨.returned result, s.events.toList, s.store⟩

end Session

end TagCache
