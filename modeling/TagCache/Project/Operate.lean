import TagCache.Project.Basic
import TagCache.Session.Operation

/-!
# Running operations on a project

`Project.runSession` runs a session on a project's store and shows its lines and warnings as
reports. `Project.operate` runs an operation, saves the store and adds a record of the run to the
history, whether the run succeeded or failed. There is no record of a run that stopped at a sum.
-/

namespace TagCache.Project

variable {m : Type → Type} [Monad m] [Host m] {α : Type}

/-- Show what happened in a session, if it is to be shown. -/
def showEvent : Event → m Unit
  | .wrote line => Host.report (line ++ "\n")
  | .logged .warn text => Host.warn "tagfix_core::cache::builder" text
  | _ => return ()

/-- Run a session on a project's store. -/
def runSession (p : Project) (session : Session α) : m (Ending α × Store) := do
  let course := session.course (← Host.conditions) p.store
  course.events.forM showEvent
  return (course.ending, course.store)

/-- The problem of a run that cannot be recorded. -/
def unrecorded (e : Failure) : Problem := .within "Failed to record rebuild run" (.failure e)

/-- Save the store that a run leaves. -/
def save (p : Project) (store : Store) : Step m Unit := do
  Step.orStop unrecorded (← ExceptT.lift (Host.saveStore p.location store))

/-- Save what an operation left, with a record of its outcome, and end as it did. -/
def finish (p : Project) (op : Operation) (snapshotHash : Option String) (startedAt : String)
    (outcome : Except Failure String) (store : Store) : Step m Unit := do
  let finishedAt ← ExceptT.lift Host.now
  let wording := (← ExceptT.lift Host.conditions).wording
  let (recorded, store) :=
    StoreM.insertRun (op.record wording snapshotHash outcome startedAt finishedAt) store
  p.save store
  discard <| Step.orStop unrecorded recorded
  let summary ← Step.orStop (fun e => .within ("'" ++ op.name ++ "' failed") (.failure e)) outcome
  ExceptT.lift (Host.printLine summary)

/-- Run an operation and record the run. -/
def operate (p : Project) (op : Operation) : Step m Unit := do
  let snapshotHash ← ExceptT.lift (fingerprint? p.snapshotFile)
  let startedAt ← ExceptT.lift Host.now
  match ← ExceptT.lift (p.runSession (op.run p.snapshot)) with
  | (.returned outcome, store) => p.finish op snapshotHash startedAt outcome store
  | (.overflowed, store) =>
    p.save store
    throw .overflow

end TagCache.Project
