import TagCache.Project.Operate
import TagCache.Session.Verify

/-!
# Checking the cache of a project

`Project.checkIndex` checks the keys of the contents caches, and `Project.checkContents` checks the
contents caches of functions against a recount. A cache that is not accepted is a problem.
-/

namespace TagCache.Project

variable {m : Type → Type} [Monad m] [Host m]

/-- Run a check of a session. -/
def check (p : Project) (session : Session Bool) : Step m Bool := do
  match ← ExceptT.lift (p.runSession session) with
  | (.returned outcome, _) => Step.orStop .failure outcome
  | (.overflowed, _) => throw .overflow

/-- Check the keys of the contents caches. -/
def checkIndex (p : Project) : Step m Unit := do
  if ← p.check (Session.verifyIndex p.snapshot) then ExceptT.lift (Host.printLine "Index OK")
  else throw (.rejected "Index verification failed")

/-- Check the contents caches at addresses, all of them whatever is found, and count those that are
not accepted. -/
def checkAddresses (p : Project) : List Address → Step m Nat
  | [] => return 0
  | a :: rest => do
    let ok ← p.check (Session.verifyContents p.snapshot a)
    ExceptT.lift (Host.printLine ("- " ++ a.text ++ ": " ++ if ok then "OK" else "FAILED"))
    return (if ok then 0 else 1) + (← checkAddresses p rest)

/-- The address that a text names. -/
def parseAddress (text : String) : Step m Address :=
  match Address.parse? text with
  | some a => return a
  | none => throw (.invalidAddress text)

/-- Check the contents cache of the function that a text names, or of every function. -/
def checkContents (p : Project) (function : Option String) : Step m Unit := do
  let targets ← match function with
    | some text => do pure [← parseAddress text]
    | none => pure p.snapshot.entries
  let failed ← p.checkAddresses targets
  if failed = 0 then
    ExceptT.lift (Host.printLine
      ("Verified " ++ Text.decimal targets.length ++ " function cache(s)"))
  else
    throw (.rejected ("Content verification failed for " ++ Text.decimal failed ++ " of "
      ++ Text.decimal targets.length ++ " function(s)"))

end TagCache.Project
