import TagCache.Host.Basic
import TagCache.Host.Disk

/-!
# Machines

A host that is a value (`Machine`): a disk, a directory to start in, a clock that stands still, and
what was written so far. Its databases can be written, and nothing limits or checks its sessions.
-/

namespace TagCache

/-- Something written to the stream of reports. -/
inductive Report where
  | text (text : String)
  | logged (record : LogRecord)
deriving DecidableEq, Repr

/-- What a report comes to on the stream. -/
def Report.written : Report → String
  | .text t => t
  | .logged r => r.line

/-- A disk and what commands wrote so far. -/
structure Machine where
  disk : Disk
  workingDirectory : Path
  time : String
  output : Array String
  reports : Array Report

namespace Machine

/-- A machine on which nothing was written yet. -/
def start (disk : Disk) (workingDirectory : Path) (time : String) : Machine :=
  { disk, workingDirectory, time, output := #[], reports := #[] }

/-- Change the disk, unless that fails. -/
def changeDisk (change : Disk → Except FileFault Disk) :
    StateM Machine (Except FileFault Unit) := do
  match change (← get).disk with
  | .ok disk =>
    modify fun w => { w with disk }
    return .ok ()
  | .error e => return .error e

instance : Host (StateM Machine) where
  workingDirectory := return (← get).workingDirectory
  canonical? p := return (← get).disk.canonical? p
  isPresent p := return (← get).disk.isPresent p
  isFile p := return (← get).disk.isFile p
  isDirectory p := return (← get).disk.isDirectory p
  read p := return (← get).disk.read p
  write p bytes := changeDisk (·.write p bytes)
  makeDirectory p := changeDisk (·.makeDirectory p)
  databaseAt? p := return (← get).disk.databaseAt? p
  loadStore l := return (← get).disk.loadStore l
  saveStore l s := do
    modify fun w => { w with disk := w.disk.saveStore l s }
    return .ok ()
  now := return (← get).time
  print text := modify fun w => { w with output := w.output.push text }
  report text := modify fun w => { w with reports := w.reports.push (.text text) }
  log r := modify fun w => { w with reports := w.reports.push (.logged r) }
  conditions := return default

end Machine

end TagCache
