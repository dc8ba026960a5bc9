import TagCache.Host.Machine

/-!
# Stations

A machine with what a command finds on it and does not choose (`Station`): the conditions of its
sessions, and whether databases can be written. A database that cannot be written takes no store but
the one that it holds (`Station.saveStore`). In everything else a station does what its machine
does.
-/

namespace TagCache

/-- A machine under conditions. -/
structure Station extends Machine where
  conditions : Conditions
  /-- Whether databases can be written. -/
  writable : Bool

namespace Station

/-- Do what the machine does. -/
def onMachine {α : Type} (x : StateM Machine α) : StateM Station α := fun st =>
  let (a, w) := x st.toMachine
  (a, { st with toMachine := w })

/-- Write a database, if it can be written or holds the store already. -/
def saveStore (l : Location) (s : Store) : StateM Station (Except Failure Unit) := do
  let st ← get
  if st.writable ∨ (st.disk.loadStore l).toOption = some s then onMachine (Host.saveStore l s)
  else return .error .storage

instance : Host (StateM Station) where
  workingDirectory := onMachine Host.workingDirectory
  canonical? p := onMachine (Host.canonical? p)
  isPresent p := onMachine (Host.isPresent p)
  isFile p := onMachine (Host.isFile p)
  isDirectory p := onMachine (Host.isDirectory p)
  read p := onMachine (Host.read p)
  write p bytes := onMachine (Host.write p bytes)
  makeDirectory p := onMachine (Host.makeDirectory p)
  databaseAt? p := onMachine (Host.databaseAt? p)
  loadStore l := onMachine (Host.loadStore l)
  saveStore := saveStore
  now := onMachine Host.now
  print text := onMachine (Host.print text)
  report text := onMachine (Host.report text)
  log r := onMachine (Host.log r)
  conditions := return (← get).conditions

end Station

end TagCache
