import TagCache.Host.Station
import TagCache.Project.Operate

/-!
# Steps on a station

What a step of a command does to a station follows from what its parts do (`Step.bind_apply`). Some
only read (`Step.Reads`), and many only write to the streams, so that all files and conditions stay
what they are (`Station.Shows`).
-/

namespace TagCache

/-! ## Steps in a row -/

namespace Step

variable {α β : Type}

/-- A problem ends a row of steps. -/
theorem bind_apply (x : Step (StateM Station) α) (f : α → Step (StateM Station) β) (st : Station) :
    (x >>= f) st = match x st with
      | (.ok a, st') => f a st'
      | (.error e, st') => (.error e, st') := by
  show (match x st with | (r, st') => ExceptT.bindCont f r st') = _
  rcases x st with ⟨_ | _, _⟩ <;> rfl

/-- An action on the station gives its result to what follows. -/
theorem lift_bind_apply (x : StateM Station α) (f : α → Step (StateM Station) β) (st : Station) :
    ((ExceptT.lift x : Step (StateM Station) α) >>= f) st = f (x st).1 (x st).2 :=
  rfl

/-- An error stops with the problem made of it. -/
theorem orStop_apply {ε : Type} (problem : ε → Problem) (r : Except ε α) (st : Station) :
    (orStop problem r : Step (StateM Station) α) st = (r.mapError problem, st) := by
  cases r <;> rfl

/-- The error of an action stops with the problem made of it, in its context. -/
theorem within_apply {ε : Type} (context : String) (problem : ε → Problem)
    (action : StateM Station (Except ε α)) (st : Station) : within context problem action st
      = ((action st).1.mapError fun e => .within context (problem e), (action st).2) := by
  unfold within
  rw [lift_bind_apply, orStop_apply]

/-! ## Steps that read only -/

/-- The step leaves the station as it is. -/
def Reads (x : Step (StateM Station) α) : Prop := ∀ st, (x st).2 = st

/-- A step that reads gives its result on the same station. -/
theorem Reads.apply {x : Step (StateM Station) α} (h : x.Reads) (st : Station) :
    x st = ((x st).1, st) :=
  Prod.ext rfl (h st)

/-- Giving a value reads nothing. -/
theorem Reads.pure (a : α) : Reads (pure a) := fun _ => rfl

/-- A problem stops a step on the same station. -/
theorem Reads.throw (problem : Problem) : Reads (throw problem : Step (StateM Station) α) :=
  fun _ => rfl

/-- Steps that read make a row that reads. -/
theorem Reads.bind {x : Step (StateM Station) α} {f : α → Step (StateM Station) β} (hx : x.Reads)
    (hf : ∀ a, (f a).Reads) : (x >>= f).Reads := by
  intro st
  rw [bind_apply, hx.apply st]
  cases (x st).1 with
  | ok a => exact hf a st
  | error e => rfl

/-- Stopping with an error changes nothing. -/
theorem reads_orStop {ε : Type} (problem : ε → Problem) (r : Except ε α) :
    (orStop problem r : Step (StateM Station) α).Reads :=
  fun st => congrArg Prod.snd (orStop_apply problem r st)

/-- A context does not change what an action does to the station. -/
theorem Reads.within {ε : Type} (context : String) (problem : ε → Problem)
    {action : StateM Station (Except ε α)} (h : ∀ st, (action st).2 = st) :
    (within context problem action).Reads :=
  fun st => (congrArg Prod.snd (within_apply context problem action st)).trans (h st)

end Step

namespace Station

/-- An action gives its result and its station to what follows. -/
theorem bind_apply {α β : Type} (x : StateM Station α) (f : α → StateM Station β) (st : Station) :
    (x >>= f) st = f (x st).1 (x st).2 :=
  rfl

/-- The clock of a station stands still. -/
theorem now_apply (st : Station) : (Host.now : StateM Station String) st = (st.time, st) := rfl

/-- The conditions of a station are those that its sessions run under. -/
theorem conditions_apply (st : Station) :
    (Host.conditions : StateM Station Conditions) st = (st.conditions, st) :=
  rfl

/-! ## Databases -/

/-- The station with a database stored at a place. -/
def withStore (st : Station) (l : Location) (s : Store) : Station :=
  { st with disk := st.disk.saveStore l s }

/-- A database at a place takes a store: it can be written, or holds that store already. -/
def Takes (st : Station) (l : Location) (s : Store) : Prop :=
  st.writable = true ∨ st.disk.loadStore l = .ok s

/-- A result that is kept as an option is the one that was given. -/
theorem toOption_eq_some_iff {ε α : Type} {r : Except ε α} {a : α} :
    r.toOption = some a ↔ r = .ok a := by
  cases r <;> simp [Except.toOption]

/-- A store that is taken is the database from then on. -/
theorem saveStore_of_takes {st : Station} {l : Location} {s : Store} (h : st.Takes l s) :
    (Host.saveStore l s : StateM Station _) st = (.ok (), st.withStore l s) := by
  show (if _ then onMachine (Host.saveStore l s) else _ : StateM Station _) st = _
  rw [if_pos (h.imp_right toOption_eq_some_iff.2)]
  rfl

/-- Nothing changes where a store is not taken. -/
theorem saveStore_of_not_takes {st : Station} {l : Location} {s : Store} (h : ¬st.Takes l s) :
    (Host.saveStore l s : StateM Station _) st = (.error .storage, st) := by
  show (if _ then onMachine (Host.saveStore l s) else _ : StateM Station _) st = _
  rw [if_neg fun h' => h (h'.imp_right toOption_eq_some_iff.1)]
  rfl

/-! ## Actions that show something -/

/-- The stations differ in nothing but what was written to their streams. -/
structure Alike (st st' : Station) : Prop where
  disk : st'.disk = st.disk
  workingDirectory : st'.workingDirectory = st.workingDirectory
  time : st'.time = st.time
  conditions : st'.conditions = st.conditions
  writable : st'.writable = st.writable

/-- A station is like itself. -/
theorem Alike.refl (st : Station) : Alike st st := ⟨rfl, rfl, rfl, rfl, rfl⟩

/-- Stations that are like the same one are alike. -/
theorem Alike.trans {st st' st'' : Station} (h : Alike st st') (h' : Alike st' st'') :
    Alike st st'' :=
  ⟨h'.disk.trans h.disk, h'.workingDirectory.trans h.workingDirectory, h'.time.trans h.time,
    h'.conditions.trans h.conditions, h'.writable.trans h.writable⟩

/-- The same database makes alike stations alike. -/
theorem Alike.withStore {st st' : Station} (h : Alike st st') (l : Location) (s : Store) :
    (st.withStore l s).Alike (st'.withStore l s) :=
  ⟨congrArg (Disk.saveStore · l s) h.disk, h.workingDirectory, h.time, h.conditions, h.writable⟩

/-- Alike stations take the same stores. -/
theorem Alike.takes_iff {st st' : Station} (h : Alike st st') {l : Location} {s : Store} :
    st'.Takes l s ↔ st.Takes l s := by
  unfold Takes
  rw [h.disk, h.writable]

/-- The action writes to the streams at most. -/
def Shows {α : Type} (x : StateM Station α) : Prop := ∀ st, Alike st (x st).2

section
variable {α β : Type}

/-- Giving a value shows nothing. -/
theorem Shows.pure (a : α) : Shows (pure a) := fun st => .refl st

/-- Actions that write to the streams do so in a row. -/
theorem Shows.bind {x : StateM Station α} {f : α → StateM Station β} (hx : Shows x)
    (hf : ∀ a, Shows (f a)) : Shows (x >>= f) :=
  fun st => (hx st).trans (hf (x st).1 (x st).2)

/-- A report is only written to its stream. -/
theorem shows_report (text : String) : Shows (Host.report text) :=
  fun _ => ⟨rfl, rfl, rfl, rfl, rfl⟩

/-- A line of output is only written to its stream. -/
theorem shows_printLine (text : String) : Shows (Host.printLine text) :=
  fun _ => ⟨rfl, rfl, rfl, rfl, rfl⟩

/-- A warning is only written to the stream of reports. -/
theorem shows_warn (source text : String) : Shows (Host.warn source text) :=
  fun _ => ⟨rfl, rfl, rfl, rfl, rfl⟩

/-- Asking for the conditions shows nothing. -/
theorem shows_conditions : Shows Host.conditions := fun st => .refl st

/-- What is shown of each element of a list is shown of all. -/
theorem Shows.forM {f : α → StateM Station PUnit} {l : List α} (h : ∀ a ∈ l, Shows (f a)) :
    Shows (l.forM f) := by
  induction l with
  | nil => exact .pure _
  | cons a l ih =>
    obtain ⟨ha, hl⟩ := List.forall_mem_cons.1 h
    exact ha.bind fun _ => ih hl

end

/-- What happened in a session is shown at most. -/
theorem shows_showEvent (e : Event) : Shows (Project.showEvent e) := by
  cases e with
  | wrote line => exact shows_report _
  | logged level text =>
    cases level with
    | warn => exact shows_warn _ _
    | debug => exact .pure _
  | visited | stored => exact .pure _

/-- The fingerprint of a file is read from it. -/
theorem reads_fingerprint (file : Path) :
    (Project.fingerprint file : Step (StateM Station) String).Reads :=
  (Step.Reads.within _ _ fun _ => rfl).bind fun _ => .pure _

/-- A file that cannot be read is only warned of. -/
theorem shows_fingerprint? (file : Path) : Shows (Project.fingerprint? file) := by
  have hread : Shows (Project.fingerprint file : Step (StateM Station) String).run := by
    intro st
    have hsame : ((Project.fingerprint file : Step (StateM Station) String).run st).2 = st :=
      reads_fingerprint file st
    rw [hsame]
    exact .refl st
  refine hread.bind fun r => ?_
  cases r with
  | ok hash => exact .pure _
  | error problem =>
    exact shows_conditions.bind fun _ => (shows_warn _ _).bind fun _ => .pure _

end Station

end TagCache
