import TagCache.Command.Basic
import TagCache.Proofs.Host.Disk
import TagCache.Proofs.Host.Station
import TagCache.Proofs.Store.Schema

/-!
# Opening a project

Opening a project reads its configuration, opens the database, and reads the snapshot. So the only
file that it changes is the database, which it brings to the newest layout if it can be written, and
it leaves that so even if the snapshot cannot be read (`Station.loadProject_eq`).
-/

namespace TagCache

/-! ## What is read -/

namespace Machine

/-- The directory that the text of a root names. -/
def rootPath (w : Machine) (root : String) : Path :=
  (w.disk.canonical? (w.workingDirectory.join root)).getD (w.workingDirectory.join root)

/-- The places of the files of the project that the text of a root names. -/
def layout (w : Machine) (root : String) : Layout := .ofRoot (w.rootPath root)

/-- The text of a file. -/
def readText (w : Machine) (p : Path) : Except FileFault String :=
  match w.disk.read p with
  | .error e => .error e
  | .ok bytes =>
    match String.fromUTF8? bytes with
    | some text => .ok text
    | none => .error .notText

/-- A file has a text if its bytes are that text. -/
theorem readText_eq_ok_iff {w : Machine} {p : Path} {text : String} : w.readText p = .ok text ↔
    ∃ bytes, w.disk.read p = .ok bytes ∧ String.fromUTF8? bytes = some text := by
  unfold readText
  cases w.disk.read p with
  | error e => simp
  | ok bytes => cases hbytes : String.fromUTF8? bytes <;> simp [hbytes]

end Machine

namespace Station

variable {st : Station} {root : String} {p : Path} {l : Location}

/-- A root is resolved to its canonical path, or to the path as it stands. -/
theorem resolveRoot_apply (st : Station) (root : String) :
    (Project.resolveRoot root : StateM Station Path) st = (st.rootPath root, st) :=
  rfl

/-- Reading a text changes nothing. -/
theorem readText_apply (st : Station) (p : Path) :
    (Host.readText p : StateM Station (Except FileFault String)) st = (st.readText p, st) := by
  have hread : (Host.readText p : StateM Station (Except FileFault String)) st
      = (match st.disk.read p with
        | .error e => (pure (Except.error e) : StateM Station (Except FileFault String))
        | .ok bytes =>
          match String.fromUTF8? bytes with
          | some text => pure (Except.ok text)
          | none => pure (Except.error .notText)) st := rfl
  rw [hread, Machine.readText]
  cases st.disk.read p with
  | error e => rfl
  | ok bytes =>
    dsimp only
    cases String.fromUTF8? bytes <;> rfl

/-- The configuration of a project. -/
def config (st : Station) (l : Layout) : Except Problem Config :=
  ((Project.loadConfig l : Step (StateM Station) Config) st).1

/-- Loading the configuration only reads. -/
theorem reads_loadConfig (l : Layout) :
    (Project.loadConfig l : Step (StateM Station) Config).Reads := by
  refine (Step.Reads.within _ _ fun st => congrArg Prod.snd (readText_apply st _)).bind
    fun text => ?_
  split
  · exact .pure _
  · exact .throw _

/-- Loading the configuration gives what is read of it. -/
theorem loadConfig_apply (st : Station) (l : Layout) :
    (Project.loadConfig l : Step (StateM Station) Config) st = (st.config l, st) :=
  (reads_loadConfig l).apply st

/-- A configuration is what its file says. -/
theorem config_eq_ok_iff {l : Layout} {c : Config} : st.config l = .ok c ↔
    ∃ text, st.readText l.configFile = .ok text ∧ Config.parse? text = some c := by
  unfold config Project.loadConfig
  rw [Step.bind_apply, Step.within_apply, readText_apply]
  cases st.readText l.configFile with
  | error e => simp [Except.mapError]
  | ok text =>
    simp only [Except.mapError, Except.ok.injEq, exists_eq_left']
    cases Config.parse? text with
    | none => exact iff_of_false nofun nofun
    | some c' =>
      rw [Option.some.injEq]
      exact ⟨Except.ok.inj, congrArg Except.ok⟩

/-- The snapshot in a file. -/
def snapshot (st : Station) (p : Path) : Except Problem Snapshot :=
  ((Project.loadSnapshot p : Step (StateM Station) Snapshot) st).1

/-- Loading the snapshot only reads. -/
theorem reads_loadSnapshot (p : Path) :
    (Project.loadSnapshot p : Step (StateM Station) Snapshot).Reads :=
  (Step.Reads.within _ _ fun st => congrArg Prod.snd (readText_apply st _)).bind fun _ =>
    Step.reads_orStop _ _

/-- Loading the snapshot gives what is read of it. -/
theorem loadSnapshot_apply (st : Station) (p : Path) :
    (Project.loadSnapshot p : Step (StateM Station) Snapshot) st = (st.snapshot p, st) :=
  (reads_loadSnapshot p).apply st

/-! ## What opening does -/

/-- Open the database that a path names. -/
def openStore (st : Station) (p : Path) : Except Failure (Location × Store) × Station :=
  (Host.openStore p : StateM Station _) st

/-- A path that names no place of a database is refused. -/
theorem openStore_of_no_place (h : st.disk.databaseAt? p = none) :
    st.openStore p = (.error .storage, st) := by
  have hplace : (Host.databaseAt? p : StateM Station _) st = (st.disk.databaseAt? p, st) := rfl
  unfold openStore Host.openStore
  rw [bind_apply, hplace, h]
  rfl

/-- What comes of the database at a place depends on what it opens to. -/
theorem openStore_eq (h : st.disk.databaseAt? p = some l) : st.openStore p
    = match (st.disk.loadStore l).bind Store.opened with
      | .error e => (.error e, st)
      | .ok s =>
        let (saved, st') := (Host.saveStore l s : StateM Station _) st
        (saved.map fun () => (l, s), st') := by
  have hplace : (Host.databaseAt? p : StateM Station _) st = (st.disk.databaseAt? p, st) := rfl
  have hload : (Host.loadStore l : StateM Station _) st = (st.disk.loadStore l, st) := rfl
  unfold openStore Host.openStore
  rw [bind_apply, hplace, h]
  dsimp only
  rw [bind_apply, hload]
  dsimp only
  cases (st.disk.loadStore l).bind Store.opened <;> rfl

/-- The path names a place with a database, in a layout that is not too new, that takes its
upgrade. -/
structure Opens (st : Station) (p : Path) (l : Location) (s : Store) : Prop
    extends st.Finds p l s where
  version : s.version ≤ currentVersion
  takes : st.Takes l s.upgraded

/-- Such a database is brought to the newest layout. -/
theorem Opens.openStore_eq {s : Store} (h : st.Opens p l s) :
    st.openStore p = (.ok (l, s.upgraded), st.withStore l s.upgraded) := by
  have hopened : (st.disk.loadStore l).bind Store.opened = .ok s.upgraded := by
    rw [h.store]
    show s.opened = _
    rw [Store.opened_eq, if_neg (Int.not_lt.2 h.version)]
  rw [Station.openStore_eq h.place, hopened]
  dsimp only
  rw [saveStore_of_takes h.takes]
  rfl

/-- Any other database is refused, and nothing changes. -/
theorem openStore_of_not_opens (h : ∀ l s, ¬st.Opens p l s) :
    ∃ e, st.openStore p = (.error e, st) := by
  cases hplace : st.disk.databaseAt? p with
  | none => exact ⟨_, openStore_of_no_place hplace⟩
  | some l =>
    rw [openStore_eq hplace]
    cases hload : st.disk.loadStore l with
    | error e => exact ⟨e, rfl⟩
    | ok s =>
      have hopened : (Except.ok s).bind Store.opened = s.opened := rfl
      rw [hopened, Store.opened_eq]
      by_cases hversion : currentVersion < s.version
      · rw [if_pos hversion]
        exact ⟨_, rfl⟩
      · have htakes : ¬st.Takes l s.upgraded := fun htakes =>
          h l s ⟨⟨hplace, hload⟩, Int.not_lt.1 hversion, htakes⟩
        rw [if_neg hversion]
        dsimp only
        rw [saveStore_of_not_takes htakes]
        exact ⟨_, rfl⟩

/-- Open the project that the text of a root names. -/
def loadProject (st : Station) (root : String) : Except Problem Project × Station :=
  (Project.loadAt root : Step (StateM Station) Project) st

/-- The project in a layout, with its database at a place. -/
def projectOf (layout : Layout) (config : Config) (l : Location) (store : Store)
    (snapshot : Snapshot) : Project :=
  { layout, config, database := layout.resolve config.database, location := l, store,
    snapshotFile := layout.resolve config.snapshot, snapshot }

/-- Opening a project in terms of what it reads. -/
theorem loadProject_eq (st : Station) (root : String) : st.loadProject root
    = match st.config (st.layout root) with
      | .error e => (.error e, st)
      | .ok config =>
        let database := (st.layout root).resolve config.database
        match st.openStore database with
        | (.error e, st') =>
          (.error (.within ("Failed to open cache database at " ++ database) (.failure e)), st')
        | (.ok (l, s), st') => ((st'.snapshot ((st.layout root).resolve config.snapshot)).map
            (projectOf (st.layout root) config l s), st') := by
  have hload : st.loadProject root
      = (Project.load (st.rootPath root) : Step (StateM Station) Project) st := by
    unfold loadProject Project.loadAt
    rw [Step.lift_bind_apply, resolveRoot_apply]
  rw [hload]
  unfold Project.load Machine.layout
  dsimp only
  rw [Step.bind_apply, loadConfig_apply]
  cases st.config (Layout.ofRoot (st.rootPath root)) with
  | error e => rfl
  | ok config =>
    dsimp only
    rw [Step.bind_apply, Step.within_apply]
    unfold openStore
    rcases (Host.openStore ((Layout.ofRoot (st.rootPath root)).resolve config.database) :
      StateM Station _) st with ⟨e | ⟨l, s⟩, st'⟩
    · rfl
    · dsimp only [Except.mapError]
      rw [Step.bind_apply, loadSnapshot_apply]
      cases st'.snapshot ((Layout.ofRoot (st.rootPath root)).resolve config.snapshot) <;> rfl

/-- The configuration of the project can be read, and names a database that can be opened. -/
structure Reaches (st : Station) (root : String) (config : Config) (l : Location) (s : Store) :
    Prop extends st.Opens ((st.layout root).resolve config.database) l s where
  configured : st.config (st.layout root) = .ok config

/-- A database that is reached is brought to the newest layout, and the project is opened with that
if the snapshot can be read. -/
theorem Reaches.loadProject_eq {config : Config} {s : Store} (h : st.Reaches root config l s) :
    st.loadProject root = (((st.withStore l s.upgraded).snapshot
      ((st.layout root).resolve config.snapshot)).map
        (projectOf (st.layout root) config l s.upgraded), st.withStore l s.upgraded) := by
  rw [Station.loadProject_eq, h.configured]
  dsimp only
  rw [h.toOpens.openStore_eq]

/-- Where no database is reached, nothing changes and the project is not opened. -/
theorem loadProject_of_not_reaches (h : ∀ config l s, ¬st.Reaches root config l s) :
    ∃ e, st.loadProject root = (.error e, st) := by
  rw [loadProject_eq]
  cases hconfig : st.config (st.layout root) with
  | error e => exact ⟨e, rfl⟩
  | ok config =>
    obtain ⟨e, he⟩ := openStore_of_not_opens fun l s hopens => h config l s ⟨hopens, hconfig⟩
    dsimp only
    rw [he]
    exact ⟨_, rfl⟩

end Station

end TagCache
