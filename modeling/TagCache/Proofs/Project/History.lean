import TagCache.Proofs.Project.Layout
import TagCache.Proofs.Project.Load
import TagCache.Proofs.Project.Operate

/-!
# The history of a project

Cache operations are run on a project one after another (`History`). Between them all files and all
conditions may change, except for the history itself and for the place where the project has its
database. A run leaves one record of how its operation succeeded or failed if the project could be
opened (`Invocation.step`), so after many runs the history is what it was before, followed by a
record for each run that opened the project (`history_tells_runs`). There is none of a run in which
the program stops at a sum or cannot write the database (`Invocation.Undisturbed`). No run moves the
database: the configuration names the same place afterwards (`Station.PointsAt.withStore`).
-/

namespace TagCache

/-! ## What is seen of a database -/

/-- The rows of the tables of the cache. A table that is missing has none. -/
def Store.cells (s : Store) : Table Address String × Table String StoredCount ×
    Table Address StoredCount :=
  (s.contents.getD ∅, s.names.getD ∅, s.addresses.getD ∅)

/-- Opening a database makes tables without rows. -/
theorem Store.cells_upgraded (s : Store) : s.upgraded.cells = s.cells := by
  have hmade {α : Type} (x : Option α) (a : α) : (x <|> some a).getD a = x.getD a := by
    cases x <;> rfl
  unfold upgraded
  split
  · show ((s.contents <|> some ∅).getD ∅, (s.names <|> some ∅).getD ∅,
      (s.addresses <|> some ∅).getD ∅) = _
    rw [hmade, hmade, hmade]
    rfl
  · split <;> rfl

/-- The records that the rows of a history store. -/
def RunRecord.ofRows (runs : Option (List RunRow)) : Except Failure (List RunRecord) :=
  (Option.orFail .storage runs).bind fun rows =>
    rows.mapM fun r => Option.orFail .storage r.toRecord?

/-- Rows that are added are read as the records that they store. -/
theorem RunRecord.ofRows_append (runs : Option (List RunRow)) (records : List RunRecord) :
    ofRows (runs.map (· ++ records.map toRow)) = (ofRows runs).map (· ++ records) := by
  let read (r : RunRow) : Except Failure RunRecord := Option.orFail .storage r.toRecord?
  have hadded : (records.map toRow).mapM read = .ok records := by
    induction records with
    | nil => rfl
    | cons r records ih =>
      have hr : read r.toRow = .ok r := by
        show Option.orFail _ r.toRow.toRecord? = _
        rw [toRecord?_toRow]
        rfl
      rw [List.map_cons, List.mapM_cons, hr, ih]
      rfl
  cases runs with
  | none => rfl
  | some rows =>
    show (rows ++ records.map toRow).mapM read = Except.map _ (rows.mapM read)
    rw [List.mapM_append, hadded]
    cases rows.mapM read <;> rfl

namespace Machine

variable {w w' : Machine} {l : Location} {s s' : Store}

/-- The database at a place as it is once it is opened. -/
def openedAt (w : Machine) (l : Location) : Except Failure Store :=
  (w.disk.loadStore l).bind Store.opened

/-- The rows of the history at a place, if it has a table. -/
def rows (w : Machine) (l : Location) : Except Failure (Option (List RunRow)) :=
  (w.openedAt l).map Store.runs

/-- The records that are listed of the database at a place. -/
def listRuns (w : Machine) (l : Location) : Except Failure (List RunRecord) :=
  (w.openedAt l).bind Store.listRuns

/-- The rows of the cache at a place. -/
def cells (w : Machine) (l : Location) : Except Failure (Table Address String ×
    Table String StoredCount × Table Address StoredCount) :=
  (w.disk.loadStore l).map Store.cells

/-- A database that can be opened at a place has the table of the history. -/
def HasHistory (w : Machine) (l : Location) : Prop := w.rows l ≠ .ok none

/-- The records that are listed are those of the rows. -/
theorem listRuns_eq (w : Machine) (l : Location) :
    w.listRuns l = (w.rows l).bind RunRecord.ofRows := by
  unfold listRuns rows
  cases w.openedAt l <;> rfl

/-- The rows of a database that is not too new are those of the upgraded one. -/
theorem rows_eq (hload : w.disk.loadStore l = .ok s) (hversion : s.version ≤ currentVersion) :
    w.rows l = .ok s.upgraded.runs := by
  have hopened : w.openedAt l = s.opened := by
    show (w.disk.loadStore l).bind Store.opened = _
    rw [hload]
    rfl
  rw [rows, hopened, Store.opened_eq, if_neg (Int.not_lt.2 hversion)]
  rfl

/-- What was stored in the newest layout is found as it is. -/
theorem rows_withStore (hload : w.disk.loadStore l = .ok s)
    (hversion : s'.version = currentVersion) : (w.withStore l s').rows l = .ok s'.runs := by
  have hstored : (w.withStore l s').disk.loadStore l = .ok s' := Disk.loadStore_saveStore hload s'
  rw [rows_eq hstored (Int.le_of_eq hversion), Store.upgraded_eq_self hversion]

/-- The rows of the cache are those of the store that was stored last. -/
theorem cells_withStore (hload : w.disk.loadStore l = .ok s) (s' : Store) :
    (w.withStore l s').cells l = .ok s'.cells :=
  congrArg (Except.map Store.cells) (Disk.loadStore_saveStore hload s')

/-! ## Records that are added -/

/-- The second machine has the history of the first at a place, with these records after it. -/
def Adds (w w' : Machine) (l : Location) (records : List RunRecord) : Prop :=
  w'.rows l = (w.rows l).map (Option.map (· ++ records.map RunRecord.toRow))

/-- No record is added exactly if the rows stay. -/
theorem adds_nil_iff : w.Adds w' l [] ↔ w'.rows l = w.rows l := by
  have hsame : (w.rows l).map (Option.map (· ++ [].map RunRecord.toRow)) = w.rows l := by
    rcases w.rows l with _ | _ | rows
    · rfl
    · rfl
    · exact congrArg (fun rows => Except.ok (some rows)) (List.append_nil rows)
  rw [Adds, hsame]

/-- Records that are added in two steps are added one after the other. -/
theorem Adds.trans {w'' : Machine} {records records' : List RunRecord}
    (h : w.Adds w' l records) (h' : w'.Adds w'' l records') :
    w.Adds w'' l (records ++ records') := by
  unfold Adds at h h' ⊢
  rw [h', h, List.map_append]
  rcases w.rows l with _ | _ | rows
  · rfl
  · rfl
  · exact congrArg (fun rows => Except.ok (some rows)) (List.append_assoc _ _ _)

/-- Records that are added are listed behind those from before. -/
theorem Adds.listRuns {records : List RunRecord} (h : w.Adds w' l records) :
    w'.listRuns l = (w.listRuns l).map (· ++ records) := by
  rw [listRuns_eq, listRuns_eq, h]
  cases w.rows l with
  | error e => rfl
  | ok runs => exact RunRecord.ofRows_append runs records

end Machine

/-! ## The place of the database -/

namespace Station

variable {st st' : Station} {l : Location} {s : Store} {roots : String → Prop}

/-- Alike stations have the same history. -/
theorem Alike.rows (h : st.Alike st') (l : Location) : st'.rows l = st.rows l := by
  unfold Machine.rows Machine.openedAt
  rw [h.disk]

/-- Alike stations have the same rows of the cache. -/
theorem Alike.cells (h : st.Alike st') (l : Location) : st'.cells l = st.cells l := by
  unfold Machine.cells
  rw [h.disk]

/-- The configuration of the project, if it can be read, names no other database than the one at a
place. The project is the same whichever of the texts names its root. -/
def PointsAt (st : Station) (roots : String → Prop) (l : Location) : Prop :=
  ∀ root, roots root → ∀ config l', st.config (st.layout root) = .ok config →
    st.disk.databaseAt? ((st.layout root).resolve config.database) = some l' → l' = l

/-- Alike stations have the database at the same place. -/
theorem PointsAt.of_alike (h : st.PointsAt roots l) (halike : st.Alike st') :
    st'.PointsAt roots l := by
  intro root hroot config l' hconfig hplace
  have hlayout : st'.layout root = st.layout root := by
    unfold Machine.layout Machine.rootPath
    rw [halike.disk, halike.workingDirectory]
  have htext (path : Path) : st'.readText path = st.readText path := by
    unfold Machine.readText
    rw [halike.disk]
  rw [hlayout, halike.disk] at hplace
  rw [hlayout, config_eq_ok_iff, htext] at hconfig
  exact h root hroot config l' (config_eq_ok_iff.2 hconfig) hplace

/-- The configuration still names the place of the database once one is stored there. -/
theorem PointsAt.withStore (h : st.PointsAt roots l) (hload : st.disk.loadStore l = .ok s)
    (s' : Store) : (st.withStore l s').PointsAt roots l := by
  intro root hroot config l' hconfig hplace
  have hstores : st.disk.Stores (st.withStore l s').disk l := Disk.stores_saveStore hload s'
  obtain ⟨text, htext, hparse⟩ := config_eq_ok_iff.1 hconfig
  obtain ⟨bytes, hread, hbytes⟩ := Machine.readText_eq_ok_iff.1 htext
  obtain hpath | ⟨hlocate, hpath⟩ :=
    hstores.canonical?_cases (p := st.workingDirectory.join root)
  · -- the root has the same path, so its configuration was there before
    have hlayout : (st.withStore l s').layout root = st.layout root :=
      congrArg (fun path : Option Path =>
        Layout.ofRoot (path.getD (st.workingDirectory.join root))) hpath
    rw [hlayout] at hread hplace
    have hbefore := hstores.read_of_text hread hbytes
    have htext' : st.readText (st.layout root).configFile = .ok text :=
      Machine.readText_eq_ok_iff.2 ⟨bytes, hbefore, hbytes⟩
    exact h root hroot config l' (config_eq_ok_iff.2 ⟨text, htext', hparse⟩)
      (hstores.databaseAt? hplace)
  · -- the root is the database itself, and nothing lies below that
    have hne : l ≠ [] := by
      rintro rfl
      cases hload
    have hfile : ((st.withStore l s').layout root).configFile
        = Path.join ("/" ++ "/".intercalate l) ".tagfix/project.json" := by
      unfold Machine.layout Machine.rootPath
      rw [show (st.withStore l s').workingDirectory = st.workingDirectory from rfl, hpath]
      exact Layout.configFile_ofRoot _
    rw [hfile] at hread
    have hdirectory := Disk.node?_of_read_below hne hlocate (by decide) hread
    exact absurd (hstores.node?_eq_directory_iff.1 hdirectory) hstores.free

end Station

/-! ## One run -/

/-- An operation that is asked for on the project that a text names the root of. -/
structure Invocation where
  /-- The station before. -/
  station : Station
  root : String
  operation : Operation

namespace Invocation

variable {i : Invocation} {l : Location} {roots : String → Prop} {p : Project} {e : Problem}
  {outcome : Except Failure String}

/-- The project, if all of it can be opened. -/
def project (i : Invocation) : Except Problem Project := (i.station.loadProject i.root).1

/-- What the command comes to, with the station after it. -/
def ran (i : Invocation) : Except Problem Unit × Station :=
  ((Command.operate i.root i.operation).run : Step (StateM Station) Unit) i.station

/-- What the command comes to. -/
def result (i : Invocation) : Except Problem Unit := i.ran.1

/-- The station after the command. -/
def after (i : Invocation) : Station := i.ran.2

/-- Whether the project can be opened. -/
def opens (i : Invocation) : Bool := i.project.isOk

/-- What the operation gives, if the project can be opened and the operation returns. -/
def outcome? (i : Invocation) : Option (Except Failure String) :=
  i.project.toOption.bind fun p => (p.course i.station.conditions i.operation).ending.result?

/-- Whether the run leaves a record. -/
def records (i : Invocation) : Bool := i.station.writable && i.outcome?.isSome

/-- The record tells what the operation gave. -/
def Recorded (i : Invocation) (r : RunRecord) : Prop :=
  ∃ outcome, i.outcome? = some outcome ∧
    r.Tells i.station.conditions.wording i.operation outcome

/-- Nothing stops the run before it ends: the database can be written and, where sums are checked,
all those of the operation fit. -/
structure Undisturbed (i : Invocation) : Prop where
  writable : i.station.writable = true
  fits : i.station.conditions.checksSums = true → ∀ p, i.project = .ok p → ∀ found,
    ¬(i.operation.run p.snapshot).StopsAt i.station.conditions.room p.store found

/-- What a run does to the database at a place, apart from its record. The project is opened exactly
if its configuration, its database and its snapshot can be read. If it is not, all rows stay. If it
is, the run ends in one of the ways in which an operation does, and leaves a record unless it is
disturbed. -/
structure Accounts (i : Invocation) (l : Location) : Prop where
  opens_iff : i.opens = true ↔ ∃ config s snapshot, i.station.Reaches i.root config l s ∧
    (i.station.withStore l s.upgraded).snapshot
      ((i.station.layout i.root).resolve config.snapshot) = .ok snapshot
  records_iff : i.records = true ↔ i.opens = true ∧ i.Undisturbed
  unopened : ∀ e, i.project = .error e → i.result = .error e ∧
    i.after.cells l = i.station.cells l ∧ i.after.rows l = i.station.rows l
  opened : ∀ p, i.project = .ok p → ∃ rows s, i.station.rows l = .ok (some rows) ∧
    p.Concludes i.station i.operation rows i.result s ∧ i.after.cells l = .ok s.cells ∧
    i.after.rows l = .ok s.runs

/-- A run opens the project and runs the operation on it. -/
theorem ran_eq_bind (i : Invocation) : i.ran
    = ((Project.loadAt i.root : Step (StateM Station) Project) >>= fun p =>
      p.operate i.operation) i.station :=
  rfl

/-- Opening the project gives what the run finds of it. -/
theorem loadAt_apply {result : Except Problem Project} (h : i.project = result) :
    (Project.loadAt i.root : Step (StateM Station) Project) i.station
      = (result, (i.station.loadProject i.root).2) := by
  unfold project at h
  show i.station.loadProject i.root = _
  rw [← h]

/-- If the project cannot be opened, that is all. -/
theorem ran_of_error (h : i.project = .error e) :
    i.ran = (.error e, (i.station.loadProject i.root).2) := by
  rw [ran_eq_bind, Step.bind_apply, loadAt_apply h]

/-- If the project can be opened, the operation runs on it. -/
theorem ran_of_ok (h : i.project = .ok p) : i.ran
    = (p.operate i.operation : Step (StateM Station) Unit) (i.station.loadProject i.root).2 := by
  rw [ran_eq_bind, Step.bind_apply, loadAt_apply h]

/-! ### Which runs leave a record -/

/-- The operation of a project that opens gives what its course ends with. -/
theorem outcome?_of_ok (h : i.project = .ok p) :
    i.outcome? = (p.course i.station.conditions i.operation).ending.result? := by
  unfold outcome?
  rw [h]
  rfl

/-- Without a project no operation gives anything. -/
theorem outcome?_of_error (h : i.project = .error e) : i.outcome? = none := by
  unfold outcome?
  rw [h]
  rfl

/-- A run leaves a record exactly if it opens the project and nothing disturbs it. -/
theorem records_iff (i : Invocation) : i.records = true ↔ i.opens = true ∧ i.Undisturbed := by
  unfold records opens
  rw [Bool.and_eq_true]
  cases hproject : i.project with
  | error e =>
    rw [outcome?_of_error hproject]
    exact iff_of_false (fun h => nomatch h.2) (fun h => nomatch h.1)
  | ok p =>
    have hreturns : i.outcome?.isSome = true ↔
        (p.course i.station.conditions i.operation).ending ≠ .overflowed := by
      rw [outcome?_of_ok hproject]
      cases (p.course i.station.conditions i.operation).ending <;> simp [Ending.result?]
    rw [hreturns, Ne, Project.ending_eq_overflowed_iff]
    constructor
    · rintro ⟨hwritable, hfits⟩
      refine ⟨rfl, hwritable, fun hchecks p' hp' found hstops => hfits ⟨hchecks, found, ?_⟩⟩
      cases hproject.symm.trans hp'
      exact hstops
    · rintro ⟨-, hwritable, hfits⟩
      exact ⟨hwritable, fun ⟨hchecks, found, hstops⟩ => hfits hchecks p hproject found hstops⟩

/-! ### What a run does -/

/-- A database is reached at the place, or the project stays as it is. -/
theorem reaches_or_error (hpoints : i.station.PointsAt roots l) (hroot : roots i.root) :
    (∃ config s, i.station.Reaches i.root config l s) ∨
      ∃ e, i.station.loadProject i.root = (.error e, i.station) := by
  by_cases h : ∃ config l' s, i.station.Reaches i.root config l' s
  · obtain ⟨config, l', s, h⟩ := h
    obtain rfl : l' = l := hpoints i.root hroot config l' h.configured h.place
    exact .inl ⟨config, s, h⟩
  · exact .inr (Station.loadProject_of_not_reaches
      fun config l' s h' => h ⟨config, l', s, h'⟩)

/-- The project opens if all that it is made of can be read. -/
theorem opens_iff (hpoints : i.station.PointsAt roots l) (hroot : roots i.root) :
    i.opens = true ↔ ∃ config s snapshot, i.station.Reaches i.root config l s ∧
      (i.station.withStore l s.upgraded).snapshot
        ((i.station.layout i.root).resolve config.snapshot) = .ok snapshot := by
  unfold opens project
  constructor
  · intro hopens
    obtain ⟨config, s, h⟩ | ⟨e, he⟩ := reaches_or_error hpoints hroot
    · rw [h.loadProject_eq] at hopens
      cases hsnapshot : (i.station.withStore l s.upgraded).snapshot
          ((i.station.layout i.root).resolve config.snapshot) with
      | error e =>
        rw [hsnapshot] at hopens
        cases hopens
      | ok snapshot => exact ⟨config, s, snapshot, h, hsnapshot⟩
    · rw [he] at hopens
      cases hopens
  · rintro ⟨config, s, snapshot, h, hsnapshot⟩
    rw [h.loadProject_eq, hsnapshot]
    rfl

/-- A run that cannot open the project leaves all rows and the place of the database. -/
theorem step_of_error (hpoints : i.station.PointsAt roots l) (hroot : roots i.root)
    (h : i.project = .error e) : i.result = .error e ∧ i.after.PointsAt roots l ∧
      i.after.cells l = i.station.cells l ∧ i.after.rows l = i.station.rows l := by
  unfold result after
  rw [ran_of_error h]
  refine ⟨rfl, ?_⟩
  dsimp only
  obtain ⟨config, s, hreaches⟩ | ⟨e', he'⟩ := reaches_or_error hpoints hroot
  · have hload := hreaches.store
    rw [hreaches.loadProject_eq]
    dsimp only
    refine ⟨hpoints.withStore hload _, ?_, ?_⟩
    · refine (Machine.cells_withStore hload _).trans ?_
      rw [Store.cells_upgraded]
      exact (congrArg (Except.map Store.cells) hload).symm
    · rw [Machine.rows_eq hload hreaches.version]
      exact Machine.rows_withStore hload (Store.version_upgraded hreaches.version)
  · rw [he']
    exact ⟨hpoints, rfl, rfl⟩

/-- A run that opens the project ends in one of the ways in which an operation does. -/
theorem step_of_ok (hpoints : i.station.PointsAt roots l) (hroot : roots i.root)
    (htable : i.station.HasHistory l) (h : i.project = .ok p) : i.after.PointsAt roots l ∧
      ∃ rows s, p.store.runs = some rows ∧ i.station.rows l = .ok (some rows) ∧
        p.Concludes i.station i.operation rows i.result s ∧ i.after.cells l = .ok s.cells ∧
        i.after.rows l = .ok s.runs := by
  obtain ⟨config, s₀, snapshot, hreaches, hsnapshot⟩ := (opens_iff hpoints hroot).1 <| by
    rw [opens, h]
    rfl
  have hload := hreaches.store
  obtain ⟨rows, hruns⟩ : ∃ rows, s₀.upgraded.runs = some rows := by
    refine Option.ne_none_iff_exists'.1 fun hnone => htable ?_
    rw [Machine.rows_eq hload hreaches.version, hnone]
  -- the project is opened with the upgraded store, at the place that was reached
  have hp : p = Station.projectOf (i.station.layout i.root) config l s₀.upgraded snapshot := by
    unfold project at h
    rw [hreaches.loadProject_eq, hsnapshot] at h
    exact (Except.ok.inj h).symm
  have hstore : p.store = s₀.upgraded := congrArg Project.store hp
  have hlocation : p.location = l := congrArg Project.location hp
  obtain ⟨result, s, st', hconcludes, hoperate, halike⟩ := p.operate_apply
    (hlocation.symm ▸ hload) (hstore ▸ hruns) i.operation
  rw [hstore, hlocation] at hoperate
  rw [hlocation] at halike
  have hversion : s.version = currentVersion := by
    rw [hconcludes.version, hstore, Store.version_upgraded hreaches.version]
  have hran : i.ran = (result, st') := by
    rw [ran_of_ok h, hreaches.loadProject_eq]
    exact hoperate
  unfold Invocation.result after
  rw [hran]
  refine ⟨(hpoints.withStore hload s).of_alike halike, rows, s, hstore ▸ hruns, ?_, hconcludes, ?_,
    ?_⟩
  · rw [Machine.rows_eq hload hreaches.version, hruns]
  · exact (halike.cells l).trans (Machine.cells_withStore hload s)
  · exact (halike.rows l).trans (Machine.rows_withStore hload hversion)

/-- Where nothing is recorded, no record is added. -/
theorem exists_records_of_false (h : i.records = false)
    (hrows : i.after.rows l = i.station.rows l) :
    ∃ records, List.Forall₂ Recorded ([i].filter Invocation.records) records ∧
      i.station.Adds i.after.toMachine l records := by
  refine ⟨[], ?_, Machine.adds_nil_iff.2 hrows⟩
  simp [h]

/-- A run that ended in one of the ways in which an operation does adds its record, if it leaves
one. -/
theorem exists_records_of_ok (h : i.project = .ok p) {rows : List RunRow} {s : Store}
    (hruns : p.store.runs = some rows) (hbefore : i.station.rows l = .ok (some rows))
    (hconcludes : p.Concludes i.station i.operation rows i.result s)
    (hafter : i.after.rows l = .ok s.runs) :
    ∃ records, List.Forall₂ Recorded ([i].filter Invocation.records) records ∧
      i.station.Adds i.after.toMachine l records := by
  obtain ⟨outcome, r, hwritable, hreturns, htells, hadded⟩ | ⟨hstopped, hkept⟩ :=
    hconcludes.runs hruns
  · have houtcome : i.outcome? = some outcome := by
      rw [outcome?_of_ok h, hreturns]
      rfl
    have hone : [i].filter Invocation.records = [i] := by
      simp [records, hwritable, houtcome]
    refine ⟨[r], ?_, ?_⟩
    · rw [hone]
      exact .cons ⟨outcome, houtcome, htells⟩ .nil
    · rw [Machine.Adds, hafter, hadded, hbefore]
      rfl
  · have hnone : i.records = false := by
      obtain hsealed | hends := hstopped
      · simp [records, hsealed]
      · simp [records, outcome?_of_ok h, hends, Ending.result?]
    exact exists_records_of_false hnone (by rw [hafter, hkept, hbefore])

/-- One run leaves one record if the project could be opened and nothing disturbed the run, and none
otherwise. -/
theorem step (hpoints : i.station.PointsAt roots l) (hroot : roots i.root)
    (htable : i.station.HasHistory l) : i.after.PointsAt roots l ∧ i.Accounts l ∧
      ∃ records, List.Forall₂ Recorded ([i].filter Invocation.records) records ∧
        i.station.Adds i.after.toMachine l records := by
  have hopens := opens_iff hpoints hroot
  cases hproject : i.project with
  | error e =>
    obtain ⟨hresult, hpoints', hcells, hrows⟩ := step_of_error hpoints hroot hproject
    have hnone : i.records = false := by
      simp [records, outcome?_of_error hproject]
    refine ⟨hpoints', ⟨hopens, i.records_iff, fun e' he' => ?_, fun p hp => ?_⟩,
      exists_records_of_false hnone hrows⟩
    · cases hproject.symm.trans he'
      exact ⟨hresult, hcells, hrows⟩
    · cases hproject.symm.trans hp
  | ok p =>
    obtain ⟨hpoints', rows, s, hruns, hbefore, hconcludes, hcells, hrows⟩ :=
      step_of_ok hpoints hroot htable hproject
    refine ⟨hpoints', ⟨hopens, i.records_iff, fun e he => ?_, fun p' hp' => ?_⟩,
      exists_records_of_ok hproject hruns hbefore hconcludes hrows⟩
    · cases hproject.symm.trans he
    · cases hproject.symm.trans hp'
      exact ⟨rows, s, hbefore, hconcludes, hcells, hrows⟩

end Invocation

/-! ## Many runs -/

/-- Cache operations run on a project one after another, each of them asked for by one of the texts
that name its root. Between them everything may change, except for the history of the database at a
place and for that place itself in the configuration. -/
inductive History (roots : String → Prop) (l : Location) (st₀ : Station) :
    List Invocation → Station → Prop where
  | start : History roots l st₀ [] st₀
  | run {is : List Invocation} {i : Invocation} (before : History roots l st₀ is i.station)
    (hroot : roots i.root) : History roots l st₀ (is ++ [i]) i.after
  | change {is : List Invocation} {st st' : Station} (before : History roots l st₀ is st)
    (hpoints : st'.PointsAt roots l) (hrows : st'.rows l = st.rows l) :
    History roots l st₀ is st'

variable {roots : String → Prop} {l : Location} {st₀ st : Station} {is : List Invocation}

/-- The next run starts from the station that is there. -/
theorem History.next (before : History roots l st₀ is st) (root : String) (op : Operation)
    (hroot : roots root) : History roots l st₀ (is ++ [⟨st, root, op⟩])
      (Invocation.after ⟨st, root, op⟩) :=
  before.run hroot

/-- A database with one record, in which the document of one function is not JSON, and that of
another one has a count that takes no further reference. -/
def Store.noted : Store where
  version := 2
  contents := some (Table.ofList
    [(4, "\x7b"), (12, "\x7b\"__address__\":\x7b\"0xd\":18446744073709551615\x7d\x7d")])
  names := some ∅
  addresses := some ∅
  runs := some [⟨"all", none, "succeeded", none, "then", "later"⟩]

end TagCache
