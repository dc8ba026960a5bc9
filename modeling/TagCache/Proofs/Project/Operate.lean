import TagCache.Proofs.Host.Station
import TagCache.Proofs.Session.Course
import TagCache.Proofs.Store.Schema

/-!
# Running an operation on a project

An operation runs in a session on the project's store. What it made of the store is saved with a
record, whether it succeeded or failed (`Project.Concludes.recorded`). There is no record of a run
that stopped at a sum, whose changes are kept, and none where the database cannot be written, which
then stays what it is (`Project.operate_apply`). A session leaves the history and the version of the
layout alone (`Project.sameOutside_course`), so a record is the only new one.
-/

namespace TagCache

/-! ## Records -/

/-- The stored word for a status is read as the status. -/
theorem RunStatus.parse_text (status : RunStatus) : parse status.text = .ok status := by
  cases status <;> decide +kernel

/-- A record is read back from the row that stores it. -/
theorem RunRecord.toRecord?_toRow (r : RunRecord) : r.toRow.toRecord? = some r := by
  unfold RunRow.toRecord?
  have hparse : RunStatus.parse r.toRow.status = .ok r.status := RunStatus.parse_text r.status
  rw [hparse]
  rfl

/-- The record tells how a run of the operation ended. The messages of a failure are in the words of
the libraries that it came from. -/
structure RunRecord.Tells (r : RunRecord) (w : Wording) (op : Operation)
    (outcome : Except Failure String) : Prop where
  operation : r.operation = op.name
  status : r.status = .succeeded ↔ ∃ summary, outcome = .ok summary
  target : ∀ summary a, outcome = .ok summary → op = .contents a →
    r.detail = some ("function " ++ a.text)
  noTarget : ∀ summary, outcome = .ok summary → (∀ a, op ≠ .contents a) → r.detail = none
  failure : ∀ e, outcome = .error e → r.detail = some (": ".intercalate (e.messages w))

namespace RunRecord.Tells

variable {r : RunRecord} {w : Wording} {op : Operation}

/-- A record that tells of a success says so. -/
theorem succeeded {summary : String} (h : r.Tells w op (.ok summary)) : r.status = .succeeded :=
  h.status.2 ⟨summary, rfl⟩

/-- A record that tells of a failure says so. -/
theorem failed {e : Failure} (h : r.Tells w op (.error e)) : r.status = .failed := by
  cases hstatus : r.status with
  | failed => rfl
  | succeeded =>
    obtain ⟨summary, hsummary⟩ := h.status.1 hstatus
    cases hsummary

end RunRecord.Tells

/-- The record that an operation makes tells of its run. -/
theorem Operation.tells_record (op : Operation) (w : Wording) (hash : Option String)
    (outcome : Except Failure String) (startedAt finishedAt : String) :
    (op.record w hash outcome startedAt finishedAt).Tells w op outcome := by
  cases outcome with
  | error e =>
    refine ⟨rfl, iff_of_false (by rintro ⟨⟩) (by rintro ⟨-, ⟨⟩⟩), ?_, ?_, ?_⟩
    · rintro - - ⟨⟩
    · rintro - ⟨⟩
    · rintro - ⟨⟩
      rfl
  | ok summary =>
    refine ⟨rfl, iff_of_true rfl ⟨summary, rfl⟩, ?_, ?_, ?_⟩
    · rintro - a - rfl
      rfl
    · intro _ _ htarget
      cases op with
      | contents a => exact absurd rfl (htarget a)
      | everything | all | globals | customNames | extraComments | erase => rfl
    · rintro - ⟨⟩

/-- The store with another history. -/
def Store.withRuns (s : Store) (rows : List RunRow) : Store := { s with runs := some rows }

/-- Another history does not change the version. -/
theorem Store.version_withRuns (s : Store) (rows : List RunRow) :
    (s.withRuns rows).version = s.version :=
  rfl

/-- A record becomes the last row of a history that is there. -/
theorem StoreM.insertRun_apply {s : Store} {rows : List RunRow} (h : s.runs = some rows)
    (r : RunRecord) :
    insertRun r s = (.ok (rows.length + 1), s.withRuns (rows ++ [r.toRow])) := by
  unfold insertRun
  rw [bind_apply, asks_apply, h]
  rfl

/-! ## Runs of operations -/

/-- What the command comes to if the operation gives this. -/
def Operation.reported (op : Operation) (outcome : Except Failure String) : Except Problem Unit :=
  match outcome with
  | .ok _ => .ok ()
  | .error e => .error (.within ("'" ++ op.name ++ "' failed") (.failure e))

/-- Of two databases stored at a place the later one stays. -/
theorem Station.withStore_withStore (st : Station) (l : Location) (s s' : Store) :
    (st.withStore l s).withStore l s' = st.withStore l s' :=
  congrArg (fun w : Machine => { st with toMachine := w })
    (Machine.withStore_withStore st.toMachine l s s')

/-- A database that was stored takes what is stored there, or anything if it can be written. -/
theorem Station.takes_withStore_iff {st : Station} {l : Location} {s₀ : Store}
    (hload : st.disk.loadStore l = .ok s₀) {s s' : Store} :
    (st.withStore l s).Takes l s' ↔ st.writable = true ∨ s' = s := by
  have hstored : (st.withStore l s).disk.loadStore l = .ok s := Disk.loadStore_saveStore hload s
  unfold Takes
  rw [hstored, Except.ok.injEq]
  exact or_congr_right eq_comm

namespace Project

variable {p : Project} {op : Operation} {st : Station} {rows : List RunRow}

/-- The course of an operation on a project's store. -/
def course (p : Project) (c : Conditions) (op : Operation) : Course String :=
  (op.run p.snapshot).course c p.store

/-- The tables of the cache may change, the history does not. -/
theorem sameOutside_course (p : Project) (c : Conditions) (op : Operation) :
    Store.SameOutside (fun _ => false) p.store (p.course c op).store :=
  op.sameOutside_course p.snapshot c p.store

/-- An operation stops at a sum exactly if sums are checked and there is a change that it can stop
at. -/
theorem ending_eq_overflowed_iff {c : Conditions} : (p.course c op).ending = .overflowed ↔
    c.checksSums = true ∧ ∃ found, (op.run p.snapshot).StopsAt c.room p.store found := by
  obtain ⟨events, hcourse, hfree⟩ | ⟨events, found, hcourse, hchecks, hstops⟩ :=
    Session.course_cases (op.traces p.snapshot) c p.store
  · rw [course, hcourse]
    exact iff_of_false nofun fun ⟨hchecks, found, hstops⟩ => hfree hchecks found hstops
  · rw [course, hcourse]
    exact iff_of_true rfl ⟨hchecks, found, hstops⟩

/-- It leaves the store in which it stopped. -/
theorem stopsAt_of_overflowed {c : Conditions} (h : (p.course c op).ending = .overflowed) :
    (op.run p.snapshot).StopsAt c.room p.store (p.course c op).store := by
  obtain ⟨events, hcourse, -⟩ | ⟨events, found, hcourse, -, hstops⟩ :=
    Session.course_cases (op.traces p.snapshot) c p.store
  · rw [course, hcourse] at h
    cases h
  · rw [course, hcourse]
    exact hstops

/-- A session takes its course, and what happened in it is shown. -/
theorem runSession_apply (p : Project) (op : Operation) (st : Station) :
    ∃ st', (p.runSession (op.run p.snapshot) : StateM Station _) st
        = (((p.course st.conditions op).ending, (p.course st.conditions op).store), st') ∧
      st.Alike st' := by
  have hshows : Station.Shows ((p.course st.conditions op).events.forM showEvent) :=
    .forM fun e _ => Station.shows_showEvent e
  exact ⟨_, rfl, hshows st⟩

/-- The store that a run leaves is saved if the database takes it. -/
theorem save_of_takes {s : Store} (h : st.Takes p.location s) :
    (p.save s : Step (StateM Station) Unit) st = (.ok (), st.withStore p.location s) := by
  unfold save
  rw [Step.lift_bind_apply, Station.saveStore_of_takes h]
  rfl

/-- Otherwise the run cannot be recorded. -/
theorem save_of_not_takes {s : Store} (h : ¬st.Takes p.location s) :
    (p.save s : Step (StateM Station) Unit) st = (.error (unrecorded .storage), st) := by
  unfold save
  rw [Step.lift_bind_apply, Station.saveStore_of_not_takes h]
  rfl

/-- Where the store is taken, it is saved with one more record, and the command ends as the
operation did. -/
theorem finish_of_writable {store : Store} (hrows : store.runs = some rows)
    (hwritable : st.writable = true) (op : Operation) (hash : Option String) (startedAt : String)
    (outcome : Except Failure String) :
    ∃ r st', RunRecord.Tells r st.conditions.wording op outcome ∧
      (p.finish op hash startedAt outcome store : Step (StateM Station) Unit) st
        = (op.reported outcome, st') ∧
      (st.withStore p.location (store.withRuns (rows ++ [r.toRow]))).Alike st' := by
  have hrecorded (n : Nat) (problem : Failure → Problem) (next : Unit → Step (StateM Station) Unit)
      (st : Station) : (discard (Step.orStop problem (.ok n)) >>= next) st = next () st := rfl
  have htells := op.tells_record st.conditions.wording hash outcome startedAt st.time
  unfold finish
  rw [Step.lift_bind_apply, Station.now_apply, Step.lift_bind_apply, Station.conditions_apply]
  dsimp only
  rw [StoreM.insertRun_apply hrows]
  dsimp only
  generalize op.record st.conditions.wording hash outcome startedAt st.time = r at htells ⊢
  rw [Step.bind_apply, save_of_takes (.inl hwritable)]
  dsimp only
  rw [hrecorded, Step.bind_apply, Step.orStop_apply]
  cases outcome with
  | ok summary => exact ⟨r, _, htells, rfl, Station.shows_printLine summary _⟩
  | error e => exact ⟨r, _, htells, rfl, .refl _⟩

/-- Where no store is taken but the one without the record, there is none. -/
theorem finish_of_sealed {store : Store} (hrows : store.runs = some rows)
    (htakes : ∀ s, st.Takes p.location s → s.runs = some rows) (op : Operation)
    (hash : Option String) (startedAt : String) (outcome : Except Failure String) :
    (p.finish op hash startedAt outcome store : Step (StateM Station) Unit) st
      = (.error (unrecorded .storage), st) := by
  unfold finish
  rw [Step.lift_bind_apply, Station.now_apply, Step.lift_bind_apply, Station.conditions_apply]
  dsimp only
  rw [StoreM.insertRun_apply hrows]
  dsimp only
  generalize op.record st.conditions.wording hash outcome startedAt st.time = r
  have hgrown : ¬st.Takes p.location (store.withRuns (rows ++ [r.toRow])) := by
    intro h
    have hsame : rows ++ [r.toRow] = rows := Option.some.inj (htakes _ h)
    simp at hsame
  rw [Step.bind_apply, save_of_not_takes hgrown]

/-- How a run of an operation on a project ends: what the command comes to, and what the database
holds then. The history had the rows before. -/
inductive Concludes (p : Project) (st : Station) (op : Operation) (rows : List RunRow) :
    Except Problem Unit → Store → Prop where
  /-- The operation succeeds or fails. What it did is kept, with one record that tells of it. -/
  | recorded {outcome : Except Failure String} {r : RunRecord} (hwritable : st.writable = true)
    (hreturns : (p.course st.conditions op).ending = .returned outcome)
    (htells : r.Tells st.conditions.wording op outcome) :
    Concludes p st op rows (op.reported outcome)
      ((p.course st.conditions op).store.withRuns (rows ++ [r.toRow]))
  /-- The database cannot be written, and stays as it is. -/
  | unrecorded (hsealed : st.writable = false) :
    Concludes p st op rows (.error (Project.unrecorded .storage)) p.store
  /-- The program stops at a sum. What the operation did before is kept, without a record. -/
  | overflowed (hends : (p.course st.conditions op).ending = .overflowed)
    (hchecks : st.conditions.checksSums = true)
    (hstops : (op.run p.snapshot).StopsAt st.conditions.room p.store
      (p.course st.conditions op).store)
    (hkept : st.writable = true ∨ (p.course st.conditions op).store = p.store) :
    Concludes p st op rows (.error .overflow) (p.course st.conditions op).store

/-- However a run ends, the layout stays. -/
theorem Concludes.version {result : Except Problem Unit} {s : Store}
    (h : p.Concludes st op rows result s) : s.version = p.store.version := by
  have hcourse := (p.sameOutside_course st.conditions op).version
  cases h with
  | recorded => exact (Store.version_withRuns _ _).trans hcourse
  | unrecorded => rfl
  | overflowed => exact hcourse

/-- The history has one record more, or it stays and something stopped the run. -/
theorem Concludes.runs {result : Except Problem Unit} {s : Store}
    (h : p.Concludes st op rows result s) (hrows : p.store.runs = some rows) :
    (∃ outcome r, st.writable = true ∧
      (p.course st.conditions op).ending = .returned outcome ∧
      RunRecord.Tells r st.conditions.wording op outcome ∧
      s.runs = some (rows ++ [r.toRow])) ∨
    (st.writable = false ∨ (p.course st.conditions op).ending = .overflowed) ∧
      s.runs = some rows := by
  cases h with
  | recorded hwritable hreturns htells =>
    exact .inl ⟨_, _, hwritable, hreturns, htells, rfl⟩
  | unrecorded hsealed => exact .inr ⟨.inl hsealed, hrows⟩
  | overflowed hends =>
    exact .inr ⟨.inr hends, (p.sameOutside_course st.conditions op).runs.trans hrows⟩

section

-- A run changes nothing but its project's database, and that only when it saves at its end.
variable {s₀ : Store} {st' : Station} (hload : st.disk.loadStore p.location = .ok s₀)
  (halike : (st.withStore p.location p.store).Alike st')

include halike

/-- Whatever a run showed before, the same store is saved in the end. -/
theorem alike_withStore (s : Store) :
    (st.withStore p.location s).Alike (st'.withStore p.location s) := by
  rw [← st.withStore_withStore p.location p.store s]
  exact halike.withStore _ _

include hload

/-- Nor does it matter to what the database takes. -/
theorem takes_iff {s : Store} : st'.Takes p.location s ↔ st.writable = true ∨ s = p.store :=
  halike.takes_iff.trans (Station.takes_withStore_iff hload)

/-- An operation that returned is recorded, unless the database cannot be written. -/
theorem finish_apply (hrows : p.store.runs = some rows) {outcome : Except Failure String}
    (hreturns : (p.course st.conditions op).ending = .returned outcome) (hash : Option String)
    (startedAt : String) : ∃ result s st'', p.Concludes st op rows result s ∧
      (p.finish op hash startedAt outcome (p.course st.conditions op).store :
        Step (StateM Station) Unit) st' = (result, st'') ∧
      (st.withStore p.location s).Alike st'' := by
  have hleft : (p.course st.conditions op).store.runs = some rows :=
    (p.sameOutside_course st.conditions op).runs.trans hrows
  cases hwritable : st.writable with
  | true =>
    obtain ⟨r, st'', htells, hfinish, halike'⟩ :=
      finish_of_writable hleft (halike.writable.trans hwritable) op hash startedAt outcome
    have hconditions : st'.conditions = st.conditions := halike.conditions
    rw [hconditions] at htells
    exact ⟨_, _, st'', .recorded hwritable hreturns htells, hfinish,
      (alike_withStore halike _).trans halike'⟩
  | false =>
    have hsame (s : Store) (hs : st'.Takes p.location s) : s.runs = some rows := by
      rw [((takes_iff hload halike).1 hs).resolve_left (Bool.eq_false_iff.1 hwritable)]
      exact hrows
    exact ⟨_, _, st', .unrecorded hwritable,
      finish_of_sealed hleft hsame op hash startedAt outcome, halike⟩

/-- A program that stopped at a sum leaves what the operation did before, unless the database cannot
be written. -/
theorem save_apply (hends : (p.course st.conditions op).ending = .overflowed) :
    ∃ result s st'', p.Concludes st op rows result s ∧
      ((do
        p.save (p.course st.conditions op).store
        throw .overflow) : Step (StateM Station) Unit) st' = (result, st'') ∧
      (st.withStore p.location s).Alike st'' := by
  have hchecks := (ending_eq_overflowed_iff.1 hends).1
  rw [Step.bind_apply]
  by_cases hkept : st.writable = true ∨ (p.course st.conditions op).store = p.store
  · rw [save_of_takes ((takes_iff hload halike).2 hkept)]
    exact ⟨_, _, _, .overflowed hends hchecks (stopsAt_of_overflowed hends) hkept, rfl,
      alike_withStore halike _⟩
  · have hwritable : st.writable = false := Bool.eq_false_iff.2 fun h => hkept (.inl h)
    rw [save_of_not_takes fun h => hkept ((takes_iff hload halike).1 h)]
    exact ⟨_, _, _, .unrecorded hwritable, rfl, halike⟩

end

/-- A run of an operation on a project that was opened, with a history, ends in one of these
ways. -/
theorem operate_apply {s₀ : Store} (hload : st.disk.loadStore p.location = .ok s₀)
    (hrows : p.store.runs = some rows) (op : Operation) :
    ∃ result s st', p.Concludes st op rows result s ∧
      (p.operate op : Step (StateM Station) Unit) (st.withStore p.location p.store)
        = (result, st') ∧ (st.withStore p.location s).Alike st' := by
  obtain ⟨hash, st₁, hfingerprint, halike₁⟩ : ∃ hash st₁, (fingerprint? p.snapshotFile :
      StateM Station (Option String)) (st.withStore p.location p.store) = (hash, st₁) ∧
        (st.withStore p.location p.store).Alike st₁ :=
    ⟨_, _, rfl, Station.shows_fingerprint? _ _⟩
  obtain ⟨st₂, hsession, halike₂⟩ := p.runSession_apply op st₁
  have hconditions : st₁.conditions = st.conditions := halike₁.conditions
  unfold operate
  rw [Step.lift_bind_apply, hfingerprint, Step.lift_bind_apply, Station.now_apply,
    Step.lift_bind_apply, hsession, hconditions]
  dsimp only
  cases hends : (p.course st.conditions op).ending with
  | returned outcome =>
    exact finish_apply hload (halike₁.trans halike₂) hrows hends hash st₁.time
  | overflowed => exact save_apply hload (halike₁.trans halike₂) hends

end Project

end TagCache
