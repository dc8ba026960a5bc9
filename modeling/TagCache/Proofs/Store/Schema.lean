import TagCache.Host.Machine
import TagCache.Proofs.Store.Partition

/-!
# Opening a database

What opening does to a database depends on the version of its layout alone: the version is refused,
or the steps that it lacks bring it to the newest one (`StoreM.upgrade_apply`). On a machine, a
database that is refused stays as it is, and any other is replaced by its upgrade, which a second
opening leaves alone (`Machine.openStore_withStore`). Two facts follow. Only layouts newer than the
newest known one are refused, so a version below the oldest one passes, and keeps no more cache
tables than it had (`only_newer_layouts_refused`). And a layout that the program makes, complete or
half made, gets the tables that it lacks and keeps the rows of those that it has
(`opening_keeps_tables`).
-/

namespace TagCache

/-! ## Upgrades -/

namespace Store

/-- The store in the newest layout, by the steps that its version lacks. -/
def upgraded (s : Store) : Store :=
  if s.version = 0 then s.withCacheTables.withHistory
  else if s.version < currentVersion then s.withHistory
  else s

end Store

/-- A database of a version that is too new is refused, and any other is upgraded. -/
theorem StoreM.upgrade_apply (s : Store) : StoreM.upgrade s
    = if currentVersion < s.version then (.error (.unsupportedVersion s.version), s)
      else (.ok (), s.upgraded) := by
  have hget : (get : StoreM Store) s = (.ok s, s) := rfl
  unfold StoreM.upgrade Store.upgraded
  rw [bind_apply, hget]
  dsimp only
  split
  · rfl
  · split
    · rfl
    · rw [bind_apply, hget]
      dsimp only
      split <;> rfl

namespace Store

/-- The tables that the program makes for a layout of a version are there, if it is one that it
knows. A database at version 0 may have been left half made. -/
def IsLaidOut (s : Store) : Prop :=
  s.version = 0 ∨ (s.version = 1 ∧ s.HasTables) ∨
    (s.version = 2 ∧ s.HasTables ∧ s.runs.isSome)

/-- The second store has the rows of the tables of the first, and no rows in any other table. -/
structure Completes (s' s : Store) : Prop where
  contents : s'.contents = some (s.contents.getD ∅)
  names : s'.names = some (s.names.getD ∅)
  addresses : s'.addresses = some (s.addresses.getD ∅)
  runs : s'.runs = some (s.runs.getD [])

variable {s s' : Store}

/-- Opening a store in terms of its version. -/
theorem opened_eq (s : Store) : s.opened
    = if currentVersion < s.version then .error (.unsupportedVersion s.version)
      else .ok s.upgraded := by
  have hresult : s.opened = (StoreM.upgrade s).1.map fun _ => (StoreM.upgrade s).2 := by
    unfold opened
    rcases StoreM.upgrade s with ⟨_ | _, _⟩ <;> rfl
  rw [hresult, StoreM.upgrade_apply]
  split <;> rfl

/-- What is upgraded has the newest version. -/
theorem version_upgraded (h : s.version ≤ currentVersion) :
    s.upgraded.version = currentVersion := by
  unfold upgraded
  split
  · rfl
  · split
    · rfl
    · next hlt => exact Int.le_antisymm h (Int.not_lt.1 hlt)

/-- A layout of the newest version lacks no step. -/
theorem upgraded_eq_self (h : s.version = currentVersion) : s.upgraded = s := by
  have hzero : s.version ≠ 0 := by
    rw [h]
    decide
  unfold upgraded
  rw [if_neg hzero, if_neg (Int.not_lt.2 (Int.le_of_eq h.symm))]

/-- Below the oldest version only the step to the history is made. -/
theorem upgraded_of_lt (h : s.version < minVersion) : s.upgraded = s.withHistory := by
  have hzero : s.version ≠ 0 := Int.ne_of_lt h
  have hlt : s.version < currentVersion := Int.lt_trans h (by decide)
  unfold upgraded
  rw [if_neg hzero, if_pos hlt]

/-- A store with the tables of its version is not too new. -/
theorem IsLaidOut.version_le (h : s.IsLaidOut) : s.version ≤ currentVersion := by
  obtain h | ⟨h, -⟩ | ⟨h, -⟩ := h <;> rw [h] <;> decide

/-- The tables that a layout is missing are made by a step that its version lacks. -/
theorem IsLaidOut.completes_upgraded (h : s.IsLaidOut) : s.upgraded.Completes s := by
  have hmade {α : Type} (x : Option α) (a : α) : (x <|> some a) = some (x.getD a) :=
    Option.orElse_eq_or.trans Option.or_some
  have hkept {α : Type} {x : Option α} (hx : x.isSome) (a : α) : x = some (x.getD a) :=
    (Option.getD_of_ne_none (Option.isSome_iff_ne_none.1 hx) a).symm
  obtain hversion | ⟨hversion, htables⟩ | ⟨hversion, htables, hruns⟩ := h
  · have hupgraded : s.upgraded = s.withCacheTables.withHistory := if_pos hversion
    rw [hupgraded]
    exact ⟨hmade _ _, hmade _ _, hmade _ _, hmade _ _⟩
  · have hupgraded : s.upgraded = s.withHistory := by
      unfold upgraded
      rw [hversion]
      rfl
    rw [hupgraded]
    exact ⟨hkept htables.contents _, hkept htables.names _, hkept htables.addresses _,
      hmade _ _⟩
  · rw [upgraded_eq_self hversion]
    exact ⟨hkept htables.contents _, hkept htables.names _, hkept htables.addresses _,
      hkept hruns _⟩

namespace Completes

/-- A table that was there is what it was. -/
theorem contents_eq (h : s'.Completes s) (hs : s.contents.isSome) : s'.contents = s.contents :=
  h.contents.trans (Option.getD_of_ne_none (Option.isSome_iff_ne_none.1 hs) _)

/-- Names that are there are kept. -/
theorem names_eq (h : s'.Completes s) (hs : s.names.isSome) : s'.names = s.names :=
  h.names.trans (Option.getD_of_ne_none (Option.isSome_iff_ne_none.1 hs) _)

/-- Addresses that are there are kept. -/
theorem addresses_eq (h : s'.Completes s) (hs : s.addresses.isSome) :
    s'.addresses = s.addresses :=
  h.addresses.trans (Option.getD_of_ne_none (Option.isSome_iff_ne_none.1 hs) _)

/-- A history that is there is kept. -/
theorem runs_eq (h : s'.Completes s) (hs : s.runs.isSome) : s'.runs = s.runs :=
  h.runs.trans (Option.getD_of_ne_none (Option.isSome_iff_ne_none.1 hs) _)

end Completes

/-- What is read from the tables of the first store is read from the second as well. -/
structure SameAnswers (s s' : Store) : Prop where
  contentsKeys : s.contents.isSome → s'.contentsKeys = s.contentsKeys
  contents : s.contents.isSome → ∀ f, s'.read (.contents f) = s.read (.contents f)
  globalKeys : s.names.isSome → s.addresses.isSome → s'.globalKeys = s.globalKeys
  globals : s.names.isSome → s.addresses.isSome → s'.read .globals = s.read .globals
  runs : s.runs.isSome → s'.listRuns = s.listRuns

/-- Missing tables answer as tables without rows. -/
theorem Completes.sameAnswers (h : s'.Completes s) : SameAnswers s s' where
  contentsKeys hc := by rw [Store.contentsKeys, Store.contentsKeys, h.contents_eq hc]
  contents hc f := by
    have hsame : SameAt s s' (.contents f) :=
      congrArg (Option.map fun c : Table Address String => c.find? f) (h.contents_eq hc)
    exact hsame.read_eq
  globalKeys hn ha := by
    rw [Store.globalKeys, Store.globalKeys, h.names_eq hn, h.addresses_eq ha]
  globals hn ha := by
    have hsame : SameAt s s' .globals := ⟨h.names_eq hn, h.addresses_eq ha⟩
    exact hsame.read_eq
  runs hr := by rw [listRuns, listRuns, h.runs_eq hr]

end Store

/-! ## Databases on a machine -/

/-- A database that is stored at a place of one is found there. -/
theorem Disk.loadStore_saveStore {d : Disk} {l : Location} {s : Store}
    (h : d.loadStore l = .ok s) (s' : Store) : (d.saveStore l s').loadStore l = .ok s' := by
  cases l with
  | nil => cases h
  | cons name l =>
    have hnode : (d.saveStore (name :: l) s').node? (name :: l) = some (.database s') :=
      Table.find?_insert_self _ _ _
    rw [loadStore, hnode]

namespace Machine

/-- Open the database that a path names. -/
def openStore (w : Machine) (p : Path) : Except Failure (Location × Store) × Machine :=
  (Host.openStore p : StateM Machine _) w

/-- The machine with a database stored at a place. -/
def withStore (w : Machine) (l : Location) (s : Store) : Machine :=
  { w with disk := w.disk.saveStore l s }

/-- The path names a place with a database, or one where none has been made yet. -/
structure Finds (w : Machine) (p : Path) (l : Location) (s : Store) : Prop where
  place : w.disk.databaseAt? p = some l
  store : w.disk.loadStore l = .ok s

variable {w : Machine} {p : Path} {l : Location} {s : Store}

/-- A database is loaded where the path names it, and what is stored is its upgrade. -/
theorem openStore_eq (h : w.Finds p l s) : w.openStore p
    = if currentVersion < s.version then (.error (.unsupportedVersion s.version), w)
      else (.ok (l, s.upgraded), w.withStore l s.upgraded) := by
  have hbind {α β : Type} (x : StateM Machine α) (f : α → StateM Machine β) :
      (x >>= f) w = f (x w).1 (x w).2 := rfl
  have hplace : (Host.databaseAt? p : StateM Machine _) w = (some l, w) :=
    congrArg (fun place => (place, w)) h.place
  have hload : (Host.loadStore l : StateM Machine _) w = (.ok s, w) :=
    congrArg (fun loaded => (loaded, w)) h.store
  have hopened : (Except.ok s).bind Store.opened = s.opened := rfl
  unfold openStore Host.openStore
  rw [hbind, hplace]
  dsimp only
  rw [hbind, hload]
  dsimp only
  rw [hopened, Store.opened_eq]
  split <;> rfl

/-- A database with a layout that is too new is not opened, and stays as it is. -/
theorem openStore_of_lt (h : w.Finds p l s) (hversion : currentVersion < s.version) :
    w.openStore p = (.error (.unsupportedVersion s.version), w) := by
  rw [openStore_eq h, if_pos hversion]

/-- Any other database is opened and stored in the newest layout. -/
theorem openStore_of_le (h : w.Finds p l s) (hversion : s.version ≤ currentVersion) :
    w.openStore p = (.ok (l, s.upgraded), w.withStore l s.upgraded) := by
  rw [openStore_eq h, if_neg (Int.not_lt.2 hversion)]

/-- Of two databases stored at a place the later one stays. -/
theorem withStore_withStore (w : Machine) (l : Location) (s s' : Store) :
    (w.withStore l s).withStore l s' = w.withStore l s' := by
  show { w with disk := ⟨(w.disk.nodes.insert l _).insert l _⟩ } = _
  rw [Table.insert_insert]
  rfl

/-- A database that was opened is as it was after any later opening. -/
theorem openStore_withStore (h : w.Finds p l s) (hversion : s.version ≤ currentVersion)
    {q : Path} (hq : (w.withStore l s.upgraded).disk.databaseAt? q = some l) :
    (w.withStore l s.upgraded).openStore q
      = (.ok (l, s.upgraded), w.withStore l s.upgraded) := by
  have hfinds : (w.withStore l s.upgraded).Finds q l s.upgraded :=
    ⟨hq, Disk.loadStore_saveStore h.store _⟩
  have hnewest : s.upgraded.version = currentVersion := Store.version_upgraded hversion
  rw [openStore_of_le hfinds (Int.le_of_eq hnewest), Store.upgraded_eq_self hnewest,
    withStore_withStore]

end Machine

/-! ## Versions that are refused -/

/-- A database is refused exactly if its layout is newer than the newest known one, and then the
machine stays as it is. Any other is opened and marked as newest. That holds of a version below the
oldest one too, where no step makes the tables of the cache. -/
theorem only_newer_layouts_refused {w : Machine} {p : Path} {l : Location} {s : Store}
    (h : w.Finds p l s) :
    (∀ e w', w.openStore p = (.error e, w') ↔
      currentVersion < s.version ∧ e = .unsupportedVersion s.version ∧ w' = w) ∧
    (s.version ≤ currentVersion → ∃ s',
      w.openStore p = (.ok (l, s'), w.withStore l s') ∧ s'.version = currentVersion) ∧
    (s.version < minVersion →
      w.openStore p = (.ok (l, s.withHistory), w.withStore l s.withHistory) ∧
      (s.withHistory.HasTables ↔ s.HasTables)) := by
  refine ⟨fun e w' => ?_, fun hle => ?_, fun hlt => ⟨?_, ?_⟩⟩
  · by_cases hversion : currentVersion < s.version
    · rw [Machine.openStore_of_lt h hversion]
      simp [hversion, eq_comm]
    · rw [Machine.openStore_of_le h (Int.not_lt.1 hversion)]
      simp [hversion]
  · exact ⟨_, Machine.openStore_of_le h hle, Store.version_upgraded hle⟩
  · have hle : s.version ≤ currentVersion := Int.le_of_lt (Int.lt_trans hlt (by decide))
    rw [Machine.openStore_of_le h hle, Store.upgraded_of_lt hlt]
  · exact ⟨fun ht => ⟨ht.contents, ht.names, ht.addresses⟩,
      fun ht => ⟨ht.contents, ht.names, ht.addresses⟩⟩

/-- A machine with one database. -/
def Machine.holding (s : Store) : Machine := .start (Disk.empty.saveStore ["cache.db"] s) "/" ""

/-- A disk that holds a database has it where its path names it. -/
theorem Machine.finds_holding (s : Store) : (holding s).Finds "cache.db" ["cache.db"] s := by
  have hplace : (holding .blank).disk.databaseAt? "cache.db" = some ["cache.db"] := by
    decide +kernel
  exact ⟨hplace, rfl⟩

/-- A database at a version below the oldest one, with one of the tables of the cache. -/
def Store.early : Store := { Store.blank with version := -1, names := some ∅ }

/-- The database at version -1 is opened, and tables of the cache are still missing. -/
theorem only_newer_layouts_refused_early :
    (Machine.holding .early).Finds "cache.db" ["cache.db"] .early ∧
    (Machine.holding .early).openStore "cache.db"
      = (.ok (["cache.db"], Store.early.withHistory),
        (Machine.holding .early).withStore ["cache.db"] Store.early.withHistory) ∧
    ¬Store.early.withHistory.HasTables := by
  have h := Machine.finds_holding .early
  obtain ⟨-, -, hbelow⟩ := only_newer_layouts_refused h
  obtain ⟨hopened, htables⟩ := hbelow (by decide)
  refine ⟨h, hopened, fun ht => ?_⟩
  have hcontents : false = true := (htables.1 ht).contents
  cases hcontents

/-- So not every version outside the supported ones is refused. -/
theorem version_below_oldest_passes :
    ¬∀ (w : Machine) (p : Path) (l : Location) (s : Store), w.Finds p l s →
      s.version < minVersion ∨ currentVersion < s.version →
      (w.openStore p).1 = .error (.unsupportedVersion s.version) := by
  intro h
  have hearly := Machine.finds_holding .early
  have hrefused := h _ _ _ _ hearly (.inl (by decide))
  rw [Machine.openStore_of_le hearly (by decide)] at hrefused
  cases hrefused

/-! ## Tables that are kept -/

/-- A database in a layout that the program makes is opened: it gets the newest version and the
tables that it lacks, without rows, and keeps all rows that it has. So it answers as before what is
asked of tables that were there. Opening it again changes nothing. -/
theorem opening_keeps_tables {w : Machine} {p : Path} {l : Location} {s : Store}
    (h : w.Finds p l s) (hlayout : s.IsLaidOut) :
    ∃ s', w.openStore p = (.ok (l, s'), w.withStore l s') ∧
      (w.withStore l s').disk.loadStore l = .ok s' ∧
      s'.version = currentVersion ∧ s'.Completes s ∧ s.SameAnswers s' ∧
      ∀ q, (w.withStore l s').disk.databaseAt? q = some l →
        (w.withStore l s').openStore q = (.ok (l, s'), w.withStore l s') := by
  have hle : s.version ≤ currentVersion := hlayout.version_le
  have hcompletes : s.upgraded.Completes s := hlayout.completes_upgraded
  exact ⟨s.upgraded, Machine.openStore_of_le h hle, Disk.loadStore_saveStore h.store _,
    Store.version_upgraded hle, hcompletes, hcompletes.sameAnswers,
    fun q hq => Machine.openStore_withStore h hle hq⟩

/-- A database at version 0 that was left with the names of the index and a history, in which one
count is a real number. -/
def Store.halfMade : Store where
  version := 0
  contents := none
  names := some (Table.ofList [("broken", .real), ("kept", .whole 3)])
  addresses := none
  runs := some [⟨"globals", none, "succeeded", none, "then", "later"⟩]

/-- The database at version 0 gets the tables that it lacks, keeps its rows, and stays as it is when
it is opened again. -/
theorem opening_keeps_tables_halfMade :
    (Machine.holding .halfMade).Finds "cache.db" ["cache.db"] .halfMade ∧
    Store.halfMade.IsLaidOut ∧
    ∃ s', (Machine.holding .halfMade).openStore "cache.db"
        = (.ok (["cache.db"], s'), (Machine.holding .halfMade).withStore ["cache.db"] s') ∧
      s' = ⟨2, some ∅, Store.halfMade.names, some ∅, Store.halfMade.runs⟩ ∧
      ((Machine.holding .halfMade).withStore ["cache.db"] s').openStore "cache.db"
        = (.ok (["cache.db"], s'), (Machine.holding .halfMade).withStore ["cache.db"] s') := by
  have h := Machine.finds_holding .halfMade
  have hlayout : Store.halfMade.IsLaidOut := .inl rfl
  obtain ⟨s', hopened, hloaded, hversion, hcompletes, -, hagain⟩ := opening_keeps_tables h hlayout
  have hs' : s' = ⟨2, some ∅, Store.halfMade.names, some ∅, Store.halfMade.runs⟩ := by
    obtain ⟨version, contents, names, addresses, runs⟩ := s'
    obtain ⟨hcontents, hnames, haddresses, hruns⟩ := hcompletes
    cases hversion
    cases hcontents
    cases hnames
    cases haddresses
    cases hruns
    rfl
  refine ⟨h, hlayout, s', hopened, hs', hagain _ ?_⟩
  exact (Machine.finds_holding s').place

end TagCache
