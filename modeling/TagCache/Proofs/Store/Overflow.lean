import TagCache.Proofs.Store.Events
import TagCache.Proofs.Store.Partition

/-!
# Counts of the index at the limits of words

A count of the index is stored as a signed word, which the database raises: past the greatest
unsigned word it starts from zero again, and past the greatest signed one it becomes a real number,
with which the index cannot be read (`Store.read_globals_eq_error_iff`). Listing and deleting keys
asks for no count and goes on as before (`Store.servesKeys`). With the rows that the events of the
keys leave this says, for any calls from an empty store on, when the index is read and as what
(`index_counts_wrap`).
-/

namespace TagCache

/-- The count of a key of the index. -/
def Counts.count? (c : Counts) : GlobalKey → Option Nat
  | .name n => c.names.find? n
  | .address a => c.addresses.find? a

namespace Store

variable {s : Store}

/-! ## Reading and listing -/

/-- An index without real numbers can be read. -/
theorem exists_reads_of_rows (hs : s.HasTables) (hrows : ∀ k, s.row? k ≠ some .real) :
    ∃ c, s.Reads .globals c :=
  exists_reads_globals hs (fun k => hrows (.name k)) fun a => hrows (.address a)

/-- The rows of an index that is read store its counts. -/
theorem Reads.row?_eq {c : Counts} (h : s.Reads .globals c) (k : GlobalKey) :
    s.row? k = (c.count? k).map .ofNat ∧ ∀ m, c.count? k = some m → m < 2 ^ 64 := by
  obtain ⟨hnames, haddresses, hfits⟩ := reads_globals_iff.1 h
  cases k with
  | name k =>
    refine ⟨?_, hfits.names k⟩
    show s.names.bind (·.find? k) = _
    rw [hnames]
    exact Table.find?_mapValues _ c.names k
  | address a =>
    refine ⟨?_, hfits.addresses a⟩
    show s.addresses.bind (·.find? a) = _
    rw [haddresses]
    exact Table.find?_mapValues _ c.addresses a

/-- A key is read with what it was last given and the raises since, cut to 64 bits: since the index
is read, none of them met the limit. -/
theorem Reads.count?_of_since {c : Counts} (h : s.Reads .globals c) {k : GlobalKey}
    {events : List KeyEvent} (hrow : s.row? k = KeyEvent.row events) {m n : Nat}
    (hsince : KeyEvent.Since events m n) : c.count? k = some ((m + n) % 2 ^ 64) := by
  obtain ⟨hcount, hlt⟩ := h.row?_eq k
  rw [hrow, hsince.row_eq] at hcount
  obtain ⟨count, hcount', hstored⟩ := Option.map_eq_some_iff.1 hcount.symm
  split at hstored
  · cases hstored
  · have hmod : count % 2 ^ 64 = (m + n) % 2 ^ 64 :=
      congrArg UInt64.toNat (StoredCount.whole.inj hstored)
    rw [hcount', ← hmod, Nat.mod_eq_of_lt (hlt count hcount')]

/-- A key whose events leave it absent has no count. -/
theorem Reads.count?_of_absent {c : Counts} (h : s.Reads .globals c) {k : GlobalKey}
    {events : List KeyEvent} (hrow : s.row? k = KeyEvent.row events)
    (habsent : KeyEvent.Absent events) : c.count? k = none := by
  obtain ⟨hcount, -⟩ := h.row?_eq k
  rw [hrow, habsent.row_eq] at hcount
  exact Option.map_eq_none_iff.1 hcount.symm

/-- The index cannot be read exactly if one of its rows is a real number. -/
theorem read_globals_eq_error_iff (hs : s.HasTables) :
    (∃ e, s.read .globals = .error e) ↔ ∃ k, s.row? k = some .real := by
  constructor
  · rintro ⟨e, he⟩
    by_contra hrows
    obtain ⟨c, hread⟩ := exists_reads_of_rows hs fun k hk => hrows ⟨k, hk⟩
    obtain ⟨hread, -⟩ | ⟨entry, hread, -⟩ := hread <;> rw [he] at hread <;> cases hread
  · rintro ⟨k, hk⟩
    cases hread : s.read .globals with
    | error e => exact ⟨e, rfl⟩
    | ok r =>
      obtain ⟨c, hnames, haddresses, -⟩ := stored_of_readGlobals hread
      cases k with
      | name k =>
        have hk : s.names.bind (·.find? k) = some .real := hk
        rw [hnames] at hk
        exact absurd hk (find?_stored_ne_real c.names k)
      | address a =>
        have hk : s.addresses.bind (·.find? a) = some .real := hk
        rw [haddresses] at hk
        exact absurd hk (find?_stored_ne_real c.addresses a)

/-- A key that is there is removed, whatever its count is. -/
theorem run_removeGlobal_of_there (hs : s.HasTables) {k : GlobalKey} (hk : s.row? k ≠ none) :
    (StoreCall.run (.change (.removeGlobal k)) s).1 = .ok none := by
  obtain ⟨r, c, n, a, rfl⟩ := hs.exists_eq
  cases k with
  | name k =>
    have hthere : n.contains k = true := Option.isSome_iff_ne_none.2 hk
    rw [StoreCall.run, apply_removeGlobal_name, if_pos hthere]
    rfl
  | address b =>
    have hthere : a.contains b = true := Option.isSome_iff_ne_none.2 hk
    rw [StoreCall.run, apply_removeGlobal_address, if_pos hthere]
    rfl

/-- A key that is not there cannot be removed. -/
theorem run_removeGlobal_of_missing (hs : s.HasTables) {k : GlobalKey} (hk : ¬s.row? k ≠ none) :
    StoreCall.run (.change (.removeGlobal k)) s = (.error (.entryMissing (.global k)), s) := by
  obtain ⟨r, c, n, a, rfl⟩ := hs.exists_eq
  cases k with
  | name k =>
    have hmissing : ¬n.contains k = true := fun hc => hk (Option.isSome_iff_ne_none.1 hc)
    rw [StoreCall.run, apply_removeGlobal_name, if_neg hmissing]
    rfl
  | address b =>
    have hmissing : ¬a.contains b = true := fun hc => hk (Option.isSome_iff_ne_none.1 hc)
    rw [StoreCall.run, apply_removeGlobal_address, if_neg hmissing]
    rfl

/-- The keys of the index are listed, names before addresses and both ascending, and deleted, each
one where it is there and all of them together, whatever their counts are. -/
structure ServesKeys (s : Store) (present : GlobalKey → Prop) : Prop where
  listed : ∃ (ks : List String) (as : List Address),
    s.globalKeys = .ok (ks.map .name ++ as.map .address) ∧
    ks.Pairwise (· < ·) ∧ as.Pairwise (· < ·) ∧
    (∀ k, k ∈ ks ↔ present (.name k)) ∧ (∀ a, a ∈ as ↔ present (.address a)) ∧
    (StoreCall.run (.deleteAll .globals) s).1 = .ok (some (ks.length + as.length))
  removed : ∀ k, present k → (StoreCall.run (.change (.removeGlobal k)) s).1 = .ok none
  missing : ∀ k, ¬present k →
    StoreCall.run (.change (.removeGlobal k)) s = (.error (.entryMissing (.global k)), s)

/-- A store with its tables serves the keys that have rows. -/
theorem servesKeys (hs : s.HasTables) : s.ServesKeys fun k => s.row? k ≠ none where
  listed := by
    obtain ⟨r, c, n, a, rfl⟩ := hs.exists_eq
    have hcontains {κ : Type} [Ord κ] [Std.TransOrd κ] [Std.LawfulEqOrd κ]
        {t : Table κ StoredCount} {k : κ} : k ∈ t.keys ↔ t.find? k ≠ none := by
      rw [Table.mem_keys_iff_contains, Table.contains_eq, Option.isSome_iff_ne_none]
    have hrun : StoreM.deleteAll .globals (r.withTables c n a) = _ :=
      deleteAll_globals_withTables n a
    refine ⟨n.keys, a.keys, Session.globalKeys_withTables .., ?_, ?_, fun k => hcontains,
      fun b => hcontains, ?_⟩
    · exact n.pairwise_keys.imp fun hlt => compareOfLessAndEq_eq_lt.1 hlt
    · exact a.pairwise_keys.imp fun hlt => compareOfLessAndEq_eq_lt.1 hlt
    · rw [StoreCall.run, hrun, Table.length_keys, Table.length_keys]
      rfl
  removed _ hk := run_removeGlobal_of_there hs hk
  missing _ hk := run_removeGlobal_of_missing hs hk

end Store

/-! ## The index after any calls -/

/-- From an empty store on, whatever calls are made: the index cannot be read exactly while a key
has overflowed. An overflow ends only where the key is given a count or removed, and it is seen in
no listing, no deletion and no document. Where no key has overflowed, each is read with what it was
last given and how often it was raised since, cut to 64 bits. -/
theorem index_counts_wrap (calls : List StoreCall) :
    let s := (replayCalls StoreCall.run calls .fresh).2
    ((∃ e, s.read .globals = .error e) ↔
      ∃ k, KeyEvent.Overflowed (StoreCall.events k calls)) ∧
    ((∀ k, ¬KeyEvent.Overflowed (StoreCall.events k calls)) →
      ∃ counts, s.Reads .globals counts ∧ ∀ k,
        (∀ c n, KeyEvent.Since (StoreCall.events k calls) c n →
          counts.count? k = some ((c + n) % 2 ^ 64)) ∧
        (KeyEvent.Absent (StoreCall.events k calls) → counts.count? k = none) ∧
        (KeyEvent.Absent (StoreCall.events k calls) ∨
          ∃ c n, KeyEvent.Since (StoreCall.events k calls) c n)) ∧
    (∀ k call, KeyEvent.Overflowed (StoreCall.events k calls) →
      (KeyEvent.Overflowed (StoreCall.events k (calls ++ [call])) ↔
        call.event? k = none ∨ call.event? k = some .raised)) ∧
    s.ServesKeys (fun k => ¬KeyEvent.Absent (StoreCall.events k calls)) ∧
    (replayCalls StoreCall.run (calls.filter (·.isOnDocument)) .fresh).2.contents = s.contents ∧
    (replayCalls StoreCall.run (calls.filter (·.isOnDocument)) .fresh).1
      = repliesTo (·.isOnDocument) calls (replayCalls StoreCall.run calls .fresh).1 := by
  intro s
  have hs : s.HasTables := Store.hasTables_replay ⟨rfl, rfl, rfl⟩ calls
  -- everything below is asked of rows, and a row is what the events of its key made of it
  have hrow (k : GlobalKey) : s.row? k = KeyEvent.row (StoreCall.events k calls) :=
    Store.row?_replay_fresh calls k
  refine ⟨?_, fun hnone => ?_, fun k call h => StoreCall.overflowed_events_append_iff h call, ?_,
    replay_documents rfl calls⟩
  · rw [Store.read_globals_eq_error_iff hs]
    simp only [hrow, KeyEvent.overflowed_iff]
  · obtain ⟨counts, hread⟩ := Store.exists_reads_of_rows hs fun k hk =>
      hnone k (KeyEvent.overflowed_iff.2 ((hrow k).symm.trans hk))
    exact ⟨counts, hread, fun k => ⟨fun c n hsince => hread.count?_of_since (hrow k) hsince,
      hread.count?_of_absent (hrow k), KeyEvent.absent_or_since _⟩⟩
  · have hserves := Store.servesKeys hs
    simp only [hrow, ne_eq, ← KeyEvent.absent_iff] at hserves
    exact hserves

/-- Calls that raise one name at the greatest signed word, and another at the greatest unsigned
one. -/
def StoreCall.overflowing : List StoreCall := [
  .change (.setNames .globals
    (.ofList [("broken", 0x7fffffffffffffff), ("wrapped", 0xffffffffffffffff)])),
  .change (.increment .globals 16 "broken"),
  .change (.setNames (.contents 16) (.ofList [("x", 1)])),
  .change (.increment .globals 16 "wrapped")]

/-- The same calls, with the first name removed at the end. -/
def StoreCall.mended : List StoreCall := overflowing ++ [.change (.removeGlobal (.name "broken"))]

/-- The index with a count that overflowed cannot be read until the key is removed. -/
theorem index_counts_wrap_mended :
    (∃ e, (replayCalls StoreCall.run StoreCall.overflowing .fresh).2.read .globals = .error e) ∧
    ∃ counts, (replayCalls StoreCall.run StoreCall.mended .fresh).2.Reads .globals counts ∧
      counts.count? (.name "broken") = none ∧ counts.count? (.name "wrapped") = some 0 ∧
      counts.count? (.address 16) = some 2 := by
  obtain ⟨hfails, -⟩ := index_counts_wrap StoreCall.overflowing
  obtain ⟨hfails', hread, -⟩ := index_counts_wrap StoreCall.mended
  constructor
  · exact hfails.2 ⟨.name "broken", 0x7fffffffffffffff, 1, .given [] _ 1, 0, by decide, by decide⟩
  · have hok : ∃ r, (replayCalls StoreCall.run StoreCall.mended .fresh).2.read .globals = .ok r :=
      ⟨some (.ofCounts .globals ⟨.ofList [(16, 2)], .ofList [("wrapped", 0)]⟩), by decide +kernel⟩
    obtain ⟨counts, hreads, hcounts⟩ := hread fun k hk => by
      obtain ⟨e, he⟩ := hfails'.2 ⟨k, hk⟩
      obtain ⟨r, hr⟩ := hok
      rw [he] at hr
      cases hr
    refine ⟨counts, hreads, (hcounts (.name "broken")).2.1 ?_,
      (hcounts (.name "wrapped")).1 0xffffffffffffffff 1 (.given [] _ 1),
      (hcounts (.address 16)).1 0 2 (.created 1)⟩
    exact .removed [.given 0x7fffffffffffffff, .raised]

end TagCache
