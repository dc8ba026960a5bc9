import TagCache.Proofs.Session.Erase
import TagCache.Proofs.Store.Ledger
import TagCache.Store.Schema

/-!
# The store keeps a ledger

A ledger has one store that keeps it (`Ledger.store`): each function's counts in the text of a
document, and those of the index in rows of signed words. Every admitted call changes that store as
it changes the ledger, and gives the same reply (`Ledger.run_store`), and reading the store gives
the ledger's counts back (`Ledger.shows_store`). So from an empty store on the store is a ledger,
whatever calls are made (`store_refines_ledger`).
-/

namespace TagCache

open Session (eraseGlobal)

/-! ## Rows of the index -/

section
variable {κ : Type} [Ord κ] [Std.TransOrd κ] [Std.LawfulEqOrd κ]

/-- The next of a stored count that is not the greatest signed word. -/
theorem StoredCount.next_ofNat {n : Nat} (hn : n < UInt64.size) (hne : n ≠ 0x7fffffffffffffff) :
    (StoredCount.ofNat n).next = .ofNat (n + 1) := by
  have hmax : UInt64.ofNat n ≠ maxSigned := by
    intro he
    have htoNat : n % UInt64.size = 0x7fffffffffffffff := congrArg UInt64.toNat he
    rw [Nat.mod_eq_of_lt hn] at htoNat
    exact hne htoNat
  have hsucc : UInt64.ofNat n + 1 = UInt64.ofNat (n + 1) := (UInt64.ofNat_add n 1).symm
  show (if UInt64.ofNat n = maxSigned then real else whole (UInt64.ofNat n + 1)) = _
  rw [if_neg hmax, hsucc]
  rfl

/-- Raising the row of a key raises its count, if that has room. -/
theorem raise_stored {t : Table κ Nat} (ht : t.Words) {k : κ}
    (hk : Partition.globals.Raises (t.getD k 0)) :
    StoreM.raise k t.stored = (t.raise k 1).stored := by
  have hinsert : (t.raise k 1).stored = t.stored.insert k (.ofNat (t.getD k 0 + 1)) :=
    Table.mapValues_insert _ t k _
  rw [hinsert]
  unfold StoreM.raise
  congr 1
  unfold Table.getD at hk ⊢
  rw [Table.stored, Table.find?_mapValues]
  cases hf : t.find? k with
  | none => rfl
  | some n =>
    rw [hf] at hk
    exact StoredCount.next_ofNat (ht k n hf) (hk.2 rfl)

/-- Rows that store counts of 64 bits are read as the counts. -/
theorem wholeCounts_stored_of_words {t : Table κ Nat} (ht : t.Words) :
    Store.wholeCounts t.stored = .ok t := by
  have hmod : (t.mapValues fun _ n => n % UInt64.size) = t := by
    refine Table.ext_find? fun k => ?_
    rw [Table.find?_mapValues]
    cases hk : t.find? k with
    | none => rfl
    | some n => exact congrArg some (Nat.mod_eq_of_lt (ht k n hk))
  rw [wholeCounts_stored, hmod]

end

/-! ## Deleting the index -/

/-- Whether a key of the index is there. -/
def Store.hasGlobal (x : Table String StoredCount × Table Address StoredCount) : GlobalKey → Bool
  | .name k => x.1.contains k
  | .address a => x.2.contains a

/-- The store with the given tables of the index. -/
def Store.withIndex (s : Store) (x : Table String StoredCount × Table Address StoredCount) :
    Store :=
  { s with names := some x.1, addresses := some x.2 }

section
variable {s : Store} {x : Table String StoredCount × Table Address StoredCount}

/-- Removing a key that is there erases it from the tables of the index. -/
theorem removeGlobal_withIndex {k : GlobalKey} (hk : Store.hasGlobal x k = true) :
    StoreM.removeGlobal k (s.withIndex x) = (.ok (), s.withIndex (eraseGlobal x k)) := by
  cases k with
  | name k =>
    have hk : x.1.contains k = true := hk
    show (if x.1.contains k then _ else _ : StoreM Unit) (s.withIndex x) = _
    rw [if_pos hk]
    rfl
  | address a =>
    have hk : x.2.contains a = true := hk
    show (if x.2.contains a then _ else _ : StoreM Unit) (s.withIndex x) = _
    rw [if_pos hk]
    rfl

/-- Erasing a key leaves every other one. -/
theorem hasGlobal_eraseGlobal {k k' : GlobalKey} (hne : k' ≠ k)
    (hk : Store.hasGlobal x k' = true) : Store.hasGlobal (eraseGlobal x k) k' = true := by
  cases k with
  | name k =>
    cases k' with
    | name k' =>
      have hkey : k' ≠ k := fun he => hne (congrArg _ he)
      show (x.1.erase k).contains k' = true
      rw [Table.contains_eq, Table.find?_erase_of_ne _ hkey]
      exact hk
    | address a => exact hk
  | address a =>
    cases k' with
    | name k' => exact hk
    | address a' =>
      have hkey : a' ≠ a := fun he => hne (congrArg _ he)
      show (x.2.erase a).contains a' = true
      rw [Table.contains_eq, Table.find?_erase_of_ne _ hkey]
      exact hk

/-- Keys that are there, each listed once, are removed one by one. -/
theorem forM_removeGlobal {keys : List GlobalKey} (hnodup : keys.Nodup)
    (hkeys : ∀ k ∈ keys, Store.hasGlobal x k = true) :
    keys.forM StoreM.removeGlobal (s.withIndex x)
      = (.ok (), s.withIndex (keys.foldl eraseGlobal x)) := by
  induction keys generalizing x with
  | nil => rfl
  | cons k keys ih =>
    obtain ⟨hk, hnodup⟩ := List.nodup_cons.1 hnodup
    have hrest : ∀ k' ∈ keys, Store.hasGlobal (eraseGlobal x k) k' = true := by
      intro k' hk'
      have hne : k' ≠ k := by
        rintro rfl
        exact hk hk'
      exact hasGlobal_eraseGlobal hne (hkeys k' (List.mem_cons_of_mem _ hk'))
    have hcons : (k :: keys).forM StoreM.removeGlobal
        = StoreM.removeGlobal k >>= fun _ => keys.forM StoreM.removeGlobal := List.forM_cons
    rw [hcons, StoreM.bind_apply, removeGlobal_withIndex (hkeys k List.mem_cons_self)]
    exact ih hnodup hrest

/-- The keys of an index: names in order, then addresses. -/
def globalKeysOf (x : Table String StoredCount × Table Address StoredCount) : List GlobalKey :=
  x.1.keys.map .name ++ x.2.keys.map .address

/-- No key of the index is listed twice. -/
theorem nodup_globalKeysOf (x : Table String StoredCount × Table Address StoredCount) :
    (globalKeysOf x).Nodup := by
  refine List.nodup_append.2 ⟨?_, ?_, ?_⟩
  · exact List.pairwise_map.2 (x.1.nodup_keys.imp fun hne he => hne (GlobalKey.name.inj he))
  · exact List.pairwise_map.2 (x.2.nodup_keys.imp fun hne he => hne (GlobalKey.address.inj he))
  · intro k hk k' hk' he
    obtain ⟨_, -, rfl⟩ := List.mem_map.1 hk
    obtain ⟨_, -, rfl⟩ := List.mem_map.1 hk'
    cases he

/-- The keys that are listed are there. -/
theorem hasGlobal_of_mem_globalKeysOf {k : GlobalKey} (hk : k ∈ globalKeysOf x) :
    Store.hasGlobal x k = true := by
  rcases List.mem_append.1 hk with hk | hk
  · obtain ⟨k', hk', rfl⟩ := List.mem_map.1 hk
    exact Table.mem_keys_iff_contains.1 hk'
  · obtain ⟨k', hk', rfl⟩ := List.mem_map.1 hk
    exact Table.mem_keys_iff_contains.1 hk'

/-- As many keys are listed as the two tables have rows. -/
theorem length_globalKeysOf (x : Table String StoredCount × Table Address StoredCount) :
    (globalKeysOf x).length = x.1.size + x.2.size := by
  simp [globalKeysOf]

/-- Everything stored for the index is deleted, and its keys are counted. -/
theorem deleteAll_globals_withIndex (s : Store)
    (x : Table String StoredCount × Table Address StoredCount) :
    StoreM.deleteAll .globals (s.withIndex x)
      = (.ok (x.1.size + x.2.size), s.withIndex (∅, ∅)) := by
  have hforM := forM_removeGlobal (s := s) (nodup_globalKeysOf x)
    fun k hk => hasGlobal_of_mem_globalKeysOf hk
  have hclear : (globalKeysOf x).foldl eraseGlobal x = (∅, ∅) := Session.foldl_eraseGlobal ..
  have hkeys : (s.withIndex x).globalKeys = .ok (globalKeysOf x) := rfl
  rw [hclear] at hforM
  rw [StoreM.deleteAll, StoreM.bind_apply, StoreM.asks_apply, hkeys]
  dsimp only
  rw [StoreM.bind_apply, hforM, length_globalKeysOf]
  rfl

end

section
variable {s : Store} {c : Table Address String}

/-- Deleting the index empties both tables and counts their rows. -/
theorem deleteAll_globals_withTables (n : Table String StoredCount)
    (a : Table Address StoredCount) :
    StoreM.deleteAll .globals (s.withTables c n a)
      = (.ok (n.size + a.size), s.withTables c ∅ ∅) :=
  deleteAll_globals_withIndex { s with contents := some c } (n, a)

/-- Everything stored for a function is deleted, if there is anything. -/
theorem deleteAll_contents_withTables (f : Address) (n : Table String StoredCount)
    (a : Table Address StoredCount) :
    StoreM.deleteAll (.contents f) (s.withTables c n a)
      = (.ok (if c.contains f then 1 else 0), s.withTables (c.erase f) n a) := by
  have hremove : StoreM.removeContents f (s.withTables c n a) = _ := apply_removeContents
  rw [StoreM.deleteAll, StoreM.tryCatch_apply, StoreM.bind_apply, hremove]
  cases hf : c.contains f with
  | true => rfl
  | false =>
    rw [Table.erase_eq_self hf]
    rfl

end

/-! ## The store of a ledger -/

namespace Ledger

/-- The documents of the functions. -/
def documents (l : Ledger) : Table Address String :=
  l.functions.mapValues fun f c => (Entry.ofCounts (.contents f) c).text

/-- The store that keeps a ledger. -/
def store (l : Ledger) : Store :=
  Store.fresh.withTables l.documents l.globals.names.stored l.globals.addresses.stored

variable {l : Ledger}

/-- An update of a function's document starts from the counts of the ledger. -/
theorem startEntry_documents (h : l.Fits) (f : Address) :
    startEntry l.documents f
      = .ok (Entry.ofCounts (.contents f) (l.counts (.contents f))) := by
  unfold startEntry documents
  rw [Table.find?_mapValues]
  show _ = Except.ok (Entry.ofCounts (.contents f) ((l.functions.find? f).getD ∅))
  cases hf : l.functions.find? f with
  | none => exact congrArg Except.ok (Entry.ofCounts_empty _).symm
  | some c => exact Entry.parse_ofCounts _ (h.functions f c hf)

/-- An update of a function's entry is one of its counts. -/
theorem updateContents_store (h : l.Fits) (f : Address)
    (update : Entry → Except Malformation Entry) {c : Counts}
    (hu : update (.ofCounts (.contents f) (l.counts (.contents f)))
      = .ok (.ofCounts (.contents f) c)) :
    StoreM.updateContents f update l.store = (.ok (), (l.update (.contents f) c).store) := by
  have hdocuments : (l.update (.contents f) c).documents
      = l.documents.insert f (Entry.ofCounts (.contents f) c).text :=
    Table.mapValues_insert _ l.functions f c
  unfold store
  rw [updateContents_withTables update (startEntry_documents h f) hu, hdocuments]
  rfl

/-- Setting names in the store lays them over the counts of the ledger. -/
theorem apply_setNames (h : l.Fits) (p : Partition) (t : NameTable) :
    (Mutation.setNames p t).apply l.store
      = (.ok (), (l.update p ⟨(l.counts p).addresses, (l.counts p).names.overlay t⟩).store) := by
  cases p with
  | contents f =>
    have hentry := Entry.setNames_ofCounts (.contents f) (l.counts (.contents f)) t
    exact updateContents_store h f (fun e => .ok (e.setNames t)) (congrArg Except.ok hentry)
  | globals =>
    unfold store
    rw [apply_setNames_globals, overlay_stored]
    rfl

/-- Setting addresses in the store lays them over the counts of the ledger. -/
theorem apply_setAddresses (h : l.Fits) (p : Partition) (t : AddressTable) :
    (Mutation.setAddresses p t).apply l.store
      = (.ok (), (l.update p ⟨(l.counts p).addresses.overlay t, (l.counts p).names⟩).store) := by
  cases p with
  | contents f =>
    have hentry := Entry.setAddresses_ofCounts (.contents f) (l.counts (.contents f)) t
    exact updateContents_store h f (fun e => .ok (e.setAddresses t)) (congrArg Except.ok hentry)
  | globals =>
    unfold store
    rw [apply_setAddresses_globals, overlay_stored]
    rfl

/-- Adding a reference to the store records it in the ledger, where both counts can be raised. -/
theorem apply_increment (h : l.Fits) {p : Partition} {a : Address} {name : String}
    (hname : p.Raises ((l.counts p).names.getD name 0))
    (haddress : p.Raises ((l.counts p).addresses.getD a 0)) :
    (Mutation.increment p a name).apply l.store
      = (.ok (), (l.update p ((l.counts p).record a name)).store) := by
  cases p with
  | contents f =>
    have hfits := (h.counts (.contents f)).record hname haddress
    have hentry := Entry.increment_ofCounts (.contents f) hfits.spare
    exact updateContents_store h f (fun e => e.increment a name) hentry
  | globals =>
    unfold store
    rw [apply_increment_globals, raise_stored h.globals.names hname,
      raise_stored h.globals.addresses haddress]
    rfl

/-- A change that gives a partition counts has nothing to reply. -/
theorem run_update {m : Mutation} {l' : Ledger} (happly : m.apply l.store = (.ok (), l'.store)) :
    StoreCall.run (.change m) l.store = (.ok none, l'.store) := by
  rw [StoreCall.run, happly]
  rfl

/-- The store without a key. -/
theorem store_erase_contents (f : Address) :
    (l.erase (.contents f)).store = Store.fresh.withTables (l.documents.erase f)
      l.globals.names.stored l.globals.addresses.stored := by
  have hdocuments : (l.erase (.contents f)).documents = l.documents.erase f :=
    Table.mapValues_erase _ l.functions f
  unfold store
  rw [hdocuments]
  rfl

/-- Erasing a name of the index from the ledger erases its row. -/
theorem store_erase_name (k : String) :
    (l.erase (.global (.name k))).store = Store.fresh.withTables l.documents
      (l.globals.names.stored.erase k) l.globals.addresses.stored := by
  have hstored : (l.globals.names.erase k).stored = l.globals.names.stored.erase k :=
    Table.mapValues_erase _ l.globals.names k
  rw [← hstored]
  rfl

/-- Erasing an address of the index from the ledger erases its row. -/
theorem store_erase_address (a : Address) :
    (l.erase (.global (.address a))).store = Store.fresh.withTables l.documents
      l.globals.names.stored (l.globals.addresses.stored.erase a) := by
  have hstored : (l.globals.addresses.erase a).stored = l.globals.addresses.stored.erase a :=
    Table.mapValues_erase _ l.globals.addresses a
  rw [← hstored]
  rfl

/-- A removal deletes a key that is there, and reports one that is not. -/
theorem run_removal {m : Mutation} {k : CacheKey}
    (happly : m.apply l.store = if l.has k then (.ok (), (l.erase k).store)
      else (.error (.entryMissing k), l.store)) :
    StoreCall.run (.change m) l.store = ((l.remove k).1, (l.remove k).2.store) := by
  rw [StoreCall.run, happly]
  unfold remove
  split <;> rfl

/-- Removing a document replies as the ledger does, and leads to its store. -/
theorem run_removeContents (f : Address) :
    StoreCall.run (.change (.removeContents f)) l.store
      = ((l.remove (.contents f)).1, (l.remove (.contents f)).2.store) := by
  refine run_removal ?_
  have hhas : l.has (.contents f) = l.documents.contains f :=
    (Table.contains_mapValues _ l.functions f).symm
  rw [hhas, store_erase_contents]
  exact apply_removeContents

/-- Removing a key of the index replies as the ledger does, and leads to its store. -/
theorem run_removeGlobal (k : GlobalKey) :
    StoreCall.run (.change (.removeGlobal k)) l.store
      = ((l.remove (.global k)).1, (l.remove (.global k)).2.store) := by
  refine run_removal ?_
  cases k with
  | name k =>
    have hhas : l.has (.global (.name k)) = l.globals.names.stored.contains k :=
      (Table.contains_mapValues _ l.globals.names k).symm
    rw [hhas, store_erase_name]
    exact apply_removeGlobal_name k
  | address a =>
    have hhas : l.has (.global (.address a)) = l.globals.addresses.stored.contains a :=
      (Table.contains_mapValues _ l.globals.addresses a).symm
    rw [hhas, store_erase_address]
    exact apply_removeGlobal_address a

/-- Deleting a partition replies as the ledger does, and leads to its store. -/
theorem run_deleteAll (p : Partition) :
    StoreCall.run (.deleteAll p) l.store
      = ((step (.deleteAll p) l).1, (step (.deleteAll p) l).2.store) := by
  cases p with
  | contents f =>
    have hhas : l.has (.contents f) = l.documents.contains f :=
      (Table.contains_mapValues _ l.functions f).symm
    have hrun : StoreM.deleteAll (.contents f) l.store = _ := deleteAll_contents_withTables f _ _
    rw [StoreCall.run, hrun, step, hhas, store_erase_contents]
    rfl
  | globals =>
    have hsize {κ : Type} [Ord κ] [Std.TransOrd κ] [Std.LawfulEqOrd κ] (t : Table κ Nat) :
        t.stored.size = t.size := Table.size_mapValues _ t
    have hrun : StoreM.deleteAll .globals l.store = _ := deleteAll_globals_withTables _ _
    rw [StoreCall.run, hrun, step, hsize, hsize]
    rfl

/-- An admitted call does to the store of a ledger what it does to the ledger, and gives the same
reply. -/
theorem run_store (h : l.Fits) {call : StoreCall} (hadmits : l.Admits call) :
    call.run l.store = ((step call l).1, (step call l).2.store) := by
  cases call with
  | change m =>
    cases m with
    | setNames p t => exact run_update (apply_setNames h p t)
    | setAddresses p t => exact run_update (apply_setAddresses h p t)
    | increment p a name => exact run_update (apply_increment h hadmits.1 hadmits.2)
    | removeContents f => exact run_removeContents f
    | removeGlobal k => exact run_removeGlobal k
  | deleteAll p => exact run_deleteAll p

/-- Admitted calls reply as the ledger does, and lead from its store to that of the ledger after
them. -/
theorem replay_store (h : l.Fits) {calls : List StoreCall} (hadmits : l.AdmitsAll calls) :
    (replayCalls step calls l).2.Fits ∧
    replayCalls StoreCall.run calls l.store
      = ((replayCalls step calls l).1, (replayCalls step calls l).2.store) := by
  induction calls generalizing l with
  | nil => exact ⟨h, rfl⟩
  | cons call calls ih =>
    obtain ⟨hcall, hcalls⟩ := hadmits
    obtain ⟨hfits, hrest⟩ := ih (h.step hcall) hcalls
    refine ⟨hfits, ?_⟩
    rw [replayCalls, run_store h hcall]
    dsimp only
    rw [hrest]
    rfl

/-! ## Reading the store of a ledger -/

/-- The document of a function is read as its counts in the ledger. -/
theorem readContents_store (h : l.Fits) (f : Address) :
    l.store.readContents f
      = .ok ((l.functions.find? f).map fun c => Entry.ofCounts (.contents f) c) := by
  have hdocuments : l.store.contents = some l.documents := rfl
  rw [Store.readContents_eq hdocuments, documents, Table.find?_mapValues]
  cases hf : l.functions.find? f with
  | none => rfl
  | some c =>
    show (Entry.parse (.contents f) (Entry.ofCounts (.contents f) c).text).map some = _
    rw [Entry.parse_ofCounts _ (h.functions f c hf)]
    rfl

/-- The index is read as the counts of the ledger, if it has a key. -/
theorem readGlobals_store (h : l.Fits) :
    l.store.readGlobals
      = .ok (if l.globals.isEmpty then none else some (.ofCounts .globals l.globals)) :=
  Store.readGlobals_of_wholeCounts rfl rfl (wholeCounts_stored_of_words h.globals.names)
    (wholeCounts_stored_of_words h.globals.addresses)

/-- Any partition is read as its counts in the ledger. -/
theorem read_store (h : l.Fits) (p : Partition) :
    l.store.read p = .ok ((l.counts? p).map (Entry.ofCounts p)) := by
  cases p with
  | contents f => exact readContents_store h f
  | globals =>
    have hread : l.store.read .globals = _ := readGlobals_store h
    rw [hread, counts?]
    split <;> rfl

end Ledger

/-- Reading the store gives a ledger: the counts of each partition that has an entry, the functions
that have one, and the keys of the index. -/
structure Store.Shows (s : Store) (l : Ledger) : Prop where
  absent : ∀ p, l.counts? p = none → s.read p = .ok none
  present : ∀ p c, l.counts? p = some c → s.Holds p c
  /-- The functions are listed in ascending order. -/
  contentsKeys : ∃ fs : List Address, s.contentsKeys = .ok fs ∧ fs.Pairwise (· < ·) ∧
    ∀ f, f ∈ fs ↔ l.has (.contents f)
  /-- The names are listed in ascending order, and after them the addresses. -/
  globalKeys : ∃ (ks : List String) (as : List Address),
    s.globalKeys = .ok (ks.map .name ++ as.map .address) ∧
    ks.Pairwise (· < ·) ∧ as.Pairwise (· < ·) ∧
    (∀ k, k ∈ ks ↔ l.has (.global (.name k))) ∧ (∀ a, a ∈ as ↔ l.has (.global (.address a)))

/-- The store of a ledger shows the ledger. -/
theorem Ledger.shows_store {l : Ledger} (h : l.Fits) : l.store.Shows l := by
  refine ⟨fun p hp => ?_, fun p c hp => ?_, ?_, ?_⟩
  · rw [read_store h, hp]
    rfl
  · refine ⟨.ofCounts p c, ?_, Entry.counts_ofCounts p c⟩
    rw [read_store h, hp]
    rfl
  · refine ⟨l.functions.keys, ?_, ?_, fun f => Table.mem_keys_iff_contains⟩
    · exact congrArg Except.ok (Table.keys_mapValues _ l.functions)
    · exact l.functions.pairwise_keys.imp fun hlt => compareOfLessAndEq_eq_lt.1 hlt
  · refine ⟨l.globals.names.keys, l.globals.addresses.keys, ?_, ?_, ?_,
      fun k => Table.mem_keys_iff_contains, fun a => Table.mem_keys_iff_contains⟩
    · have hkeys {κ : Type} [Ord κ] [Std.TransOrd κ] [Std.LawfulEqOrd κ] (t : Table κ Nat) :
          t.stored.keys = t.keys := Table.keys_mapValues _ t
      unfold store
      rw [Session.globalKeys_withTables, hkeys, hkeys]
    · exact l.globals.names.pairwise_keys.imp fun hlt => compareOfLessAndEq_eq_lt.1 hlt
    · exact l.globals.addresses.pairwise_keys.imp fun hlt => compareOfLessAndEq_eq_lt.1 hlt

/-- From an empty store on, admitted calls get the replies that they get from a ledger, and reading
the store gives that ledger. Calls up to any one of them are admitted with the rest, so the store
reads as the ledger after each call. -/
theorem store_refines_ledger (calls : List StoreCall) (h : (∅ : Ledger).AdmitsAll calls) :
    let s := replayCalls StoreCall.run calls .fresh
    let l := replayCalls Ledger.step calls ∅
    s.1 = l.1 ∧ s.2.Shows l.2 := by
  intro s l
  have hfresh : Store.fresh = (∅ : Ledger).store := rfl
  obtain ⟨hfits, hreplay⟩ := Ledger.replay_store Ledger.Fits.empty h
  have hs : s = (l.1, l.2.store) := by
    rw [← hreplay, ← hfresh]
  rw [hs]
  exact ⟨rfl, Ledger.shows_store hfits⟩

/-- Calls with counts and addresses on both sides of the greatest signed word. -/
def StoreCall.atLimits : List StoreCall := [
  .change (.setNames (.contents 0xffffffffffffffff) (.ofList [("\n", 0xfffffffffffffffe)])),
  .change (.increment (.contents 0xffffffffffffffff) 0x8000000000000000 "\n"),
  .change (.setAddresses .globals (.ofList [(0x8000000000000000, 0x7ffffffffffffffe), (3, 0)])),
  .change (.increment .globals 0x8000000000000000 "tag"),
  .change (.removeGlobal (.address 4)),
  .deleteAll (.contents 5),
  .deleteAll .globals]

/-- Counts at both limits are stored, read and deleted as in the ledger. -/
theorem store_refines_ledger_atLimits :
    (∅ : Ledger).AdmitsAll StoreCall.atLimits ∧
    let s := replayCalls StoreCall.run StoreCall.atLimits .fresh
    let l := replayCalls Ledger.step StoreCall.atLimits ∅
    s.1 = l.1 ∧ s.2.Shows l.2 :=
  have h : (∅ : Ledger).AdmitsAll StoreCall.atLimits := by decide
  ⟨h, store_refines_ledger StoreCall.atLimits h⟩

end TagCache
