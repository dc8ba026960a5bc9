import TagCache.Proofs.Session.Increment

/-!
# What implicit tags add to the cache

Adding implicit tags gives the counts of each partition an increase (`ImplicitTags.increase`): at
each head within the bounds that is counted there by its number of tags, and at each name by the
number of its tags. Where the store takes the increases (`Store.Takes`), it is grown by exactly them
(`Store.Grown`), whatever other counts and fields it holds. The increase is that of the references
which are added one by one (`ImplicitTags.increase_eq`), and increases add up, so that both kinds of
implicit tags can be added in either order (`implicit_tags_add_up`).
-/

namespace TagCache

open Session

/-! ## Increases -/

/-- By how much the counts of a partition go up. -/
@[ext] structure Increase where
  addresses : Address → Nat
  names : String → Nat

namespace Increase

instance : Add Increase where
  add g h := ⟨fun a => g.addresses a + h.addresses a, fun k => g.names k + h.names k⟩

/-- Increases add up at every address. -/
@[simp] theorem add_addresses (g h : Increase) (a : Address) :
    (g + h).addresses a = g.addresses a + h.addresses a := rfl

/-- Increases add up for every name. -/
@[simp] theorem add_names (g h : Increase) (k : String) :
    (g + h).names k = g.names k + h.names k := rfl

/-- Some count goes up. -/
def Touches (g : Increase) : Prop := ∃ a, g.addresses a ≠ 0

variable {g h : Increase}

/-- More is added than one increase that adds something. -/
theorem Touches.add_right (hg : g.Touches) : (g + h).Touches := by
  obtain ⟨a, ha⟩ := hg
  exact ⟨a, by simp [ha]⟩

/-- More is added than the other increase that adds something. -/
theorem Touches.add_left (hh : h.Touches) : (g + h).Touches := by
  obtain ⟨a, ha⟩ := hh
  exact ⟨a, by simp [ha]⟩

/-- The increase that references make. -/
def ofReferences (refs : List (Address × String)) : Increase where
  addresses := (refs.map (·.1)).count
  names := (refs.map (·.2)).count

/-- References that follow each other increase the counts by both groups. -/
theorem ofReferences_append (refs more : List (Address × String)) :
    ofReferences (refs ++ more) = ofReferences refs + ofReferences more := by
  unfold ofReferences
  simp only [List.map_append, funext fun a => List.count_append]
  rfl

/-- References add something unless there are none. -/
theorem touches_ofReferences_iff {refs : List (Address × String)} :
    (ofReferences refs).Touches ↔ refs ≠ [] := by
  constructor
  · rintro ⟨a, ha⟩ rfl
    exact ha rfl
  · intro hrefs
    obtain ⟨r, hr⟩ := List.exists_mem_of_ne_nil refs hrefs
    have hcount := List.count_pos_iff.2 (List.mem_map_of_mem (f := Prod.fst) hr)
    exact ⟨r.1, Nat.pos_iff_ne_zero.1 hcount⟩

end Increase

namespace Table

variable {κ : Type} [Ord κ] [Std.TransOrd κ] [Std.LawfulEqOrd κ]

/-- Counts go up by what is given, from zero where they are absent, and the others stay. -/
def GrowsBy (t : Table κ Nat) (g : κ → Nat) (t' : Table κ Nat) : Prop :=
  ∀ k, t'.find? k = if g k = 0 then t.find? k else some (t.getD k 0 + g k)

/-- Rows of the index go up by what is given, and stay below `2 ^ 63`. The others stay. -/
def RowsGrowBy (t : Table κ StoredCount) (g : κ → Nat) (t' : Table κ StoredCount) : Prop :=
  ∀ k, (g k = 0 → t'.find? k = t.find? k) ∧
    (g k ≠ 0 → ∃ m, t.Stores k m ∧ m + g k < 0x8000000000000000 ∧
      t'.find? k = some (.ofNat (m + g k)))

/-- The rows that store counts store the count of every key. -/
theorem stores_stored (t : Table κ Nat) (k : κ) : t.stored.Stores k (t.getD k 0) := by
  unfold Stores
  rw [Table.stored, find?_mapValues, getD]
  cases t.find? k <;> rfl

/-- Raising keys raises the total by their number. -/
theorem total_raiseKeys (t : Table κ Nat) (keys : List κ) :
    Bindings.total (t.raiseKeys keys).entries = Bindings.total t.entries + keys.length := by
  induction keys generalizing t with
  | nil => rfl
  | cons k keys ih =>
    refine (ih (t.raise k 1)).trans ?_
    rw [total_raise, List.length_cons, Nat.add_assoc, Nat.add_comm 1]

variable [DecidableEq κ]

/-- Raising keys makes a table grow by how often each of them is raised. -/
theorem growsBy_raiseKeys (t : Table κ Nat) (keys : List κ) :
    t.GrowsBy keys.count (t.raiseKeys keys) := t.find?_raiseKeys keys

/-- Raising keys makes rows grow by how often each is raised, while they stay below the limit. -/
theorem rowsGrowBy_raiseRows {t : Table κ StoredCount} {keys : List κ}
    (h : ∀ k, keys.count k ≠ 0 → ∃ m, t.Stores k m ∧ m + keys.count k < 0x8000000000000000) :
    t.RowsGrowBy keys.count (t.raiseRows keys) := by
  refine fun k => ⟨t.find?_raiseRows_of_notMem, fun hk => ?_⟩
  obtain ⟨m, hm, hlimit⟩ := h k hk
  exact ⟨m, hm, hlimit, t.find?_raiseRows hm hk hlimit⟩

/-- Counts that stay below the limit stay words. -/
theorem Words.raiseKeys {t : Table κ Nat} (ht : t.Words) {keys : List κ}
    (h : ∀ k, keys.count k ≠ 0 → t.getD k 0 + keys.count k < 0x8000000000000000) :
    (t.raiseKeys keys).Words := by
  intro k n hn
  rw [find?_raiseKeys] at hn
  split at hn
  · exact ht k n hn
  · next hk =>
    cases hn
    exact Nat.lt_trans (h k hk) (by decide)

/-- Rows that store counts are raised as those are. -/
theorem raiseRows_stored {t : Table κ Nat} (ht : t.Words) {keys : List κ}
    (h : ∀ k, keys.count k ≠ 0 → ∃ m, t.stored.Stores k m ∧
      m + keys.count k < 0x8000000000000000) :
    t.stored.raiseRows keys = (t.raiseKeys keys).stored ∧ (t.raiseKeys keys).Words := by
  have hbelow (k : κ) (hk : keys.count k ≠ 0) :
      t.getD k 0 + keys.count k < 0x8000000000000000 := by
    have hsize : UInt64.size = 18446744073709551616 := rfl
    obtain ⟨m, hm, hlimit⟩ := h k hk
    have hm := StoredCount.ofNat_inj (ht.getD k) (by omega) ((stores_stored t k).symm.trans hm)
    omega
  refine ⟨ext_find? fun k => ?_, ht.raiseKeys hbelow⟩
  have hraised : (t.raiseKeys keys).stored.find? k
      = ((t.raiseKeys keys).find? k).map StoredCount.ofNat := by
    rw [Table.stored, find?_mapValues]
  rw [hraised, find?_raiseKeys]
  by_cases hk : keys.count k = 0
  · rw [if_pos hk, find?_raiseRows_of_notMem _ hk, Table.stored, find?_mapValues]
  · rw [if_neg hk, find?_raiseRows _ (stores_stored t k) hk (hbelow k hk)]
    rfl

end Table

/-- The counts of addresses and of names go up. -/
structure Counts.GrowsBy (c : Counts) (g : Increase) (c' : Counts) : Prop where
  addresses : c.addresses.GrowsBy g.addresses c'.addresses
  names : c.names.GrowsBy g.names c'.names

namespace Counts

/-- Recording references makes counts grow by the increase that they are. -/
theorem growsBy_recordAll (c : Counts) (refs : List (Address × String)) :
    c.GrowsBy (.ofReferences refs) (c.recordAll refs) := by
  rw [recordAll_eq]
  exact ⟨Table.growsBy_raiseKeys _ _, Table.growsBy_raiseKeys _ _⟩

/-- Each reference is counted once with an address and once with a name. -/
theorem totals_recordAll (c : Counts) (refs : List (Address × String)) :
    (c.recordAll refs).addressTotal = c.addressTotal + refs.length ∧
      (c.recordAll refs).nameTotal = c.nameTotal + refs.length := by
  have haddresses := c.addresses.total_raiseKeys (refs.map (·.1))
  have hnames := c.names.total_raiseKeys (refs.map (·.2))
  rw [List.length_map] at haddresses hnames
  rw [recordAll_eq]
  exact ⟨haddresses, hnames⟩

end Counts

/-! ## Stores that grow -/

namespace Store

/-- The store takes an increase of a partition. The counts of a function decode from addresses in
their written form, and those of the index are there; the counts that go up stay below `2 ^ 63`. -/
def Takes (s : Store) (g : Increase) : Partition → Prop
  | .contents f => ∃ e c, s.start f = .ok e ∧ e.Written ∧ e.counts = .ok c ∧
    (∀ a, g.addresses a ≠ 0 → c.addresses.getD a 0 + g.addresses a < 0x8000000000000000) ∧
    ∀ k, g.names k ≠ 0 → c.names.getD k 0 + g.names k < 0x8000000000000000
  | .globals => ∃ n t, s.names = some n ∧ s.addresses = some t ∧
    (∀ a, g.addresses a ≠ 0 → ∃ m, t.Stores a m ∧ m + g.addresses a < 0x8000000000000000) ∧
    ∀ k, g.names k ≠ 0 → ∃ m, n.Stores k m ∧ m + g.names k < 0x8000000000000000

/-- A store that takes an increase takes a smaller one. -/
theorem Takes.mono {s : Store} {g h : Increase} {p : Partition} (hs : s.Takes h p)
    (haddresses : ∀ a, g.addresses a ≤ h.addresses a) (hnames : ∀ k, g.names k ≤ h.names k) :
    s.Takes g p := by
  cases p with
  | contents f =>
    obtain ⟨e, c, hstart, hwritten, hcounts, ha, hk⟩ := hs
    refine ⟨e, c, hstart, hwritten, hcounts, fun a hne => ?_, fun k hne => ?_⟩
    · have hle := haddresses a
      have hlimit := ha a (by omega)
      omega
    · have hle := hnames k
      have hlimit := hk k (by omega)
      omega
  | globals =>
    obtain ⟨n, t, hn, ht, ha, hk⟩ := hs
    refine ⟨n, t, hn, ht, fun a hne => ?_, fun k hne => ?_⟩
    · have hle := haddresses a
      obtain ⟨m, hm, hlimit⟩ := ha a (by omega)
      exact ⟨m, hm, by omega⟩
    · have hle := hnames k
      obtain ⟨m, hm, hlimit⟩ := hk k (by omega)
      exact ⟨m, hm, by omega⟩

/-- The counts of each partition went up by its increase, and nothing else changed. What is
persisted for a partition without an increase is the same. -/
structure Grown (s : Store) (g : Partition → Increase) (s' : Store) : Prop where
  version : s'.version = s.version
  runs : s'.runs = s.runs
  same : ∀ p, ¬(g p).Touches → s.SameAt s' p
  contents : ∀ f, (g (.contents f)).Touches → ∃ c c', s.Reads (.contents f) c ∧
    s'.Reads (.contents f) c' ∧ c.GrowsBy (g (.contents f)) c'
  globals : (g .globals).Touches → ∃ n t n' t', s.names = some n ∧ s.addresses = some t ∧
    s'.names = some n' ∧ s'.addresses = some t' ∧ n.RowsGrowBy (g .globals).names n' ∧
    t.RowsGrowBy (g .globals).addresses t'
  /-- The addresses of a partition have as many references more than its names as before. -/
  difference : ∀ p c, s.Reads p c → ∃ c', s'.Reads p c' ∧
    (c'.addressTotal : Int) - c'.nameTotal = c.addressTotal - c.nameTotal

variable {s s' : Store} {refs : List Reference}

/-- Counts that take the increase of references stay words. -/
theorem fits_recordAll {c : Counts} (hc : c.Fits) {refs : List (Address × String)}
    (haddresses : ∀ a, (Increase.ofReferences refs).addresses a ≠ 0 →
      c.addresses.getD a 0 + (Increase.ofReferences refs).addresses a < 0x8000000000000000)
    (hnames : ∀ k, (Increase.ofReferences refs).names k ≠ 0 →
      c.names.getD k 0 + (Increase.ofReferences refs).names k < 0x8000000000000000) :
    (c.recordAll refs).Fits := by
  rw [Counts.recordAll_eq]
  exact ⟨Table.Words.raiseKeys hc.addresses haddresses, Table.Words.raiseKeys hc.names hnames⟩

/-- A store that takes the increases of references can have them added. -/
theorem absorbs_of_takes (h : ∀ p, referencesTo p refs ≠ [] →
    s.Takes (.ofReferences (referencesTo p refs)) p) : s.Absorbs refs where
  contents f hf := by
    obtain ⟨e, c, hstart, hwritten, hcounts, haddresses, hnames⟩ := h (.contents f) hf
    have hwritable := writable_start hstart
    have htables := hwritable.tabulates hwritten hcounts
    exact ⟨e, c, hstart, htables, fits_recordAll (htables.fits hwritable) haddresses hnames⟩
  globals hg := by
    obtain ⟨n, t, hn, ht, -⟩ := h .globals hg
    rw [hn, ht]
    exact ⟨rfl, rfl⟩

namespace Added

variable (hadded : s.Added refs s')
include hadded

/-- A partition without references stays the same. -/
theorem same_of_eq_nil {p : Partition} (hp : referencesTo p refs = []) : s.SameAt s' p := by
  cases p with
  | contents f => exact hadded.same f hp
  | globals =>
    refine ⟨?_, ?_⟩
    · rw [hadded.names, hp]
      cases s.names <;> rfl
    · rw [hadded.addresses, hp]
      cases s.addresses <;> rfl

/-- The counts of a function that references were added to are those with the references
recorded. -/
theorem reads_contents {f : Address} (hf : referencesTo (.contents f) refs ≠ []) :
    ∃ c, s.Reads (.contents f) c ∧
      s'.Reads (.contents f) (c.recordAll (referencesTo (.contents f) refs)) := by
  obtain ⟨e, c, hstart, htables, hagain⟩ := hadded.exists_start hf
  refine ⟨c, reads_contents_iff.2 ⟨e, hstart, htables.counts⟩, reads_contents_iff.2 ⟨_, hagain, ?_⟩⟩
  exact (Entry.tabulates_recorded _ _ _).counts

/-- So are those of the index, if it can be read. -/
theorem reads_globals (htakes : s.Takes (.ofReferences (referencesTo .globals refs)) .globals)
    {c : Counts} (hc : s.Reads .globals c) :
    s'.Reads .globals (c.recordAll (referencesTo .globals refs)) := by
  obtain ⟨hn, ht, hfits⟩ := reads_globals_iff.1 hc
  obtain ⟨n, t, hn', ht', haddresses, hnames⟩ := htakes
  obtain rfl := Option.some.inj (hn.symm.trans hn')
  obtain rfl := Option.some.inj (ht.symm.trans ht')
  obtain ⟨hnames, hnamesWords⟩ := Table.raiseRows_stored hfits.names hnames
  obtain ⟨haddresses, haddressesWords⟩ := Table.raiseRows_stored hfits.addresses haddresses
  rw [Counts.recordAll_eq]
  refine reads_globals_iff.2 ⟨?_, ?_, haddressesWords, hnamesWords⟩
  · rw [hadded.names, hn]
    exact congrArg some hnames
  · rw [hadded.addresses, ht]
    exact congrArg some haddresses

/-- A store that takes the increases of references is grown by them after the walk. -/
theorem grown (h : ∀ p, referencesTo p refs ≠ [] →
    s.Takes (.ofReferences (referencesTo p refs)) p) :
    s.Grown (fun p => .ofReferences (referencesTo p refs)) s' where
  version := hadded.version
  runs := hadded.runs
  same p hp := by
    refine hadded.same_of_eq_nil (Decidable.not_not.1 fun hne => hp ?_)
    exact Increase.touches_ofReferences_iff.2 hne
  contents f hf := by
    obtain ⟨c, hc, hc'⟩ := hadded.reads_contents (Increase.touches_ofReferences_iff.1 hf)
    exact ⟨c, _, hc, hc', c.growsBy_recordAll _⟩
  globals hg := by
    obtain ⟨n, t, hn, ht, haddresses, hnames⟩ := h .globals (Increase.touches_ofReferences_iff.1 hg)
    refine ⟨n, t, _, _, hn, ht, ?_, ?_, Table.rowsGrowBy_raiseRows hnames,
      Table.rowsGrowBy_raiseRows haddresses⟩
    · rw [hadded.names, hn]
      rfl
    · rw [hadded.addresses, ht]
      rfl
  difference p c hc := by
    have hafter : ∃ refs', s'.Reads p (c.recordAll refs') := by
      by_cases hp : referencesTo p refs = []
      · exact ⟨[], (hadded.same_of_eq_nil hp).reads_iff.2 hc⟩
      · refine ⟨referencesTo p refs, ?_⟩
        cases p with
        | contents f =>
          obtain ⟨d, hd, hafter⟩ := hadded.reads_contents hp
          rwa [hc.unique hd]
        | globals => exact hadded.reads_globals (h .globals hp) hc
    obtain ⟨refs', hafter⟩ := hafter
    obtain ⟨haddresses, hnames⟩ := c.totals_recordAll refs'
    refine ⟨_, hafter, ?_⟩
    rw [haddresses, hnames]
    omega

end Added

end Store

/-! ## Implicit tags -/

namespace ImplicitTags

/-- The number of implicit tags at an address that have a given name. -/
def count (db : Snapshot) (a : Address) (k : String) : ImplicitTags → Nat
  | .customNames => if k = nameTag ∧ db.hasCustomName a = true then 1 else 0
  | .extraComments => (if k = ExtraSide.before.tag then db.extraLines a .before else 0)
    + if k = ExtraSide.after.tag then db.extraLines a .after else 0

/-- The number of implicit tags within the bounds. -/
def amount (db : Snapshot) : ImplicitTags → Nat
  | .customNames => db.boundedHeads.countP db.hasCustomName
  | .extraComments =>
    (db.boundedHeads.map fun a => db.extraLines a .before + db.extraLines a .after).sum

/-- What implicit tags add to the counts of a partition: to each head within the bounds that is
counted there the number of its tags, and to each name the number of its tags at those heads. -/
def increase (db : Snapshot) (p : Partition) (t : ImplicitTags) : Increase where
  addresses a := if a ∈ db.boundedHeads ∧ implicitPartition db a = p then t.total db a else 0
  names k := ((db.boundedHeads.filter fun a => implicitPartition db a = p).map
    fun a => t.count db a k).sum

variable {db : Snapshot} (t : ImplicitTags)

/-- An address has as many implicit tags of a name as it has references. -/
theorem count_tags (a : Address) (k : String) : (t.tags db a).count k = t.count db a k := by
  have hcount (n : Nat) (tag : String) :
      (List.replicate n tag).count k = if k = tag then n else 0 := by
    rw [List.count_replicate]
    simp only [beq_iff_eq, @eq_comm _ tag k]
  cases t with
  | customNames =>
    show (if db.hasCustomName a then [nameTag] else []).count k
      = if k = nameTag ∧ db.hasCustomName a = true then 1 else 0
    cases db.hasCustomName a with
    | true => simpa using hcount 1 nameTag
    | false => simp
  | extraComments =>
    unfold tags count
    simp only [List.count_append, hcount]

/-- There are as many references as the builder counts. -/
theorem length_references : (t.references db).length = t.amount db := by
  have hlength : (t.references db).length = (db.boundedHeads.map fun a => t.total db a).sum := by
    simp [references, referencesAt, List.length_flatMap, length_tags]
  rw [hlength]
  cases t with
  | customNames =>
    unfold amount total
    induction db.boundedHeads with
    | nil => rfl
    | cons a heads ih => rw [List.map_cons, List.sum_cons, ih, List.countP_cons, Nat.add_comm]
  | extraComments => rfl

/-- The references that are counted in a partition are those of its heads. -/
theorem referencesTo_references (p : Partition) : referencesTo p (t.references db)
    = (db.boundedHeads.filter fun a => implicitPartition db a = p).flatMap
        fun a => (t.tags db a).map fun k => (a, k) := by
  have hhead (a : Address) : referencesTo p (t.referencesAt db a)
      = if implicitPartition db a = p then (t.tags db a).map fun k => (a, k) else [] := by
    unfold referencesTo referencesAt
    rw [List.filter_map, List.map_map]
    by_cases hp : implicitPartition db a = p <;> simp [Function.comp_def, hp]
  unfold references
  induction db.boundedHeads with
  | nil => rfl
  | cons a heads ih =>
    rw [List.flatMap_cons, referencesTo_append, ih, hhead, List.filter_cons]
    by_cases hp : implicitPartition db a = p <;> simp [hp]

/-- So they make the increase of the partition. -/
theorem increase_eq (p : Partition) :
    t.increase db p = .ofReferences (referencesTo p (t.references db)) := by
  rw [referencesTo_references]
  refine Increase.ext (funext fun a => ?_) (funext fun k => ?_)
  · have hnodup : (db.boundedHeads.filter fun a => implicitPartition db a = p).Nodup :=
      ((KeySet.nodup_toList db.heads).filter _).filter _
    have hat (b : Address) : (((t.tags db b).map fun k => (b, k)).map Prod.fst).count a
        = if b = a then t.total db b else 0 := by
      have hconst : ((t.tags db b).map fun k => (b, k)).map Prod.fst
          = List.replicate (t.total db b) b := by
        rw [List.map_map, ← length_tags]
        exact List.map_const'
      rw [hconst, List.count_replicate]
      simp
    show _ = List.count a (List.map Prod.fst _)
    rw [List.map_flatMap, List.count_flatMap, Function.comp_def]
    simp only [hat]
    rw [List.sum_map_eq_nsmul_single a _ fun b hb _ => if_neg hb, hnodup.count]
    simp [increase]
  · show _ = List.count k (List.map Prod.snd _)
    rw [List.map_flatMap, List.count_flatMap]
    simp [increase, Function.comp_def, count_tags]

/-! ## Adding implicit tags -/

variable {s s' : Store} {t}

/-- A walk that goes to its end gives the number of implicit tags. -/
theorem outcome_run_of_adding (h : s.adding (t.references db) = (.ok (), s')) (room : Option Nat)
    (before : Array Event) : ∃ events, outcome (t.run db) ⟨s, room, before⟩
      = (.ok (t.amount db), ⟨s', room, events⟩) := by
  obtain ⟨events, hrun⟩ := t.exists_outcome_run db s room before
  rw [h] at hrun
  refine ⟨events, hrun.trans ?_⟩
  rw [← length_references]
  rfl

/-- The implicit tags of a kind grow the store by their increases. -/
theorem exists_outcome_of_takes
    (h : ∀ p, (t.increase db p).Touches → s.Takes (t.increase db p) p) :
    ∃ s', s.Grown (t.increase db) s' ∧ ∀ room, ∃ events,
      outcome (t.run db) (.start s room) = (.ok (t.amount db), ⟨s', room, events⟩) := by
  simp only [increase_eq, Increase.touches_ofReferences_iff] at h
  obtain ⟨s', hwalk, hadded⟩ := Store.exists_added (Store.absorbs_of_takes h)
  refine ⟨s', ?_, fun room => outcome_run_of_adding hwalk room #[]⟩
  have hincrease : t.increase db = fun p => .ofReferences (referencesTo p (t.references db)) :=
    funext t.increase_eq
  rw [hincrease]
  exact hadded.grown h

/-- So do those of one kind after those of the other. -/
theorem exists_outcome_both_of_takes (t t' : ImplicitTags)
    (h : ∀ p, (t.increase db p + t'.increase db p).Touches →
      s.Takes (t.increase db p + t'.increase db p) p) :
    ∃ s', s.Added (t.references db ++ t'.references db) s' ∧
      s.Grown (fun p => t.increase db p + t'.increase db p) s' ∧
      ∀ room, ∃ events, outcome (do
          let m ← t.run db
          let n ← t'.run db
          return (m, n)) (.start s room)
        = (.ok (t.amount db, t'.amount db), ⟨s', room, events⟩) := by
  have hsum (p : Partition) : t.increase db p + t'.increase db p
      = .ofReferences (referencesTo p (t.references db ++ t'.references db)) := by
    rw [referencesTo_append, Increase.ofReferences_append, ← increase_eq, ← increase_eq]
  simp only [hsum, Increase.touches_ofReferences_iff] at h ⊢
  have habsorbs := Store.absorbs_of_takes h
  obtain ⟨s₁, hfirst, hadded⟩ := Store.exists_added habsorbs.of_append
  obtain ⟨s₂, hsecond, hadded'⟩ := Store.exists_added (habsorbs.of_added hadded)
  have hboth := hadded.trans hadded'
  refine ⟨s₂, hboth, hboth.grown h, fun room => ?_⟩
  obtain ⟨events, hrun⟩ := outcome_run_of_adding hfirst room #[]
  obtain ⟨events', hrun'⟩ := outcome_run_of_adding hsecond room events
  have hrun : outcome (t.run db) (.start s room) = _ := hrun
  refine ⟨events', ?_⟩
  rw [outcome_bind, hrun]
  simp only
  rw [outcome_bind, hrun']
  rfl

end ImplicitTags

/-- The counts of a partition go up by the implicit tags of both kinds. -/
def Snapshot.implicitIncrease (db : Snapshot) (p : Partition) : Increase :=
  ImplicitTags.customNames.increase db p + ImplicitTags.extraComments.increase db p

/-- Whatever the snapshot is, adding implicit tags of a kind gives their number and makes the counts
of each partition go up by exactly its own, if the store takes that. Adding both kinds leaves the
same store in either order, if the store takes both. -/
theorem implicit_tags_add_up (db : Snapshot) (s : Store) :
    (∀ t : ImplicitTags, (∀ p, (t.increase db p).Touches → s.Takes (t.increase db p) p) →
      ∃ s', s.Grown (t.increase db) s' ∧ ∀ room, ∃ events,
        outcome (t.run db) (.start s room) = (.ok (t.amount db), ⟨s', room, events⟩)) ∧
    ((∀ p, (db.implicitIncrease p).Touches → s.Takes (db.implicitIncrease p) p) →
      ∃ s', s.Grown db.implicitIncrease s' ∧ ∀ room,
        (∃ events, outcome (do
            let names ← customNames db
            let lines ← extraComments db
            return (names, lines)) (.start s room)
          = (.ok (ImplicitTags.customNames.amount db, ImplicitTags.extraComments.amount db),
              ⟨s', room, events⟩)) ∧
        ∃ events, outcome (do
            let lines ← extraComments db
            let names ← customNames db
            return (lines, names)) (.start s room)
          = (.ok (ImplicitTags.extraComments.amount db, ImplicitTags.customNames.amount db),
              ⟨s', room, events⟩)) := by
  refine ⟨fun t h => ImplicitTags.exists_outcome_of_takes h, fun h => ?_⟩
  obtain ⟨s', hadded, hgrown, hrun⟩ :=
    ImplicitTags.exists_outcome_both_of_takes .customNames .extraComments h
  have hcomm (p : Partition) : db.implicitIncrease p
      = ImplicitTags.extraComments.increase db p + ImplicitTags.customNames.increase db p :=
    Increase.ext (funext fun _ => Nat.add_comm _ _) (funext fun _ => Nat.add_comm _ _)
  simp only [hcomm] at h
  obtain ⟨s'', hadded', -, hrun'⟩ :=
    ImplicitTags.exists_outcome_both_of_takes .extraComments .customNames h
  obtain rfl := hadded.eq_of_perm hadded' List.perm_append_comm
  exact ⟨s', hgrown, fun room => ⟨hrun room, hrun' room⟩⟩

/-- A store with counts of the named head, and with a row of the index that is no count. -/
def Store.counted : Store :=
  (Store.fresh.withTables ∅ (Table.ofList [(nameTag, .ofNat 4), ("stale", .real)]) ∅).put 16
    (.ofCounts (.contents 16) ⟨.ofList [(20, 1)], .ofList [("x", 1)]⟩)

/-- The document of the sample function holds its counts. -/
theorem Store.start_counted : Store.counted.start 16
    = .ok (.ofCounts (.contents 16) ⟨.ofList [(20, 1)], .ofList [("x", 1)]⟩) := by
  have hfresh : (Store.fresh.withTables ∅ (Table.ofList [(nameTag, .ofNat 4), ("stale", .real)])
      ∅).start 16 = .ok (.empty (.contents 16)) := rfl
  have hfits : Counts.Fits ⟨.ofList [(20, 1)], .ofList [("x", 1)]⟩ :=
    ⟨Table.words_iff.2 (by decide), Table.words_iff.2 (by decide)⟩
  exact start_put_self hfresh (Entry.plain_ofCounts (.contents 16) hfits) rfl

/-- The partitions of the sample that are increased take it. -/
theorem Store.takes_counted (p : Partition) (hp : (Snapshot.commented.implicitIncrease p).Touches) :
    Store.counted.Takes (Snapshot.commented.implicitIncrease p) p := by
  have hheads : Snapshot.commented.boundedHeads = [16, 20, 40] := by decide
  have haddress (p : Partition) (a : Address)
      (ha : (Snapshot.commented.implicitIncrease p).addresses a ≠ 0) :
      (a = 16 ∨ a = 20 ∨ a = 40) ∧ implicitPartition .commented a = p := by
    have hhead : a ∈ Snapshot.commented.boundedHeads ∧ implicitPartition .commented a = p := by
      refine Decidable.byContradiction fun hnone => ha ?_
      simp [Snapshot.implicitIncrease, ImplicitTags.increase, hnone]
    rw [hheads] at hhead
    simpa using hhead
  have hname (p : Partition) (k : String)
      (hk : (Snapshot.commented.implicitIncrease p).names k ≠ 0) :
      k = nameTag ∨ k = ExtraSide.before.tag ∨ k = ExtraSide.after.tag := by
    refine Decidable.byContradiction fun hnone => hk ?_
    obtain ⟨hname, hlines⟩ := not_or.1 hnone
    obtain ⟨hbefore, hafter⟩ := not_or.1 hlines
    simp [Snapshot.implicitIncrease, ImplicitTags.increase, ImplicitTags.count, hname, hbefore,
      hafter]
  have hsmall {n : Nat} (hn : n ≤ 8) : n < 0x8000000000000000 := by omega
  cases p with
  | globals =>
    refine ⟨_, _, rfl, rfl, fun a ha => ?_, fun k hk => ?_⟩
    · obtain ⟨rfl | rfl | rfl, hp⟩ := haddress _ a ha
      · exact ⟨0, rfl, hsmall (by decide)⟩
      · exact absurd hp (by decide)
      · exact ⟨0, rfl, hsmall (by decide)⟩
    · rcases hname _ k hk with rfl | rfl | rfl
      · exact ⟨4, rfl, hsmall (by decide)⟩
      · exact ⟨0, rfl, hsmall (by decide)⟩
      · exact ⟨0, rfl, hsmall (by decide)⟩
  | contents f =>
    obtain ⟨b, hb⟩ := hp
    obtain rfl : f = 16 := by
      obtain ⟨rfl | rfl | rfl, hp⟩ := haddress _ b hb
      · have hp : Partition.globals = .contents f := hp
        cases hp
      · exact (Partition.contents.inj hp).symm
      · have hp : Partition.globals = .contents f := hp
        cases hp
    refine ⟨_, _, start_counted, (Entry.tabulates_ofCounts _ _).written,
      Entry.counts_ofCounts _ _, fun a ha => ?_, fun k hk => ?_⟩
    · obtain ⟨rfl | rfl | rfl, -⟩ := haddress _ a ha <;> exact hsmall (by decide)
    · rcases hname _ k hk with rfl | rfl | rfl <;> exact hsmall (by decide)

/-- Both builders add their tags to the sample, together as one after the other. -/
theorem implicit_tags_add_up_counted :
    (∀ p, (Snapshot.commented.implicitIncrease p).Touches →
      Store.counted.Takes (Snapshot.commented.implicitIncrease p) p) ∧
    (∀ t : ImplicitTags, ∃ s', Store.counted.Grown (t.increase .commented) s' ∧
      ∀ room, ∃ events, outcome (t.run .commented) (.start .counted room)
        = (.ok (t.amount .commented), ⟨s', room, events⟩)) ∧
    ∃ s', Store.counted.Grown Snapshot.commented.implicitIncrease s' ∧ ∀ room,
      (∃ events, outcome (do
          let names ← customNames .commented
          let lines ← extraComments .commented
          return (names, lines)) (.start .counted room)
        = (.ok (2, 2), ⟨s', room, events⟩)) ∧
      ∃ events, outcome (do
          let lines ← extraComments .commented
          let names ← customNames .commented
          return (lines, names)) (.start .counted room)
        = (.ok (2, 2), ⟨s', room, events⟩) := by
  obtain ⟨hone, hboth⟩ := implicit_tags_add_up .commented .counted
  refine ⟨Store.takes_counted, fun t => hone t fun p hp => ?_, hboth Store.takes_counted⟩
  cases t with
  | customNames =>
    exact (Store.takes_counted p hp.add_right).mono (fun _ => Nat.le_add_right _ _)
      fun _ => Nat.le_add_right _ _
  | extraComments =>
    exact (Store.takes_counted p hp.add_left).mono (fun _ => Nat.le_add_left _ _)
      fun _ => Nat.le_add_left _ _

end TagCache
