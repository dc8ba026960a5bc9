import TagCache.Proofs.Counts
import TagCache.Session.Verify

/-!
# What a recount explains

The comparison of cached counts with recounted ones accepts exactly equal ones
(`compareCounts_accepts_iff`), and the recounted ones are equal exactly if some choice of implicit
tags, left out at the entry point, explains the cached ones (`Recount.eq_found_iff`). The choice is
determined by the counts, which is why the recount may make it by looking at them
(`Recount.Explains.contains_eq`).
-/

namespace TagCache

/-- A test that fails at a listed element where a weaker one succeeds counts less. -/
theorem countP_lt_countP {α : Type} {p q : α → Bool} {l : List α}
    (h : ∀ a ∈ l, p a = true → q a = true) {b : α} (hb : b ∈ l) (hp : p b = false)
    (hq : q b = true) : l.countP p < l.countP q := by
  induction l with
  | nil => cases hb
  | cons a l ih =>
    have hle : l.countP p ≤ l.countP q :=
      List.countP_mono_left fun a ha => h a (List.mem_cons_of_mem _ ha)
    rw [List.countP_cons, List.countP_cons]
    rcases List.mem_cons.1 hb with rfl | hb
    · rw [hp, hq]
      simp only [Bool.false_eq_true, if_false, if_true]
      omega
    · have hlt := ih (fun a ha => h a (List.mem_cons_of_mem _ ha)) hb
      have hhead := h a List.mem_cons_self
      by_cases hpa : p a = true
      · rw [if_pos hpa, if_pos (hhead hpa)]; omega
      · rw [if_neg hpa]; split <;> omega

/-! ## Comparing counts -/

namespace Table

/-- The count of a key in a table that has the counts other than zero. -/
theorem getD_eq_of_find?_iff {κ : Type} [Ord κ] {t : Table κ Nat} {k : κ} {n : Nat}
    (h : ∀ m, t.find? k = some m ↔ n = m ∧ m ≠ 0) : t.getD k 0 = n := by
  unfold getD
  cases hk : t.find? k with
  | some m => exact ((h m).1 hk).1.symm
  | none =>
    refine Decidable.byContradiction fun hne => ?_
    have hsome := (h n).2 ⟨rfl, Ne.symm hne⟩
    rw [hk] at hsome
    cases hsome

variable {κ : Type} [Ord κ] [Std.TransOrd κ] [Std.LawfulEqOrd κ]

/-- No keys lie beyond a table that contains all of them. -/
theorem keysBeyond_eq_nil_iff {ν ν' : Type} {t : Table κ ν} {u : Table κ ν'} :
    t.keysBeyond u = [] ↔ ∀ k, u.contains k = true → t.contains k = true := by
  simp only [keysBeyond, List.filter_eq_nil_iff, mem_keys_iff_contains, Bool.not_eq_true',
    Bool.not_eq_false]

/-- Between tables with the same keys none lies beyond. -/
theorem keysBeyond_eq_nil_of_keys {ν ν' : Type} {t : Table κ ν} {u : Table κ ν'}
    (h : t.keys = u.keys) : t.keysBeyond u = [] := by
  rw [keysBeyond_eq_nil_iff]
  intro k hk
  rw [keys_eq_iff.1 h, hk]

/-- Nothing is mismatched if every cached count was found. -/
theorem mismatches_eq_nil_iff {cached found : Table κ Nat} :
    cached.mismatches found = [] ↔ ∀ k n, cached.find? k = some n → found.getD k 0 = n := by
  simp only [mismatches, List.filterMap_eq_nil_iff, ite_eq_left_iff, reduceCtorEq, imp_false,
    Classical.not_not, find?_eq_some_iff, Prod.forall]

/-- Two tables of counts without a difference are equal. -/
theorem eq_iff_no_difference {cached found : Table κ Nat} :
    cached = found ↔ cached.keysBeyond found = [] ∧ found.keysBeyond cached = [] ∧
      cached.mismatches found = [] := by
  rw [keysBeyond_eq_nil_iff, keysBeyond_eq_nil_iff, mismatches_eq_nil_iff]
  constructor
  · rintro rfl
    refine ⟨fun _ h => h, fun _ h => h, fun k n h => ?_⟩
    rw [getD, h]
    rfl
  · rintro ⟨hc, hf, hcount⟩
    refine ext_find? fun k => ?_
    cases hk : cached.find? k with
    | none =>
      refine (Option.eq_none_iff_forall_ne_some.2 fun n hn => ?_).symm
      have hsome := hc k (by rw [contains_eq, hn]; rfl)
      rw [contains_eq, hk] at hsome
      cases hsome
    | some n =>
      have hsome := hf k (by rw [contains_eq, hk]; rfl)
      rw [contains_eq, Option.isSome_iff_exists] at hsome
      obtain ⟨m, hm⟩ := hsome
      have hn := hcount k n hk
      rw [getD, hm] at hn
      rw [hm, ← hn]
      rfl

end Table

/-- A recount is accepted if nothing is mismatched. -/
theorem Finding.accepts_recounted_iff {f : Address} {addresses : List (Address × Nat × Nat)}
    {names : List (String × Nat × Nat)} :
    (Finding.recounted f addresses names).accepts = true ↔ addresses = [] ∧ names = [] := by
  cases addresses <;> cases names <;> simp [accepts]

/-- The comparison accepts exactly equal counts. -/
theorem compareCounts_accepts_iff {f : Address} {cached found : Counts} :
    (compareCounts f cached found).accepts = true ↔ cached = found := by
  have hext : cached = found ↔ cached.addresses = found.addresses ∧ cached.names = found.names := by
    cases cached; cases found; simp
  rw [hext, Table.eq_iff_no_difference, Table.eq_iff_no_difference]
  unfold compareCounts
  dsimp only
  split
  · next h =>
    simp only [Bool.or_eq_true, Bool.not_eq_true', List.isEmpty_eq_false_iff] at h
    simp only [Finding.accepts, Bool.false_eq_true, false_iff]
    grind
  · next h =>
    simp only [Bool.or_eq_true, Bool.not_eq_true', List.isEmpty_eq_false_iff, not_or,
      Classical.not_not] at h
    split
    · next h' =>
      simp only [Bool.or_eq_true, Bool.not_eq_true', List.isEmpty_eq_false_iff] at h'
      simp only [Finding.accepts, Bool.false_eq_true, false_iff]
      grind
    · next h' =>
      simp only [Bool.or_eq_true, Bool.not_eq_true', List.isEmpty_eq_false_iff, not_or,
        Classical.not_not] at h'
      rw [Finding.accepts_recounted_iff]
      simp only [h, h', true_and]

/-! ## The recounted counts -/

namespace Recount

variable {db : Snapshot} {f : Address} {cached : Counts}

/-- The tags at an address, without those that are dropped at the entry point. -/
def tagsWithout (db : Snapshot) (f : Address) (dropped : NameSet) (a : Address) : NameSet :=
  if a = f then (db.tagsAt a).filter fun k _ => !dropped.contains k else db.tagsAt a

/-- The implicit tags left out at the entry point. -/
def leftOut (db : Snapshot) (f : Address) (cached : Counts) : NameSet :=
  KeySet.ofList (implicitTags.filter (leavesOut db f cached))

/-- The names that are left out are those that the cache leaves out. -/
theorem contains_leftOut (k : String) :
    (leftOut db f cached).contains k = leavesOut db f cached k := by
  rw [Bool.eq_iff_iff, leftOut, KeySet.contains_ofList, List.mem_filter]
  refine and_iff_right_of_imp fun h => ?_
  simp only [leavesOut, Bool.and_eq_true] at h
  exact List.contains_iff_mem.1 h.1.1.1

/-- If every cached address has a tag, the corrected sets are those without the tags left out. -/
theorem corrected_eq (h : ∀ a, cached.addresses.contains a = true → (db.tagsAt a).isEmpty = false) :
    corrected db f cached
      = cached.addresses.mapValues fun a _ => tagsWithout db f (leftOut db f cached) a := by
  refine Table.ext_find? fun a => ?_
  unfold corrected tagged
  rw [Table.find?_mapValues, Table.find?_filter, Table.find?_mapValues, Table.find?_mapValues]
  cases ha : cached.addresses.find? a with
  | none => rfl
  | some n =>
    have hne := h a (by rw [Table.contains_eq, ha]; rfl)
    simp only [Option.map_some, Option.filter_some, hne, Bool.not_false, if_true, tagsWithout,
      contains_leftOut]

/-- The recount has the corrected addresses, each with the number of its tags, which may be zero. -/
theorem find?_addresses_found (a : Address) :
    (found db f cached).addresses.find? a = ((corrected db f cached).find? a).map Table.size := by
  have hcount (n : Nat) : (Counts.ofSets (corrected db f cached)).addresses.find? a = some n ↔
      ∃ s, (corrected db f cached).find? a = some s ∧ s.size = n ∧ n ≠ 0 := by
    simp only [Table.find?_eq_some_iff (t := corrected db f cached)]
    exact Counts.find?_addresses_tallyAll (corrected db f cached).nodup_keys
  unfold found
  rw [Table.find?_overlay, Table.find?_mapValues]
  cases hs : (corrected db f cached).find? a with
  | none =>
    have hnone : (Counts.ofSets (corrected db f cached)).addresses.find? a = none := by
      refine Option.eq_none_iff_forall_ne_some.2 fun n hn => ?_
      obtain ⟨s, h, -⟩ := (hcount n).1 hn
      rw [hs] at h
      cases h
    rw [hnone]
    rfl
  | some s =>
    by_cases hzero : s.size = 0
    · have hnone : (Counts.ofSets (corrected db f cached)).addresses.find? a = none := by
        refine Option.eq_none_iff_forall_ne_some.2 fun n hn => ?_
        obtain ⟨s', h, rfl, hne⟩ := (hcount n).1 hn
        rw [hs] at h
        cases h
        exact hne hzero
      rw [hnone, Option.map_some, Option.map_some, hzero]
      rfl
    · rw [(hcount s.size).2 ⟨s, hs, rfl, hzero⟩]
      rfl

/-- The recounted addresses are the cached ones with a tag. -/
theorem contains_addresses_found (b : Address) :
    (found db f cached).addresses.contains b
      = (cached.addresses.contains b && !(db.tagsAt b).isEmpty) := by
  rw [Table.contains_eq, Table.contains_eq, find?_addresses_found, Option.isSome_map, corrected,
    tagged, Table.find?_mapValues, Option.isSome_map, Table.find?_filter, Table.find?_mapValues]
  cases cached.addresses.find? b with
  | none => rfl
  | some n => cases h : (db.tagsAt b).isEmpty <;> simp [h]

/-- The count that is found of a name is the number of addresses that carry it. -/
theorem find?_names_found {k : String} {m : Nat} :
    (found db f cached).names.find? k = some m ↔
      ((corrected db f cached).entries.countP fun b => b.2.contains k) = m ∧ m ≠ 0 :=
  Counts.find?_names_tallyAll

/-! ## Explained counts -/

/-- The cached counts are those of the tags at the cached addresses, with some implicit tags of the
entry point left out. -/
structure Explains (db : Snapshot) (f : Address) (dropped : NameSet) (cached : Counts) : Prop where
  /-- Only implicit tags that the entry point carries are left out. -/
  implicit : ∀ k, dropped.contains k = true →
    k ∈ implicitTags ∧ (db.tagsAt f).contains k = true
  /-- Nothing is left out where the entry point is not cached. -/
  uncached : cached.addresses.contains f = false → dropped = ∅
  /-- Every cached address has a tag. -/
  tagged : ∀ a, cached.addresses.contains a = true → (db.tagsAt a).isEmpty = false
  addresses : ∀ a m, cached.addresses.find? a = some m → (tagsWithout db f dropped a).size = m
  names : ∀ k m, cached.names.find? k = some m ↔
    (cached.addresses.keys.countP fun a => (tagsWithout db f dropped a).contains k) = m ∧ m ≠ 0

/-- Dropped tags are missing at the entry point and nowhere else. -/
theorem contains_tagsWithout {dropped : NameSet} {a : Address} {k : String} :
    (tagsWithout db f dropped a).contains k = true ↔
      (db.tagsAt a).contains k = true ∧ (a = f → dropped.contains k = false) := by
  unfold tagsWithout
  split
  · next h =>
    show (Table.find? (Table.filter _ _) k).isSome = true ↔ _
    rw [Table.find?_filter_key]
    cases dropped.contains k <;> simp [h, Table.contains_eq]
  · next h => simp [h]

namespace Explains

variable {dropped : NameSet} (h : Explains db f dropped cached)
include h

/-- The counts tell which implicit tags are left out. -/
theorem contains_eq (k : String) : leavesOut db f cached k = dropped.contains k := by
  have hcount : cached.names.getD k 0
      = cached.addresses.keys.countP fun a => (tagsWithout db f dropped a).contains k :=
    Table.getD_eq_of_find?_iff (h.names k)
  have hcarriers : carriers db cached k
      = cached.addresses.keys.countP fun a => (db.tagsAt a).contains k :=
    List.countP_eq_length_filter.symm
  rw [Bool.eq_iff_iff, leavesOut, hcount, hcarriers]
  simp only [Bool.and_eq_true, decide_eq_true_eq]
  constructor
  -- a tag that is not dropped is cached as often as it is carried
  · rintro ⟨⟨⟨-, -⟩, -⟩, hlt⟩
    refine Decidable.byContradiction fun hk => ?_
    have heq : (cached.addresses.keys.countP fun a => (tagsWithout db f dropped a).contains k)
        = cached.addresses.keys.countP fun a => (db.tagsAt a).contains k := by
      refine List.countP_congr fun a _ => ?_
      rw [contains_tagsWithout]
      exact and_iff_left fun _ => by simpa using hk
    omega
  -- a dropped one is carried by the entry point too, which is cached
  · intro hk
    obtain ⟨himplicit, hcarries⟩ := h.implicit k hk
    have hcached : cached.addresses.contains f = true := by
      refine Decidable.byContradiction fun hf => ?_
      rw [h.uncached (by simpa using hf)] at hk
      cases hk
    refine ⟨⟨⟨List.contains_iff_mem.2 himplicit, hcached⟩, hcarries⟩, ?_⟩
    refine countP_lt_countP (fun a _ ha => (contains_tagsWithout.1 ha).1)
      (Table.mem_keys_iff_contains.2 hcached) ?_ hcarries
    rw [← Bool.not_eq_true, contains_tagsWithout]
    rintro ⟨-, hdrop⟩
    rw [hdrop rfl] at hk
    cases hk

/-- The names that are left out are the dropped ones. -/
theorem leftOut_eq : leftOut db f cached = dropped :=
  Table.ext_contains fun k => by rw [contains_leftOut, h.contains_eq]

end Explains

/-- Where every cached address has a tag, the recount counts the tags that are not left out. -/
theorem find?_found_of_tagged
    (h : ∀ a, cached.addresses.contains a = true → (db.tagsAt a).isEmpty = false) :
    (∀ a, (found db f cached).addresses.find? a = (cached.addresses.find? a).map
      fun _ => (tagsWithout db f (leftOut db f cached) a).size) ∧
    ∀ k m, (found db f cached).names.find? k = some m ↔ (cached.addresses.keys.countP
      fun a => (tagsWithout db f (leftOut db f cached) a).contains k) = m ∧ m ≠ 0 := by
  constructor
  · intro a
    rw [find?_addresses_found, corrected_eq h, Table.find?_mapValues, Option.map_map]
    rfl
  · intro k m
    rw [find?_names_found, corrected_eq h, Table.mapValues, List.countP_map, Table.keys,
      List.countP_map]
    rfl

/-- Every recounted address has a tag. -/
theorem tagged_of_found {a : Address} {m : Nat}
    (h : (found db f cached).addresses.find? a = some m) : (db.tagsAt a).isEmpty = false := by
  have hfound : (found db f cached).addresses.contains a = true := by
    rw [Table.contains_eq, h]
    rfl
  rw [contains_addresses_found, Bool.and_eq_true, Bool.not_eq_true'] at hfound
  exact hfound.2

/-- The recount finds the cached counts exactly if some choice of implicit tags explains them. -/
theorem eq_found_iff : cached = found db f cached ↔ ∃ dropped, Explains db f dropped cached := by
  constructor
  · intro heq
    have htagged : ∀ a, cached.addresses.contains a = true → (db.tagsAt a).isEmpty = false := by
      intro a ha
      rw [Table.contains_eq, Option.isSome_iff_exists] at ha
      obtain ⟨m, hm⟩ := ha
      rw [heq] at hm
      exact tagged_of_found hm
    obtain ⟨haddresses, hnames⟩ := find?_found_of_tagged (f := f) htagged
    rw [← heq] at haddresses hnames
    -- the names that the recount leaves out are a choice that explains the counts
    refine ⟨leftOut db f cached, fun k hk => ?_, fun hf => ?_, htagged, fun a m hm => ?_, hnames⟩
    · rw [contains_leftOut] at hk
      simp only [leavesOut, Bool.and_eq_true] at hk
      exact ⟨List.contains_iff_mem.1 hk.1.1.1, hk.1.2⟩
    · refine Table.ext_contains fun k => ?_
      rw [contains_leftOut, leavesOut, hf]
      simp [Table.contains_eq]
    · have hsize := haddresses a
      rw [hm] at hsize
      exact (Option.some.inj hsize).symm
  · rintro ⟨dropped, h⟩
    obtain ⟨haddresses, hnames⟩ := find?_found_of_tagged (f := f) h.tagged
    rw [h.leftOut_eq] at haddresses hnames
    have hext : ∀ {c d : Counts}, c.addresses = d.addresses → c.names = d.names → c = d := by
      rintro ⟨_, _⟩ ⟨_, _⟩ rfl rfl; rfl
    refine hext (Table.ext_find? fun a => ?_) (Table.ext_find? fun k => ?_)
    · rw [haddresses]
      cases hm : cached.addresses.find? a with
      | none => rfl
      | some m => rw [Option.map_some, h.addresses a m hm]
    · ext m
      rw [h.names, hnames]

end Recount

end TagCache
