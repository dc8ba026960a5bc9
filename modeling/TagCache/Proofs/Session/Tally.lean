import TagCache.Proofs.Counts
import TagCache.Proofs.Entry
import TagCache.Proofs.Snapshot.WellFormed
import TagCache.Session.Rebuild

/-!
# The counts of a rebuild

The counts that a rebuild stores, as functions of the snapshot: those of one function
(`Snapshot.contentsCounts`) and those of the globals index (`Snapshot.globalsCounts`), and what each
of their keys is bound to. A name is counted at distinct addresses that have a successor, so its
count fits a machine word (`Snapshot.fits_contentsCounts`).
-/

namespace TagCache

/-- Distinct addresses that are not the greatest one are fewer than there are addresses. -/
theorem Address.length_lt_size {l : List Address} (hl : l.Nodup)
    (h : ∀ a ∈ l, ∃ b : Address, a < b) : l.length < UInt64.size := by
  have hnodup : (l.map UInt64.toNat).Nodup :=
    List.pairwise_map.2 (hl.imp fun hab he => hab (UInt64.toNat_inj.1 he))
  have hsub : l.map UInt64.toNat ⊆ List.range (UInt64.size - 1) := by
    intro n hn
    obtain ⟨a, ha, rfl⟩ := List.mem_map.1 hn
    obtain ⟨b, hb⟩ := h a ha
    have hlt := UInt64.lt_iff_toNat_lt.1 hb
    have hsize := b.toNat_lt_size
    exact List.mem_range.2 (by omega)
  have hlength := hnodup.length_le_of_subset hsub
  rw [List.length_map, List.length_range] at hlength
  have hpos : 0 < UInt64.size := by decide
  omega

/-- An address in a function has a successor. -/
theorem FunctionInfo.exists_lt_of_contains {f : FunctionInfo} {a : Address}
    (h : f.contains a = true) : ∃ b, a < b := by
  obtain ⟨c, -, hc⟩ := List.any_eq_true.1 h
  simp only [Chunk.contains, Bool.and_eq_true, decide_eq_true_eq] at hc
  exact ⟨c.stop, hc.2⟩

namespace Snapshot

variable {db : Snapshot}

/-- Addresses with the names of their tags. -/
def tagged (db : Snapshot) (l : List Address) : List (Address × NameSet) :=
  l.map fun a => (a, db.tagsAt a)

/-- Addresses with their tags are the addresses again. -/
@[simp] theorem map_fst_tagged (l : List Address) : (db.tagged l).map (·.1) = l := by
  simp [tagged, Function.comp_def]

/-- An address is paired with its tags. -/
theorem mem_tagged_iff {l : List Address} {a : Address} {s : NameSet} :
    (a, s) ∈ db.tagged l ↔ a ∈ l ∧ db.tagsAt a = s := by
  simp only [tagged, List.mem_map, Prod.mk.injEq]
  constructor
  · rintro ⟨b, hb, rfl, rfl⟩; exact ⟨hb, rfl⟩
  · rintro ⟨ha, rfl⟩; exact ⟨a, ha, rfl, rfl⟩

/-- As many pairs as addresses have a tag. -/
theorem countP_tagged (l : List Address) (k : String) :
    ((db.tagged l).countP fun b => b.2.contains k)
      = l.countP fun a => (db.tagsAt a).contains k := by
  rw [tagged, List.countP_map]
  rfl

/-- No address has more tags than a machine word counts. Sets that are larger fit no memory, but the
tables here have no bound of their own. -/
def TagsFit (db : Snapshot) : Prop := ∀ a, (db.tagsAt a).size < UInt64.size

/-- The tags fit if every address has fewer than there are words. -/
theorem tagsFit_iff : db.TagsFit ↔ ∀ b ∈ db.tags.entries, b.2.size < UInt64.size := by
  constructor
  · intro h b hb
    have hfit := h b.1
    rw [tagsAt, Table.find?_eq_some_iff.2 hb] at hfit
    rwa [Table.size_mapValues] at hfit
  · intro h a
    unfold tagsAt
    split
    · next t ht =>
      rw [Table.size_mapValues]
      exact h _ (Table.find?_eq_some_iff.1 ht)
    · decide

instance : Decidable db.TagsFit := decidable_of_iff _ tagsFit_iff.symm

/-! ## Tallies of tagged addresses -/

section
variable {l : List Address}

/-- The addresses of a list that carry a tag are counted. -/
theorem contains_addresses_tallyAll_tagged (hl : l.Nodup) {a : Address} :
    (Counts.tallyAll ∅ (db.tagged l)).addresses.contains a = true ↔
      a ∈ l ∧ (db.tagsAt a).isEmpty = false := by
  have hnodup : ((db.tagged l).map (·.1)).Nodup := by simpa using hl
  rw [Table.contains_eq, Option.isSome_iff_exists]
  simp only [Counts.find?_addresses_tallyAll hnodup, mem_tagged_iff]
  constructor
  · rintro ⟨n, s, ⟨ha, rfl⟩, rfl, hne⟩
    refine ⟨ha, ?_⟩
    simpa [Table.isEmpty, Table.size] using hne
  · rintro ⟨ha, hne⟩
    refine ⟨_, _, ⟨ha, rfl⟩, rfl, ?_⟩
    simpa [Table.isEmpty, Table.size] using hne

/-- The count of a name is at most the number of addresses that are tallied. -/
theorem names_tallyAll_tagged_lt (hlength : l.length < UInt64.size) {k : String} {n : Nat}
    (h : (Counts.tallyAll ∅ (db.tagged l)).names.find? k = some n) : n < UInt64.size := by
  rw [Counts.find?_names_tallyAll, countP_tagged] at h
  rw [← h.1]
  exact Nat.lt_of_le_of_lt List.countP_le_length hlength

/-- The tally of different addresses fits. -/
theorem fits_tallyAll_tagged (hdb : db.TagsFit) (hl : l.Nodup) (hlength : l.length < UInt64.size) :
    (Counts.tallyAll ∅ (db.tagged l)).Fits where
  addresses a n h := by
    have hnodup : ((db.tagged l).map (·.1)).Nodup := by simpa using hl
    obtain ⟨s, hs, rfl, -⟩ := (Counts.find?_addresses_tallyAll hnodup).1 h
    obtain ⟨-, rfl⟩ := mem_tagged_iff.1 hs
    exact hdb a
  names _ _ h := names_tallyAll_tagged_lt hlength h

end

/-! ## Functions -/

/-- A function has fewer items than there are words. -/
theorem length_itemsOf_lt (f : Address) : (db.itemsOf f).length < UInt64.size := by
  refine Address.length_lt_size (nodup_itemsOf f) fun a ha => ?_
  obtain ⟨i, -, hi⟩ := functionContains_eq_true_iff.1 (mem_itemsOf_iff.1 ha).2
  exact FunctionInfo.exists_lt_of_contains hi

/-- The references held by the items of a function. -/
def contentsCounts (db : Snapshot) (f : Address) : Counts := .tallyAll ∅ (db.tagged (db.itemsOf f))

/-- Each head in the function counts its tags, if it has any. -/
theorem find?_addresses_contentsCounts {f a : Address} {n : Nat} :
    (db.contentsCounts f).addresses.find? a = some n ↔
      (db.heads.contains a = true ∧ db.functionContains f a = true) ∧
        (db.tagsAt a).size = n ∧ n ≠ 0 := by
  rw [contentsCounts, Counts.find?_addresses_tallyAll (by simpa using nodup_itemsOf f)]
  simp only [mem_tagged_iff, mem_itemsOf_iff]
  constructor
  · rintro ⟨s, ⟨ha, rfl⟩, hn⟩; exact ⟨ha, hn⟩
  · rintro ⟨ha, hn⟩; exact ⟨_, ⟨ha, rfl⟩, hn⟩

/-- The heads in the function that carry a tag are counted. -/
theorem contains_addresses_contentsCounts {f a : Address} :
    (db.contentsCounts f).addresses.contains a = true ↔
      (db.heads.contains a = true ∧ db.functionContains f a = true) ∧
        (db.tagsAt a).isEmpty = false := by
  rw [contentsCounts, contains_addresses_tallyAll_tagged (nodup_itemsOf f), mem_itemsOf_iff]

/-- Each name counts the heads in the function that carry it, if there are any. -/
theorem find?_names_contentsCounts {f : Address} {k : String} {n : Nat} :
    (db.contentsCounts f).names.find? k = some n ↔
      ((db.itemsOf f).countP fun a => (db.tagsAt a).contains k) = n ∧ n ≠ 0 := by
  rw [contentsCounts, Counts.find?_names_tallyAll, countP_tagged]

/-- The names of a function have counts that a word holds. -/
theorem names_contentsCounts_lt {f : Address} {k : String} {n : Nat}
    (h : (db.contentsCounts f).names.find? k = some n) : n < UInt64.size :=
  names_tallyAll_tagged_lt (length_itemsOf_lt f) h

/-- The counts of a function fit. -/
theorem fits_contentsCounts (hdb : db.TagsFit) (f : Address) : (db.contentsCounts f).Fits :=
  fits_tallyAll_tagged hdb (nodup_itemsOf f) (length_itemsOf_lt f)

/-- Every address that is counted with a function lies in some function. -/
theorem filter_contentsCounts (f : Address) :
    ((db.contentsCounts f).addresses.filter fun a _ => db.withinFunction a)
      = (db.contentsCounts f).addresses := by
  refine Table.ext_find? fun a => ?_
  rw [Table.find?_filter_key]
  split
  · rfl
  · next h =>
    refine (Option.eq_none_iff_forall_ne_some.2 fun n hn => h ?_).symm
    obtain ⟨⟨-, ha⟩, -⟩ := find?_addresses_contentsCounts.1 hn
    obtain ⟨i, hi, ha⟩ := functionContains_eq_true_iff.1 ha
    unfold withinFunction functionOf?
    rw [Option.isSome_map, List.find?_isSome]
    exact ⟨i, List.mem_of_find?_eq_some hi, ha⟩

/-! ## The globals index -/

/-- The tags of functions, at their entry points. -/
def functionTags (db : Snapshot) (fs : List Address) : List (Address × NameSet) :=
  fs.map fun f => (f, (db.functionTags? f).getD ∅)

/-- Functions with their tags are the functions again. -/
@[simp] theorem map_fst_functionTags (fs : List Address) :
    (db.functionTags fs).map (·.1) = fs := by
  simp [functionTags, Function.comp_def]

/-- The references of the globals index: the tags of functions, and those at the addresses outside
functions. -/
def globalsCounts (db : Snapshot) : Counts :=
  (Counts.tallyAll ∅ (db.functionTags db.entries)).merge
    (Counts.tallyAll ∅ (db.tagged (Session.globalHeads db)))

/-- The bounded heads are those from the lower bound up to the upper one. -/
theorem mem_boundedHeads_iff {a : Address} :
    a ∈ db.boundedHeads ↔ db.heads.contains a = true ∧ db.low ≤ a ∧ a < db.high := by
  unfold boundedHeads headsIn
  rw [List.mem_filter, KeySet.mem_toList_iff]
  simp only [Bool.and_eq_true, decide_eq_true_eq]

/-- The heads for the index are the bounded ones that no function contains. -/
theorem mem_globalHeads_iff {a : Address} :
    a ∈ Session.globalHeads db ↔
      (db.heads.contains a = true ∧ db.low ≤ a ∧ a < db.high) ∧
        ∀ f ∈ db.functions, f.contains a = false := by
  rw [Session.globalHeads, List.mem_filter, mem_boundedHeads_iff]
  refine and_congr_right fun _ => ?_
  rw [Bool.not_eq_true', withinFunction, functionOf?, Option.isSome_map, ← Bool.not_eq_true,
    List.find?_isSome]
  simp

/-- No head for the index is listed twice. -/
theorem nodup_globalHeads : (Session.globalHeads db).Nodup :=
  ((KeySet.nodup_toList _).filter _).filter _

/-- The counts of the index are positive. -/
theorem positive_globalsCounts : db.globalsCounts.Positive :=
  (Counts.Positive.empty.tallyAll _).merge (Counts.Positive.empty.tallyAll _)

namespace WellFormed

variable (hs : db.WellFormed)
include hs

/-- An entry point is in its function. -/
theorem notMem_globalHeads {e : Address} (h : e ∈ db.entries) : e ∉ Session.globalHeads db := by
  intro hmem
  obtain ⟨f, hf, rfl⟩ := mem_entries_iff.1 h
  have hout := (mem_globalHeads_iff.1 hmem).2 f hf
  rw [hs.entry_mem f hf] at hout
  cases hout

/-- The tags of a function are found by its entry point. -/
theorem functionTags?_entry {f : FunctionInfo} (hf : f ∈ db.functions) :
    db.functionTags? f.entry = some (f.tags.mapValues fun _ _ => ()) := by
  rw [functionTags?, hs.function?_entry hf]
  rfl

/-- Each function counts its tags, and each head outside functions counts its own. -/
theorem find?_addresses_globalsCounts {a : Address} {n : Nat} :
    db.globalsCounts.addresses.find? a = some n ↔
      ((∃ f ∈ db.functions, f.entry = a ∧ f.tags.size = n) ∨
        a ∈ Session.globalHeads db ∧ (db.tagsAt a).size = n) ∧ n ≠ 0 := by
  rw [positive_globalsCounts.addresses.find?_eq_some_iff]
  refine and_congr_left fun hn => ?_
  rw [globalsCounts, Counts.getD_addresses_merge]
  -- an entry point is counted for its function, and is never a head for the index
  by_cases ha : a ∈ db.entries
  · obtain ⟨f, hf, rfl⟩ := mem_entries_iff.1 ha
    have hout := hs.notMem_globalHeads ha
    have hmem : (f.entry, f.tags.mapValues fun _ _ => ()) ∈ db.functionTags db.entries := by
      refine List.mem_map.2 ⟨f.entry, ha, ?_⟩
      rw [hs.functionTags?_entry hf]
      rfl
    rw [Counts.getD_addresses_tallyAll_of_mem (by simpa using hs.nodup_entries) hmem,
      Counts.getD_addresses_tallyAll_of_notMem (by simpa using hout), Nat.add_zero,
      Table.size_mapValues]
    constructor
    · exact fun h => .inl ⟨f, hf, rfl, h⟩
    · rintro (⟨g, hg, he, h⟩ | ⟨h, -⟩)
      · rw [← hs.eq_of_entry_eq hg hf he, h]
      · exact absurd h hout
  · have hnone : ∀ f ∈ db.functions, f.entry ≠ a :=
      fun f hf he => ha (mem_entries_iff.2 ⟨f, hf, he⟩)
    rw [Counts.getD_addresses_tallyAll_of_notMem (by simpa using ha), Nat.zero_add]
    by_cases hb : a ∈ Session.globalHeads db
    · rw [Counts.getD_addresses_tallyAll_of_mem (by simpa using nodup_globalHeads)
        (mem_tagged_iff.2 ⟨hb, rfl⟩)]
      constructor
      · exact fun h => .inr ⟨hb, h⟩
      · rintro (⟨f, hf, he, -⟩ | ⟨-, h⟩)
        · exact absurd he (hnone f hf)
        · exact h
    · rw [Counts.getD_addresses_tallyAll_of_notMem (by simpa using hb)]
      constructor
      · exact fun h => absurd h.symm hn
      · rintro (⟨f, hf, he, -⟩ | ⟨h, -⟩)
        · exact absurd he (hnone f hf)
        · exact absurd h hb

/-- The functions with a tag, counted by their entry points. -/
theorem countP_functionTags (k : String) :
    ((db.functionTags db.entries).countP fun b => b.2.contains k)
      = db.functions.countP fun f => f.tags.contains k := by
  rw [functionTags, List.countP_map, entries_perm.countP_eq, List.countP_map]
  refine List.countP_congr fun f hf => ?_
  simp only [Function.comp_apply, hs.functionTags?_entry hf, Option.getD_some, Table.contains_eq,
    Table.find?_mapValues, Option.isSome_map]

/-- Each name counts the functions and the heads outside functions that carry it. -/
theorem find?_names_globalsCounts {k : String} {n : Nat} :
    db.globalsCounts.names.find? k = some n ↔
      (db.functions.countP fun f => f.tags.contains k)
          + ((Session.globalHeads db).countP fun a => (db.tagsAt a).contains k) = n ∧ n ≠ 0 := by
  have hzero : (∅ : Counts).names.getD k 0 = 0 := rfl
  rw [positive_globalsCounts.names.find?_eq_some_iff, globalsCounts, Counts.getD_names_merge,
    Counts.getD_names_tallyAll, Counts.getD_names_tallyAll, hzero, Nat.zero_add, Nat.zero_add,
    hs.countP_functionTags, countP_tagged]

/-- The names of the index have counts that a word holds. -/
theorem names_globalsCounts_lt {k : String} {n : Nat}
    (h : db.globalsCounts.names.find? k = some n) : n < UInt64.size := by
  obtain ⟨rfl, -⟩ := hs.find?_names_globalsCounts.1 h
  have hnodup : (db.entries ++ Session.globalHeads db).Nodup := by
    refine List.nodup_append.2 ⟨hs.nodup_entries, nodup_globalHeads, fun a ha b hb he => ?_⟩
    subst he
    exact hs.notMem_globalHeads ha hb
  -- the entry points and the heads outside functions are distinct, and all have a successor
  have hlength := Address.length_lt_size hnodup fun a ha => by
    rcases List.mem_append.1 ha with ha | ha
    · obtain ⟨f, hf, rfl⟩ := mem_entries_iff.1 ha
      exact FunctionInfo.exists_lt_of_contains (hs.entry_mem f hf)
    · exact ⟨db.high, (mem_globalHeads_iff.1 ha).1.2.2⟩
  have hentries : db.entries.length = db.functions.length := by
    rw [entries_perm.length_eq, List.length_map]
  rw [List.length_append, hentries] at hlength
  have hf := List.countP_le_length (p := fun f => f.tags.contains k) (l := db.functions)
  have hd := List.countP_le_length (p := fun a => (db.tagsAt a).contains k)
    (l := Session.globalHeads db)
  omega

end WellFormed

end Snapshot

end TagCache
