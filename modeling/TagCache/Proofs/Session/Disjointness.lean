import TagCache.Proofs.Session.Completeness

/-!
# Where tags are counted

After a full rebuild of an empty store the tables that can be read are those of the functions and
the one of the index. A function's table lists the heads in the function that carry a tag
(`Snapshot.WellFormed.lists_contents_iff`), and the index lists the entry points of functions with a
tag of their own and the heads outside functions that carry one
(`Snapshot.WellFormed.lists_globals_iff`). The functions do not overlap, so an address other than an
entry point is listed once or not at all, and it is the heads with a tag that are listed
(`tagged_heads_listed_once`).
-/

namespace TagCache

/-! ## Listed addresses -/

/-- The address is a key of the table that is stored for a partition. -/
def Store.Lists (s : Store) (p : Partition) (a : Address) : Prop :=
  ∃ c, s.Holds p c ∧ c.addresses.contains a = true

/-- The address is a head that carries a tag. -/
def Snapshot.TaggedHead (db : Snapshot) (a : Address) : Prop :=
  db.heads.contains a = true ∧ (db.tagsAt a).isEmpty = false

namespace Store

variable {s : Store} {p : Partition} {a : Address}

/-- A partition lists the addresses of the counts that it holds. -/
theorem lists_iff_of_holds {c : Counts} (h : s.Holds p c) :
    s.Lists p a ↔ c.addresses.contains a = true := by
  obtain ⟨e, hread, hcounts⟩ := h
  constructor
  · rintro ⟨c', ⟨e', hread', hcounts'⟩, ha⟩
    rw [hread] at hread'
    cases hread'
    rw [hcounts] at hcounts'
    cases hcounts'
    exact ha
  · intro ha
    exact ⟨c, ⟨e, hread, hcounts⟩, ha⟩

/-- A partition without an entry lists nothing. -/
theorem not_lists_of_absent (h : s.read p = .ok none) : ¬s.Lists p a := by
  rintro ⟨c, ⟨e, hread, -⟩, -⟩
  rw [h] at hread
  cases hread

/-- Counts in the rows of the index list the addresses that are counted. -/
theorem lists_globals_of_stored {c : Counts} (hnames : s.names = some c.names.stored)
    (haddresses : s.addresses = some c.addresses.stored) :
    s.Lists .globals a ↔ c.addresses.contains a = true := by
  let cut (n : Nat) : Nat := n % UInt64.size
  let c' : Counts := ⟨c.addresses.mapValues fun _ => cut, c.names.mapValues fun _ => cut⟩
  have hcut : c'.addresses.contains a = c.addresses.contains a := Table.contains_mapValues _ _ _
  have hread : s.read .globals
      = .ok (if c'.isEmpty then none else some (Entry.ofCounts .globals c')) :=
    readGlobals_of_wholeCounts hnames haddresses (wholeCounts_stored _) (wholeCounts_stored _)
  rw [← hcut]
  cases hempty : c'.isEmpty with
  | true =>
    rw [hempty] at hread
    have hnone : c'.addresses.entries = [] :=
      List.isEmpty_iff.1 (Bool.and_eq_true_iff.1 hempty).1
    have hout : c'.addresses.contains a = false := by
      rw [Table.contains_eq, Table.find?, hnone]
      rfl
    rw [hout]
    exact iff_of_false (not_lists_of_absent hread) Bool.false_ne_true
  | false =>
    rw [hempty] at hread
    exact lists_iff_of_holds ⟨_, hread, Entry.counts_ofCounts _ _⟩

end Store

/-! ## What a rebuilt store lists -/

namespace Snapshot.WellFormed

variable {db : Snapshot} (hwf : db.WellFormed) (hfit : db.TagsFit) {a : Address}
include hwf hfit

/-- A function's table lists the heads in the function that carry a tag. -/
theorem lists_contents_iff {k : Address} :
    (Store.fresh.rebuilt db).Lists (.contents k) a ↔
      ∃ f ∈ db.functions, f.entry = k ∧ f.contains a = true ∧ db.TaggedHead a := by
  by_cases hk : k ∈ db.entries
  · obtain ⟨f, hf, rfl⟩ := mem_entries_iff.1 hk
    have hread : (Store.fresh.rebuilt db).read (.contents f.entry)
        = .ok (some (db.document f.entry)) := Store.readContents_rebuilt hfit rfl hk
    rw [Store.lists_iff_of_holds ⟨_, hread, Entry.counts_ofCounts _ _⟩,
      contains_addresses_contentsCounts, hwf.functionContains_entry hf]
    constructor
    · rintro ⟨⟨hhead, ha⟩, htagged⟩
      exact ⟨f, hf, rfl, ha, hhead, htagged⟩
    · rintro ⟨g, hg, hgf, ha, hhead, htagged⟩
      rw [hwf.eq_of_entry_eq hg hf hgf] at ha
      exact ⟨⟨hhead, ha⟩, htagged⟩
  · -- an empty store has no document of a function that the snapshot does not know
    have hread : (Store.fresh.rebuilt db).read (.contents k) = .ok none := by
      have hnone : (db.putDocuments ∅ db.entries).find? k = none := by
        rw [find?_putDocuments, if_neg hk]
        rfl
      have hcontents :
          (Store.fresh.rebuilt db).contents = some (db.putDocuments ∅ db.entries) := rfl
      show (Store.fresh.rebuilt db).readContents k = _
      rw [Store.readContents_eq hcontents, hnone]
    refine iff_of_false (Store.not_lists_of_absent hread) ?_
    rintro ⟨f, hf, rfl, -⟩
    exact hk (mem_entries_iff.2 ⟨f, hf, rfl⟩)

omit hfit in
/-- The index lists the entry points of functions that have a tag, and the heads within the bounds
and outside functions that carry one. -/
theorem lists_globals_iff :
    (Store.fresh.rebuilt db).Lists .globals a ↔
      (∃ f ∈ db.functions, f.entry = a ∧ f.tags.isEmpty = false) ∨
        (db.low ≤ a ∧ a < db.high) ∧ (∀ f ∈ db.functions, f.contains a = false) ∧
          db.TaggedHead a := by
  have hstored {κ : Type} [Ord κ] [Std.TransOrd κ] [Std.LawfulEqOrd κ] (t : Table κ Nat) :
      StoreM.overlay t ∅ = t.stored := Table.overlay_empty_left _
  have hnonempty {κ ν : Type} [Ord κ] (t : Table κ ν) : t.size ≠ 0 ↔ t.isEmpty = false := by
    simp [Table.size, Table.isEmpty]
  rw [Store.lists_globals_of_stored (congrArg some (hstored _)) (congrArg some (hstored _)),
    Table.contains_eq, Option.isSome_iff_exists]
  simp only [hwf.find?_addresses_globalsCounts, mem_globalHeads_iff]
  constructor
  · rintro ⟨n, ⟨f, hf, hentry, rfl⟩ | ⟨⟨⟨hhead, hbounds⟩, hout⟩, rfl⟩, hn⟩
    · exact .inl ⟨f, hf, hentry, (hnonempty _).1 hn⟩
    · exact .inr ⟨hbounds, hout, hhead, (hnonempty _).1 hn⟩
  · rintro (⟨f, hf, hentry, htags⟩ | ⟨hbounds, hout, hhead, htags⟩)
    · exact ⟨_, .inl ⟨f, hf, hentry, rfl⟩, (hnonempty _).2 htags⟩
    · exact ⟨_, .inr ⟨⟨⟨hhead, hbounds⟩, hout⟩, rfl⟩, (hnonempty _).2 htags⟩

/-- An address of a function that is no entry point is listed with that function alone, if it is a
head that carries a tag. -/
theorem lists_iff_of_contains {f : FunctionInfo} (hf : f ∈ db.functions) (ha : f.contains a = true)
    (hentry : a ∉ db.entries) (p : Partition) :
    (Store.fresh.rebuilt db).Lists p a ↔ p = .contents f.entry ∧ db.TaggedHead a := by
  cases p with
  | contents k =>
    rw [hwf.lists_contents_iff hfit, Partition.contents.injEq]
    constructor
    · rintro ⟨g, hg, rfl, hga, htagged⟩
      rw [hwf.eq_of_contains hg hf hga ha]
      exact ⟨rfl, htagged⟩
    · rintro ⟨rfl, htagged⟩
      exact ⟨f, hf, rfl, ha, htagged⟩
  | globals =>
    rw [hwf.lists_globals_iff]
    refine iff_of_false ?_ fun h => nomatch h.1
    rintro (⟨g, hg, rfl, -⟩ | ⟨-, hout, -⟩)
    · exact hentry (mem_entries_iff.2 ⟨g, hg, rfl⟩)
    · rw [hout f hf] at ha
      cases ha

/-- An address outside functions is listed in the index alone, if it is a head within the bounds
that carries a tag. -/
theorem lists_iff_of_outside (hout : ∀ f ∈ db.functions, f.contains a = false) (p : Partition) :
    (Store.fresh.rebuilt db).Lists p a ↔
      p = .globals ∧ (db.low ≤ a ∧ a < db.high) ∧ db.TaggedHead a := by
  cases p with
  | contents k =>
    rw [hwf.lists_contents_iff hfit]
    refine iff_of_false ?_ fun h => nomatch h.1
    rintro ⟨f, hf, -, ha, -⟩
    rw [hout f hf] at ha
    cases ha
  | globals =>
    rw [hwf.lists_globals_iff]
    constructor
    · rintro (⟨f, hf, rfl, -⟩ | ⟨hbounds, -, htagged⟩)
      · have hmem := hwf.entry_mem f hf
        rw [hout f hf] at hmem
        cases hmem
      · exact ⟨rfl, hbounds, htagged⟩
    · rintro ⟨-, hbounds, htagged⟩
      exact .inr ⟨hbounds, hout, htagged⟩

end Snapshot.WellFormed

open Session

/-- A tagged address that is no head is listed nowhere: in `Snapshot.drifted` one in a function is
left out by a full rebuild. -/
theorem tagged_address_unlisted :
    ¬∀ (db : Snapshot) (after : Store) (events : Array Event), db.check = .ok () →
      outcome (everything db) (.start .fresh none) = (.ok (), ⟨after, none, events⟩) →
      ∀ a, db.low ≤ a → a < db.high → (db.tagsAt a).isEmpty = false → a ∉ db.entries →
        ∃ p, after.Lists p a := by
  intro h
  have hwf : Snapshot.drifted.WellFormed := Snapshot.check_eq_ok_iff.1 rfl
  have hfresh : Store.fresh.HasTables := ⟨rfl, rfl, rfl⟩
  have hf : ⟨16, [⟨16, 32⟩], ∅⟩ ∈ Snapshot.drifted.functions := List.mem_cons_self
  obtain ⟨events, hrun⟩ := (reaches_everything hwf hfresh).outcome_start
  obtain ⟨p, hp⟩ := h .drifted _ events rfl hrun 20 (by decide) (by decide) (by decide) (by decide)
  obtain ⟨-, hhead, -⟩ := (hwf.lists_iff_of_contains (by decide) hf rfl (by decide) p).1 hp
  cases hhead

/-- After a full rebuild of an empty store, an address other than an entry point is listed exactly
if it is a head that carries a tag, and then once: with the function that contains it, or in the
index if it is within the bounds and no function does. An entry point that carries a tag is listed
with its function. -/
theorem tagged_heads_listed_once {db : Snapshot} (hdb : db.check = .ok ()) (hfit : db.TagsFit) :
    ∃ after events, outcome (everything db) (.start .fresh none) = (.ok (), ⟨after, none, events⟩) ∧
      (∀ f ∈ db.functions, ∀ a, f.contains a = true → a ∉ db.entries →
        ∀ p, after.Lists p a ↔ p = .contents f.entry ∧ db.TaggedHead a) ∧
      (∀ a, (∀ f ∈ db.functions, f.contains a = false) →
        ∀ p, after.Lists p a ↔ p = .globals ∧ (db.low ≤ a ∧ a < db.high) ∧ db.TaggedHead a) ∧
      (∀ f ∈ db.functions,
        after.Lists (.contents f.entry) f.entry ↔ db.TaggedHead f.entry) := by
  have hwf := Snapshot.check_eq_ok_iff.1 hdb
  have hfresh : Store.fresh.HasTables := ⟨rfl, rfl, rfl⟩
  obtain ⟨events, hrun⟩ := (reaches_everything hwf hfresh).outcome_start
  refine ⟨_, events, hrun, fun f hf a ha hentry p => hwf.lists_iff_of_contains hfit hf ha hentry p,
    fun a hout p => hwf.lists_iff_of_outside hfit hout p, fun f hf => ?_⟩
  rw [hwf.lists_contents_iff hfit]
  constructor
  · rintro ⟨-, -, -, -, htagged⟩
    exact htagged
  · intro htagged
    exact ⟨f, hf, rfl, hwf.entry_mem f hf, htagged⟩

/-- After a rebuild of the sample each tagged head is listed once. -/
theorem tagged_heads_listed_once_small :
    Snapshot.small.check = .ok () ∧ Snapshot.small.TagsFit ∧ ∃ after events,
      outcome (everything .small) (.start .fresh none) = (.ok (), ⟨after, none, events⟩) ∧
      (∀ p, after.Lists p 20 ↔ p = .contents 16) ∧ ∀ p, after.Lists p 40 ↔ p = .globals := by
  obtain ⟨after, events, hrun, hinside, houtside, -⟩ :=
    @tagged_heads_listed_once .small rfl (by decide)
  refine ⟨rfl, by decide, after, events, hrun, fun p => ?_, fun p => ?_⟩
  · rw [hinside _ List.mem_cons_self 20 rfl (by decide)]
    exact and_iff_left ⟨rfl, rfl⟩
  · rw [houtside 40 (by decide)]
    exact and_iff_left ⟨by decide, rfl, rfl⟩

end TagCache
