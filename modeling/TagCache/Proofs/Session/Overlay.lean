import TagCache.Proofs.Session.Everything
import TagCache.Proofs.Store.Partition

/-!
# Rebuilding lays counts over what is stored

A rebuild deletes nothing: in each partition that it rebuilds the fresh counts are laid over those
that are stored, so that a key outside the recount keeps its old count, and every other partition
stays as it is (`Overlaid`). It is enough that each document has its two fields and its addresses in
their written form (`Store.Tidy`), since then it is the entry of its counts, and stays one
(`Store.Tidy.exists_start`). Rebuilds of different partitions follow each other (`Overlaid.trans`),
which carries the result from one function to all of them (`Session.exists_reaches_allContents`).
-/

namespace TagCache

open Session

/-! ## What is laid over what -/

/-- Fresh counts laid over old ones, key by key. -/
structure Counts.Over (fresh old new : Counts) : Prop where
  addresses : ∀ a, new.addresses.find? a = (fresh.addresses.find? a).or (old.addresses.find? a)
  names : ∀ k, new.names.find? k = (fresh.names.find? k).or (old.names.find? k)

/-- Counts laid over others are over them. -/
theorem Counts.over_overlay (fresh old : Counts) :
    fresh.Over old ⟨old.addresses.overlay fresh.addresses, old.names.overlay fresh.names⟩ :=
  ⟨Table.find?_overlay _ _, Table.find?_overlay _ _⟩

namespace Snapshot

/-- The counts of the index are those of the tags of each function at its entry point, and of each
head within the bounds that lies in no function. -/
structure IndexOf (db : Snapshot) (c : Counts) : Prop where
  addresses : ∀ a m, c.addresses.find? a = some m ↔
    ((∃ f ∈ db.functions, f.entry = a ∧ f.tags.size = m) ∨
      ((db.heads.contains a = true ∧ db.low ≤ a ∧ a < db.high) ∧
        ∀ f ∈ db.functions, f.contains a = false) ∧ (db.tagsAt a).size = m) ∧ m ≠ 0
  names : ∀ k m, c.names.find? k = some m ↔
    (db.functions.countP fun f => f.tags.contains k)
      + ((globalHeads db).countP fun a => (db.tagsAt a).contains k) = m ∧ m ≠ 0

/-- The counts are what the snapshot has to count for a partition. -/
def Recount (db : Snapshot) : Partition → Counts → Prop
  | .contents e, c => ∃ f ∈ db.functions, f.entry = e ∧ db.CountsOf f c
  | .globals, c => db.IndexOf c

/-- What is counted for a function is its recount. -/
theorem WellFormed.recount_contents {db : Snapshot} (hdb : db.WellFormed) {f : FunctionInfo}
    (hf : f ∈ db.functions) : db.Recount (.contents f.entry) (db.contentsCounts f.entry) :=
  ⟨f, hf, rfl, hdb.countsOf_contentsCounts hf⟩

/-- What is counted for the index is its recount. -/
theorem WellFormed.recount_globals {db : Snapshot} (hdb : db.WellFormed) :
    db.Recount .globals db.globalsCounts where
  addresses a m := by rw [hdb.find?_addresses_globalsCounts, mem_globalHeads_iff]
  names _ _ := hdb.find?_names_globalsCounts

/-- The counts of the index are words if no function or head has more tags than a word counts. -/
theorem WellFormed.fits_globalsCounts {db : Snapshot} (hdb : db.WellFormed) (htags : db.TagsFit)
    (hfunctions : ∀ f ∈ db.functions, f.tags.size < UInt64.size) : db.globalsCounts.Fits where
  addresses a m h := by
    obtain ⟨⟨f, hf, -, rfl⟩ | ⟨-, rfl⟩, -⟩ := hdb.find?_addresses_globalsCounts.1 h
    · exact hfunctions f hf
    · exact htags a
  names _ _ h := hdb.names_globalsCounts_lt h

end Snapshot

/-! ## Tidy stores -/

/-- Every document has the two expected fields, keys that are written addresses, and counts, and
every count of the index is an integer. -/
structure Store.Tidy (s : Store) : Prop extends s.HasTables where
  document : ∀ f text, s.document? f = some text → ∃ e c,
    Entry.parse (.contents f) text = .ok e ∧ e.keys = expectedFields ∧ e.Written ∧ e.counts = .ok c
  nameCounts : ∀ k, s.nameCount? k ≠ some .real
  addressCounts : ∀ a, s.addressCount? a ≠ some .real

/-- What a rebuild of some partitions leaves of a store. -/
structure Overlaid (db : Snapshot) (before after : Store) (rebuilt : Partition → Prop) : Prop where
  version : after.version = before.version
  runs : after.runs = before.runs
  tidy : after.Tidy
  laid : ∀ p, rebuilt p → ∃ fresh old new, db.Recount p fresh ∧ before.Reads p old ∧
    after.Reads p new ∧ fresh.Over old new
  same : ∀ p, ¬rebuilt p → before.SameAt after p

namespace Store

variable {s : Store} {f : Address} {c : Counts}

/-- The index of a tidy store can be read. -/
theorem Tidy.exists_stored (h : s.Tidy) : ∃ c : Counts, s.Reads .globals c :=
  exists_reads_globals h.toHasTables h.nameCounts h.addressCounts

/-- An update of a function starts from the entry of its counts. -/
theorem Tidy.exists_start (h : s.Tidy) (f : Address) :
    ∃ c : Counts, c.Fits ∧ s.start f = .ok (.ofCounts (.contents f) c) := by
  obtain ⟨contents, hcontents⟩ := Option.isSome_iff_exists.1 h.contents
  have hstart : s.start f = startEntry contents f := by
    unfold start
    rw [hcontents]
    rfl
  cases hf : contents.find? f with
  | none =>
    refine ⟨∅, Counts.Fits.empty, ?_⟩
    rw [hstart, startEntry, hf, Entry.ofCounts_empty]
  | some text =>
    have hdocument : s.document? f = some text := by
      unfold document?
      rw [hcontents]
      exact hf
    obtain ⟨e, c, hparse, hkeys, hwritten, hcounts⟩ := h.document f text hdocument
    have hwritable := Entry.writable_of_parse hparse
    have htables := hwritable.tabulates hwritten hcounts
    have hstart : s.start f = .ok e := by
      rw [hstart, startEntry, hf]
      exact hparse
    have hpartition := partition_start hstart
    refine ⟨c, htables.fits hwritable, ?_⟩
    rw [hstart, ← hpartition, ← htables.eq_ofCounts hkeys]

/-- The entry of counts may be put in place of a document. -/
theorem Tidy.put (h : s.Tidy) (f : Address) (hc : c.Fits) :
    (s.put f (.ofCounts (.contents f) c)).Tidy where
  contents := by simpa [Store.put] using h.contents
  names := h.names
  addresses := h.addresses
  document g text hg := by
    rw [document?_put s h.contents] at hg
    split at hg
    · next hgf =>
      cases hg
      subst hgf
      refine ⟨_, c, Entry.parse_ofCounts _ hc, Entry.keys_ofCounts _ _, ?_,
        Entry.counts_ofCounts _ _⟩
      exact (Entry.tabulates_ofCounts _ c).written
    · exact h.document g text hg
  nameCounts := h.nameCounts
  addressCounts := h.addressCounts

end Store

/-! ## Rebuilds that follow each other -/

namespace Overlaid

variable {db : Snapshot} {s s' s'' : Store} {rebuilt rebuilt' : Partition → Prop}

/-- A store is what a rebuild of no partition leaves of it. -/
theorem refl (db : Snapshot) (hs : s.Tidy) : Overlaid db s s fun _ => False :=
  ⟨rfl, rfl, hs, fun _ h => h.elim, fun p _ => .refl s p⟩

/-- Rebuilds of different partitions in a row rebuild those of both. -/
theorem trans (h : Overlaid db s s' rebuilt) (h' : Overlaid db s' s'' rebuilt')
    (hdisjoint : ∀ p, rebuilt p → ¬rebuilt' p) :
    Overlaid db s s'' fun p => rebuilt p ∨ rebuilt' p where
  version := h'.version.trans h.version
  runs := h'.runs.trans h.runs
  tidy := h'.tidy
  laid p hp := by
    rcases hp with hp | hp
    · obtain ⟨fresh, old, new, hfresh, hold, hnew, hover⟩ := h.laid p hp
      exact ⟨fresh, old, new, hfresh, hold, (h'.same p (hdisjoint p hp)).reads_iff.2 hnew, hover⟩
    · obtain ⟨fresh, old, new, hfresh, hold, hnew, hover⟩ := h'.laid p hp
      have hsame := h.same p fun hp' => hdisjoint p hp' hp
      exact ⟨fresh, old, new, hfresh, hsame.reads_iff.1 hold, hnew, hover⟩
  same p hp := (h.same p fun hp' => hp (.inl hp')).trans (h'.same p fun hp' => hp (.inr hp'))

/-- The rebuilt partitions may be named in another way. -/
theorem congr (h : Overlaid db s s' rebuilt) (heq : ∀ p, rebuilt p ↔ rebuilt' p) :
    Overlaid db s s' rebuilt' := by
  obtain rfl : rebuilt = rebuilt' := funext fun p => propext (heq p)
  exact h

end Overlaid

namespace Session

variable {db : Snapshot} {s : Store}

/-- Building a function lays its counts over those of its document. -/
theorem exists_overlaid_contents (hdb : db.WellFormed) (htags : db.TagsFit) (hs : s.Tidy)
    {f : FunctionInfo} (hf : f ∈ db.functions) {a : Address} (ha : f.contains a = true) :
    ∃ after, Reaches (contents db a) s (db.contentsCounts f.entry) after ∧
      Overlaid db s after (· = .contents f.entry) := by
  obtain ⟨old, hold, hstart⟩ := hs.exists_start f.entry
  have hfresh := Snapshot.fits_contentsCounts htags f.entry
  let new : Counts := ⟨old.addresses.overlay (db.contentsCounts f.entry).addresses,
    old.names.overlay (db.contentsCounts f.entry).names⟩
  have hnew : new.Fits :=
    ⟨Table.Words.overlay hold.addresses hfresh.addresses,
      Table.Words.overlay hold.names hfresh.names⟩
  have hlaid : (Entry.ofCounts (.contents f.entry) old).laid (db.contentsCounts f.entry)
      = .ofCounts (.contents f.entry) new := by
    rw [Entry.laid, Entry.setNames_ofCounts, Entry.setAddresses_ofCounts]
  have hrun := reaches_contents_of_start ((hdb.functionOf?_eq_entry_iff hf).2 ha) hstart
    (Entry.plain_ofCounts _ hold)
  rw [hlaid] at hrun
  have hafter := Store.start_put_self hstart (Entry.plain_ofCounts (.contents f.entry) hnew) rfl
  refine ⟨_, hrun, rfl, rfl, hs.put f.entry hnew, ?_, fun p hp => s.sameAt_put hp _⟩
  rintro p rfl
  exact ⟨_, old, new, hdb.recount_contents hf,
    Store.reads_contents_iff.2 ⟨_, hstart, Entry.counts_ofCounts _ _⟩,
    Store.reads_contents_iff.2 ⟨_, hafter, Entry.counts_ofCounts _ _⟩, Counts.over_overlay _ _⟩

/-- Building the index lays its counts over the rows. -/
theorem exists_overlaid_globals (hdb : db.WellFormed) (hfresh : db.globalsCounts.Fits)
    (hs : s.Tidy) :
    ∃ after, Reaches (globals db) s db.globalsCounts after ∧
      Overlaid db s after (· = .globals) := by
  obtain ⟨old, hold⟩ := hs.exists_stored
  obtain ⟨hnames, haddresses, holdFits⟩ := Store.reads_globals_iff.1 hold
  obtain ⟨contents, hcontents⟩ := Option.isSome_iff_exists.1 hs.contents
  have hs' : s = s.withTables contents old.names.stored old.addresses.stored := by
    cases s
    simp_all [Store.withTables]
  let new : Counts := ⟨old.addresses.overlay db.globalsCounts.addresses,
    old.names.overlay db.globalsCounts.names⟩
  have hnew : new.Fits := ⟨Table.Words.overlay holdFits.addresses hfresh.addresses,
    Table.Words.overlay holdFits.names hfresh.names⟩
  have hrun : Reaches (globals db)
      (s.withTables contents old.names.stored old.addresses.stored) db.globalsCounts _ :=
    reaches_globals
  rw [← hs', overlay_stored, overlay_stored] at hrun
  refine ⟨_, hrun, rfl, rfl, ⟨⟨rfl, rfl, rfl⟩, fun f text hf => ?_, Store.find?_stored_ne_real _,
    Store.find?_stored_ne_real _⟩, ?_, ?_⟩
  · refine hs.document f text ?_
    rw [← hf, hs']
    rfl
  · rintro p rfl
    exact ⟨_, old, new, hdb.recount_globals, hold,
      Store.reads_globals_iff.2 ⟨rfl, rfl, hnew⟩, Counts.over_overlay _ _⟩
  · intro p hp
    cases p with
    | contents f =>
      show (some contents).map _ = s.contents.map _
      rw [hcontents]
    | globals => exact absurd rfl hp

/-- Building functions lays the counts of each over those of its document. -/
theorem exists_overlaid_allContents (hdb : db.WellFormed) (htags : db.TagsFit) (hs : s.Tidy)
    (total position : Nat) {fs : List Address} (hfs : ∀ f ∈ fs, f ∈ db.entries)
    (hnodup : fs.Nodup) :
    ∃ after, Reaches (allContents db total position fs) s () after ∧
      Overlaid db s after fun p => ∃ f ∈ fs, p = .contents f := by
  induction fs generalizing position s with
  | nil =>
    refine ⟨s, .pure, (Overlaid.refl db hs).congr fun p => ?_⟩
    simp
  | cons e fs ih =>
    obtain ⟨he, hrestNodup⟩ := List.nodup_cons.1 hnodup
    obtain ⟨f, hf, rfl⟩ := Snapshot.mem_entries_iff.1 (hfs e List.mem_cons_self)
    obtain ⟨middle, hrun, hfirst⟩ := exists_overlaid_contents hdb htags hs hf (hdb.entry_mem f hf)
    obtain ⟨after, hrest, hmore⟩ :=
      ih hfirst.tidy (position + 1) (fun g hg => hfs g (List.mem_cons_of_mem _ hg)) hrestNodup
    refine ⟨after, (Reaches.writeLine _).bind (hrun.discard.bind hrest),
      (hfirst.trans hmore ?_).congr fun p => ?_⟩
    · rintro p rfl ⟨g, hg, hp⟩
      cases hp
      exact he hg
    · simp

/-- Building everything does both, in partitions apart. -/
theorem exists_overlaid_all (hdb : db.WellFormed) (htags : db.TagsFit)
    (hfresh : db.globalsCounts.Fits) (hs : s.Tidy) :
    ∃ after, Reaches (all db) s () after ∧
      Overlaid db s after fun p => p = .globals ∨ ∃ f ∈ db.functions, p = .contents f.entry := by
  obtain ⟨middle, hcontents, hfirst⟩ := exists_overlaid_allContents hdb htags hs db.entries.length 1
    (fun f hf => hf) hdb.nodup_entries
  obtain ⟨after, hglobals, hlast⟩ := exists_overlaid_globals hdb hfresh hfirst.tidy
  refine ⟨after, hcontents.bind ((Reaches.writeLine _).bind hglobals.discard),
    (hfirst.trans hlast ?_).congr fun p => ?_⟩
  · rintro p ⟨f, -, rfl⟩ hp
    cases hp
  · rw [or_comm]
    refine or_congr_right ⟨?_, ?_⟩
    · rintro ⟨e, he, rfl⟩
      obtain ⟨f, hf, rfl⟩ := Snapshot.mem_entries_iff.1 he
      exact ⟨f, hf, rfl⟩
    · rintro ⟨f, hf, rfl⟩
      exact ⟨_, Snapshot.mem_entries_iff.2 ⟨f, hf, rfl⟩, rfl⟩

end Session

/-- On a tidy store, building a function, the index or everything succeeds. In each partition that
is rebuilt the recounted keys have their recounted values and all others keep what they had, and the
other partitions stay as they are. What is returned for one partition is its whole recount. -/
theorem rebuild_overlays {db : Snapshot} {s : Store} (hdb : db.check = .ok ())
    (htags : db.TagsFit) (hfunctions : ∀ f ∈ db.functions, f.tags.size < UInt64.size)
    (hs : s.Tidy) :
    (∀ f ∈ db.functions, ∀ a, f.contains a = true → ∃ after events counts,
      outcome (contents db a) (.start s none) = (.ok counts, ⟨after, none, events⟩) ∧
      db.Recount (.contents f.entry) counts ∧ Overlaid db s after (· = .contents f.entry)) ∧
    (∃ after events counts,
      outcome (globals db) (.start s none) = (.ok counts, ⟨after, none, events⟩) ∧
      db.Recount .globals counts ∧ Overlaid db s after (· = .globals)) ∧
    ∃ after events, outcome (all db) (.start s none) = (.ok (), ⟨after, none, events⟩) ∧
      Overlaid db s after fun p => p = .globals ∨ ∃ f ∈ db.functions, p = .contents f.entry := by
  have hwf := Snapshot.check_eq_ok_iff.1 hdb
  have hfresh := hwf.fits_globalsCounts htags hfunctions
  refine ⟨fun f hf a ha => ?_, ?_, ?_⟩
  · obtain ⟨after, hrun, hover⟩ := exists_overlaid_contents hwf htags hs hf ha
    obtain ⟨events, hrun⟩ := hrun.outcome_start
    exact ⟨after, events, _, hrun, hwf.recount_contents hf, hover⟩
  · obtain ⟨after, hrun, hover⟩ := exists_overlaid_globals hwf hfresh hs
    obtain ⟨events, hrun⟩ := hrun.outcome_start
    exact ⟨after, events, _, hrun, hwf.recount_globals, hover⟩
  · obtain ⟨after, hrun, hover⟩ := exists_overlaid_all hwf htags hfresh hs
    obtain ⟨events, hrun⟩ := hrun.outcome_start
    exact ⟨after, events, hrun, hover⟩

/-- A store with counts that the small snapshot does not have: of other names and addresses, and of
one of its own that has changed. -/
def Store.outdated : Store :=
  (Store.fresh.withTables ∅ (Table.ofList [("stale", 3)]).stored ∅).put 16
    (.ofCounts (.contents 16) ⟨.ofList [(18, 2), (20, 7)], .ofList [("old", 9)]⟩)

/-- The sample store is tidy. -/
theorem Store.tidy_outdated : Store.outdated.Tidy := by
  have hrows : (Store.fresh.withTables ∅ (Table.ofList [("stale", 3)]).stored ∅).Tidy :=
    { contents := rfl
      names := rfl
      addresses := rfl
      document := fun _ _ h => by cases h
      nameCounts := find?_stored_ne_real _
      addressCounts := fun _ h => by cases h }
  exact hrows.put 16 ⟨Table.words_iff.2 (by decide), Table.words_iff.2 (by decide)⟩

/-- Each rebuild of the sample lays fresh counts over its outdated ones. -/
theorem rebuild_overlays_outdated :
    Snapshot.small.check = .ok () ∧ Snapshot.small.TagsFit ∧
    (∀ f ∈ Snapshot.small.functions, f.tags.size < UInt64.size) ∧ Store.outdated.Tidy ∧
    (∀ f ∈ Snapshot.small.functions, ∀ a, f.contains a = true → ∃ after events counts,
      outcome (contents .small a) (.start .outdated none) = (.ok counts, ⟨after, none, events⟩) ∧
      Snapshot.small.Recount (.contents f.entry) counts ∧
      Overlaid .small .outdated after (· = .contents f.entry)) ∧
    (∃ after events counts,
      outcome (globals .small) (.start .outdated none) = (.ok counts, ⟨after, none, events⟩) ∧
      Snapshot.small.Recount .globals counts ∧ Overlaid .small .outdated after (· = .globals)) ∧
    ∃ after events, outcome (all .small) (.start .outdated none) = (.ok (), ⟨after, none, events⟩) ∧
      Overlaid .small .outdated after
        fun p => p = .globals ∨ ∃ f ∈ Snapshot.small.functions, p = .contents f.entry :=
  have htags : Snapshot.small.TagsFit := by decide
  have hfunctions : ∀ f ∈ Snapshot.small.functions, f.tags.size < UInt64.size := by decide
  ⟨rfl, htags, hfunctions, Store.tidy_outdated,
    rebuild_overlays rfl htags hfunctions Store.tidy_outdated⟩

end TagCache
