import TagCache.Proofs.Session.Recovery
import TagCache.Proofs.Session.Verify

/-!
# What a rebuild leaves passes verification

On a store that holds the counts of the snapshot (`Built`), as a full rebuild leaves it, no
operation that builds changes anything (`Operation.Builds.reaches_rebuilt`). There the check of a
function's cache succeeds in silence at every address of the function
(`Session.runs_verifyContents_rebuilt`), and the check of the index fails only on documents of
functions that the snapshot does not know (`Session.verifyIndex_rebuilt_eq_true_iff`).
-/

namespace TagCache

/-- The operations that build the cache. -/
inductive Operation.Builds : Operation → Prop
  | everything : Builds .everything
  | all : Builds .all
  | contents (a : Address) : Builds (.contents a)
  | globals : Builds .globals

/-- The tables hold the counts of the snapshot. -/
structure Built (db : Snapshot) (c : Table Address String) (n : Table String StoredCount)
    (t : Table Address StoredCount) : Prop where
  contents : ∀ f ∈ db.entries, c.find? f = some (db.document f).text
  names : StoreM.overlay db.globalsCounts.names n = n
  addresses : StoreM.overlay db.globalsCounts.addresses t = t

/-- A rebuilt store has tables that hold the counts of the snapshot. -/
theorem Store.exists_built_rebuilt {s : Store} (hs : s.HasTables) (db : Snapshot) :
    ∃ (r : Store) (c : _) (n : _) (t : _), s.rebuilt db = r.withTables c n t ∧ Built db c n t := by
  obtain ⟨r, c, n, t, rfl⟩ := hs.exists_eq
  refine ⟨r, _, _, _, rfl, fun f hf => ?_, overlay_overlay _ _, overlay_overlay _ _⟩
  rw [Snapshot.find?_putDocuments, if_pos hf]

namespace Session

variable {db : Snapshot} {s : Store} {c : Table Address String} {n : Table String StoredCount}
  {t : Table Address StoredCount}

/-! ## Building once more -/

/-- Building an address again changes nothing. -/
theorem exists_reaches_contents_of_built (hdb : db.TagsFit) (h : Built db c n t) (a : Address) :
    ∃ counts, Reaches (contents db a) (s.withTables c n t) counts (s.withTables c n t) := by
  cases hf : db.functionOf? a with
  | none => exact ⟨∅, reaches_contents_outside hf⟩
  | some f =>
    have hdocument := h.contents f (Snapshot.mem_entries_of_functionOf? hf)
    exact ⟨_, reaches_contents_of_built hdb hf hdocument⟩

/-- Building functions again changes nothing. -/
theorem reaches_allContents_of_built (hdb : db.TagsFit) (h : Built db c n t)
    (total position : Nat) (fs : List Address) :
    Reaches (allContents db total position fs) (s.withTables c n t) () (s.withTables c n t) := by
  induction fs generalizing position with
  | nil => exact .pure
  | cons f fs ih =>
    obtain ⟨counts, hrun⟩ := exists_reaches_contents_of_built (s := s) hdb h f
    exact (Reaches.writeLine _).bind (hrun.discard.bind (ih _))

/-- Building the index again changes nothing. -/
theorem reaches_globals_of_built (h : Built db c n t) :
    Reaches (globals db) (s.withTables c n t) db.globalsCounts (s.withTables c n t) := by
  have hrun : Reaches (globals db) (s.withTables c n t) db.globalsCounts _ := reaches_globals
  rwa [h.names, h.addresses] at hrun

/-- Building everything again changes nothing. -/
theorem reaches_all_of_built (hdb : db.TagsFit) (h : Built db c n t) :
    Reaches (all db) (s.withTables c n t) () (s.withTables c n t) :=
  (reaches_allContents_of_built hdb h _ _ _).bind
    ((Reaches.writeLine _).bind (reaches_globals_of_built h).discard)

end Session

open Session

variable {db : Snapshot} {s : Store}

/-- Building over the rebuilt store changes nothing. -/
theorem Operation.Builds.reaches_rebuilt (hwf : db.WellFormed) (hdb : db.TagsFit)
    (hs : s.HasTables) {op : Operation} (h : op.Builds) :
    ∃ summary, Reaches (op.run db) (s.rebuilt db) summary (s.rebuilt db) := by
  cases h with
  | everything =>
    have hrun := reaches_everything hwf (hs.rebuilt db)
    rw [Store.rebuilt_rebuilt] at hrun
    exact ⟨_, hrun.bind .pure⟩
  | all =>
    obtain ⟨r, c, n, t, heq, hbuilt⟩ := Store.exists_built_rebuilt hs db
    rw [heq]
    exact ⟨_, (reaches_all_of_built hdb hbuilt).bind .pure⟩
  | contents a =>
    obtain ⟨r, c, n, t, heq, hbuilt⟩ := Store.exists_built_rebuilt hs db
    obtain ⟨counts, hrun⟩ := exists_reaches_contents_of_built (s := r) hdb hbuilt a
    rw [heq]
    exact ⟨_, hrun.bind .pure⟩
  | globals =>
    obtain ⟨r, c, n, t, heq, hbuilt⟩ := Store.exists_built_rebuilt hs db
    rw [heq]
    exact ⟨_, (reaches_globals_of_built hbuilt).bind .pure⟩

/-- A full rebuild as a call. -/
theorem Call.run_everything (hwf : db.WellFormed) (hs : s.HasTables) :
    Call.run db s none (.operate .everything) = s.rebuilt db := by
  have hrun : Reaches (Operation.run db .everything) s _ (s.rebuilt db) :=
    (reaches_everything hwf hs).bind .pure
  exact hrun.store

/-- After a full rebuild and any building operations the store is the rebuilt one. -/
theorem replay_everything (hwf : db.WellFormed) (hdb : db.TagsFit) (hs : s.HasTables)
    {ops : List Operation} (hops : ∀ op ∈ ops, op.Builds) :
    Call.replay db s ((.everything :: ops).map fun op => (.operate op, none)) = s.rebuilt db := by
  have hrest : Call.replay db (s.rebuilt db) (ops.map fun op => (.operate op, none))
      = s.rebuilt db := by
    induction ops with
    | nil => rfl
    | cons op ops ih =>
      obtain ⟨summary, hrun⟩ := (hops op List.mem_cons_self).reaches_rebuilt hwf hdb hs
      have hstep : Call.run db (s.rebuilt db) none (.operate op) = s.rebuilt db := hrun.store
      show Call.replay db (Call.run db (s.rebuilt db) none (.operate op)) _ = _
      rw [hstep]
      exact ih fun op h => hops op (List.mem_cons_of_mem _ h)
  show Call.replay db (Call.run db s none (.operate .everything)) _ = _
  rw [Call.run_everything hwf hs, hrest]

/-! ## Verifying the rebuilt store -/

/-- Without dropped tags an address has all of its tags. -/
theorem Recount.tagsWithout_empty (f a : Address) : tagsWithout db f ∅ a = db.tagsAt a := by
  refine Table.ext_contains fun k => ?_
  rw [Bool.eq_iff_iff, contains_tagsWithout]
  exact and_iff_left fun _ => rfl

/-- The tags at distinct addresses, counted as they are, need no tag left out. -/
theorem Recount.explains_tallyAll (f : Address) {l : List Address} (hl : l.Nodup) :
    Explains db f ∅ (.tallyAll ∅ (db.tagged l)) where
  implicit k hk := by cases hk
  uncached _ := rfl
  tagged a ha := ((Snapshot.contains_addresses_tallyAll_tagged hl).1 ha).2
  addresses a m hm := by
    have hnodup : ((db.tagged l).map (·.1)).Nodup := by simpa using hl
    obtain ⟨s, hs, rfl, -⟩ := (Counts.find?_addresses_tallyAll hnodup).1 hm
    rw [tagsWithout_empty, (Snapshot.mem_tagged_iff.1 hs).2]
  names k m := by
    have hperm : List.Perm
        ((Counts.tallyAll ∅ (db.tagged l)).addresses.keys.filter
          fun a => (db.tagsAt a).contains k)
        (l.filter fun a => (db.tagsAt a).contains k) := by
      refine (List.perm_ext_iff_of_nodup ((Table.nodup_keys _).filter _) (hl.filter _)).2
        fun a => ?_
      rw [List.mem_filter, List.mem_filter, Table.mem_keys_iff_contains,
        Snapshot.contains_addresses_tallyAll_tagged hl]
      refine and_congr_left fun hk => and_iff_left ?_
      obtain ⟨u, hu⟩ := Option.isSome_iff_exists.1 hk
      have hpos := List.length_pos_of_mem (Table.find?_eq_some_iff.1 hu)
      rw [Table.isEmpty, List.isEmpty_eq_false_iff]
      exact List.ne_nil_of_length_pos hpos
    simp only [tagsWithout_empty]
    rw [Counts.find?_names_tallyAll, Snapshot.countP_tagged, List.countP_eq_length_filter,
      List.countP_eq_length_filter, hperm.length_eq]

/-- The counts of a rebuild need no tag left out. -/
theorem Snapshot.explains_contentsCounts (f : Address) :
    Recount.Explains db f ∅ (db.contentsCounts f) :=
  Recount.explains_tallyAll f (nodup_itemsOf f)

namespace Session

variable (hwf : db.WellFormed) (hdb : db.TagsFit) (hs : s.HasTables)
include hwf hdb hs

/-- The check of a function's cache succeeds on the rebuilt store, and only visits addresses. -/
theorem runs_verifyContents_rebuilt {f : FunctionInfo} (hf : f ∈ db.functions) {a : Address}
    (ha : f.contains a = true) :
    Runs (verifyContents db a) (s.rebuilt db) true (s.rebuilt db)
      ((db.contentsCounts f.entry).addresses.keys.flatMap fun b => [.visited b]) := by
  have hentry : f.entry ∈ db.entries := Snapshot.mem_entries_iff.2 ⟨f, hf, rfl⟩
  have hstrays : checkStrays db f.entry (db.contentsCounts f.entry) = none := by
    rw [checkStrays_eq_none_iff]
    exact fun b hb => (Snapshot.contains_addresses_contentsCounts.1 hb).1.2
  have haccepts : (compareCounts f.entry (db.contentsCounts f.entry)
      (Recount.found db f.entry (db.contentsCounts f.entry))).accepts = true := by
    rw [compareCounts_accepts_iff, Recount.eq_found_iff]
    exact ⟨∅, Snapshot.explains_contentsCounts f.entry⟩
  have hrun := runs_verifyContents_of_recount (hwf.functionOf?_of_contains hf ha)
    (Store.readContents_rebuilt hdb hs.contents hentry)
    (checkFields_eq_none_iff.2 (Entry.keys_ofCounts _ _)) (Entry.counts_ofCounts _ _) hstrays
  rwa [haccepts, reportEvents, Finding.lines_eq_nil_of_accepts a haccepts, List.flatMap_nil,
    List.append_nil] at hrun

/-- A key of the rebuilt contents caches passes if it is an entry point. -/
theorem reaches_verifyKey_rebuilt (k : Address) :
    Reaches (verifyKey db k) (s.rebuilt db) (decide (k ∈ db.entries)) (s.rebuilt db) := by
  unfold verifyKey
  by_cases hk : k ∈ db.entries
  · rw [hwf.functionOf?_entry hk]
    have hkeys : (db.document k).keys = expectedFields := Entry.keys_ofCounts _ _
    have hfields : Reaches (verifyFields k (db.document k)) (s.rebuilt db) true (s.rebuilt db) := by
      unfold verifyFields
      rw [hkeys]
      exact .pure
    refine (Reaches.visit k).bind ?_
    simp only [ne_eq, not_true_eq_false, if_false, hk, decide_true]
    refine (Reaches.asks (Store.readContents_rebuilt hdb hs.contents hk)).bind ?_
    exact hfields
  · rw [decide_eq_false hk]
    cases howner : db.functionOf? k with
    | none => exact (Reaches.writeLine _).bind .pure
    | some owner =>
      have hne : owner ≠ k := by
        rintro rfl
        exact hk (Snapshot.mem_entries_of_functionOf? howner)
      refine (Reaches.visit owner).bind ?_
      simp only [ne_eq, hne, not_false_eq_true, if_true]
      exact (Reaches.writeLine _).bind .pure

/-- Checking keys of a rebuilt store accepts those of functions. -/
theorem reaches_verifyKeys_rebuilt (keys : List Address) :
    Reaches (verifyKeys db keys) (s.rebuilt db) (keys.all fun k => decide (k ∈ db.entries))
      (s.rebuilt db) := by
  induction keys with
  | nil => exact .pure
  | cons k keys ih => exact (reaches_verifyKey_rebuilt hwf hdb hs k).bind (ih.bind .pure)

/-- The check of the index succeeds on the rebuilt store if every document stored before belongs to
a function of the snapshot. -/
theorem verifyIndex_rebuilt_eq_true_iff :
    (outcome (verifyIndex db) (.start (s.rebuilt db) none)).1 = .ok true ↔
      ∀ k, (s.document? k).isSome → k ∈ db.entries := by
  obtain ⟨c, hc⟩ := Option.isSome_iff_exists.1 (hs.rebuilt db).contents
  have hkeys : (s.rebuilt db).contentsKeys = .ok c.keys := by
    rw [Store.contentsKeys, hc]
    rfl
  have hmem (k : Address) : k ∈ c.keys ↔ k ∈ db.entries ∨ (s.document? k).isSome := by
    have hdocument : (s.rebuilt db).document? k = c.find? k := by
      rw [Store.document?, hc]
      rfl
    rw [Table.mem_keys_iff_contains, Table.contains_eq, ← hdocument,
      Store.document?_rebuilt hs.contents]
    split <;> simp_all
  have hrun := (Reaches.asks hkeys).bind (reaches_verifyKeys_rebuilt hwf hdb hs c.keys)
  have hresult : (outcome (verifyIndex db) (.start (s.rebuilt db) none)).1
      = .ok (c.keys.all fun k => decide (k ∈ db.entries)) := hrun.result
  rw [hresult, Except.ok.injEq, List.all_eq_true]
  simp only [hmem, decide_eq_true_eq]
  constructor
  · exact fun h k hk => h k (.inr hk)
  · rintro h k (hk | hk)
    · exact hk
    · exact h k hk

end Session

/-- After a full rebuild and any further building, the check of a function's cache succeeds at every
address of the function without a line, and the check of the index succeeds exactly if every
document stored before belongs to a function of the snapshot. -/
theorem verification_accepts_rebuilt (hdb : db.check = .ok ()) (hfit : db.TagsFit)
    (hs : s.HasTables) (ops : List Operation) (hops : ∀ op ∈ ops, op.Builds) :
    let after := Call.replay db s ((.everything :: ops).map fun op => (.operate op, none))
    (∀ f ∈ db.functions, ∀ a, f.contains a = true → ∃ st,
      outcome (verifyContents db a) (.start after none) = (.ok true, st) ∧ st.lines = []) ∧
    ((outcome (verifyIndex db) (.start after none)).1 = .ok true ↔
      ∀ k, (s.document? k).isSome → k ∈ db.entries) := by
  have hwf := Snapshot.check_eq_ok_iff.1 hdb
  intro after
  have hafter : after = s.rebuilt db := replay_everything hwf hfit hs hops
  rw [hafter]
  refine ⟨fun f hf a ha => ?_, ?_⟩
  · have hrun := runs_verifyContents_rebuilt hwf hfit hs hf ha #[]
    refine ⟨_, hrun, List.filterMap_eq_nil_iff.2 fun e he => ?_⟩
    have hvisit : e ∈ (db.contentsCounts f.entry).addresses.keys.flatMap fun b => [.visited b] := by
      simpa using he
    obtain ⟨b, -, hb⟩ := List.mem_flatMap.1 hvisit
    rw [List.mem_singleton.1 hb]
    rfl
  · exact verifyIndex_rebuilt_eq_true_iff hwf hfit hs

/-- After the builds of the sample both checks accept it. -/
theorem verification_accepts_rebuilt_stale :
    let after := Call.replay .small .stale
      ([.everything, .contents 20, .globals].map fun op => (.operate op, none))
    (∀ f ∈ Snapshot.small.functions, ∀ a, f.contains a = true → ∃ st,
      outcome (verifyContents .small a) (.start after none) = (.ok true, st) ∧ st.lines = []) ∧
    ((outcome (verifyIndex .small) (.start after none)).1 = .ok true ↔
      ∀ k, (Store.stale.document? k).isSome → k ∈ Snapshot.small.entries) :=
  verification_accepts_rebuilt rfl (by decide) Store.hasTables_stale [.contents 20, .globals]
    (by rintro _ (_ | ⟨_, _ | ⟨_, ⟨⟩⟩⟩) <;> constructor)

end TagCache
