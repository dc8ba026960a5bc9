import TagCache.Proofs.Session.Trace
import TagCache.Proofs.Session.Verify

/-!
# The correction does nothing to caches that were built

The check of a function's cache may leave an implicit tag out at the entry point, if more cached
addresses carry it than the cache has references for. That is for caches which lack the references
that went to the globals index. What the operations themselves store under one snapshot, whatever
they do and however their output fails, never lacks one: the entry point is only counted by a build
of the function, which stores the counts of all heads in it first, and nothing takes a reference
away (`Counts.Covers`). So the recount leaves no tag out (`correction_inert`).
-/

namespace TagCache

variable {db : Snapshot} {f : Address} {c : Counts}

/-! ## Cached counts of a function -/

/-- Only heads in a function are counted, and if its entry point is one of them, then each name as
often as those heads carry it. -/
structure Counts.Covers (db : Snapshot) (f : Address) (c : Counts) : Prop where
  heads : ∀ a, c.addresses.contains a = true → a ∈ db.itemsOf f
  names : c.addresses.contains f = true →
    ∀ k, ((db.itemsOf f).countP fun a => (db.tagsAt a).contains k) ≤ c.names.getD k 0

namespace Counts.Covers

/-- No counts cover a function. -/
theorem empty : Covers db f ∅ where
  heads a h := by cases h
  names h := by cases h

/-- The names of a build count every head that carries them. -/
theorem le_getD_overlay (t : NameTable) (k : String) :
    ((db.itemsOf f).countP fun a => (db.tagsAt a).contains k)
      ≤ (t.overlay (db.contentsCounts f).names).getD k 0 := by
  rw [Table.getD, Table.find?_overlay]
  by_cases hzero : ((db.itemsOf f).countP fun a => (db.tagsAt a).contains k) = 0
  · rw [hzero]
    exact Nat.zero_le _
  · rw [Snapshot.find?_names_contentsCounts.2 ⟨rfl, hzero⟩]
    exact Nat.le_refl _

/-- Counts that cover a function do so with its names laid over them. -/
theorem overlay_names (h : Covers db f c) :
    Covers db f ⟨c.addresses, c.names.overlay (db.contentsCounts f).names⟩ where
  heads := h.heads
  names _ k := le_getD_overlay c.names k

/-- With the names of a build stored, its addresses may be. -/
theorem overlay (h : Covers db f c) :
    Covers db f ⟨c.addresses.overlay (db.contentsCounts f).addresses,
      c.names.overlay (db.contentsCounts f).names⟩ where
  heads a ha := by
    rw [Table.contains_eq, Table.find?_overlay, Option.isSome_or, Bool.or_eq_true,
      ← Table.contains_eq, ← Table.contains_eq] at ha
    rcases ha with ha | ha
    · exact Snapshot.mem_itemsOf_iff.2 (Snapshot.contains_addresses_contentsCounts.1 ha).1
    · exact h.heads a ha
  names _ k := le_getD_overlay c.names k

/-- A reference at another head in the function may be added. -/
theorem record (h : Covers db f c) {a : Address} (ha : a ∈ db.itemsOf f) (hne : a ≠ f)
    (name : String) : Covers db f (c.record a name) := by
  have hcontains (b : Address) : (c.record a name).addresses.contains b = true ↔
      b = a ∨ c.addresses.contains b = true := by
    show ((c.addresses.insert a _).find? b).isSome = true ↔ _
    by_cases hb : b = a
    · subst hb
      simp
    · rw [Table.find?_insert_of_ne _ _ hb, ← Table.contains_eq]
      simp [hb]
  refine ⟨fun b hb => ?_, fun hf k => ?_⟩
  · rcases (hcontains b).1 hb with rfl | hb
    · exact ha
    · exact h.heads b hb
  · have hf := ((hcontains f).1 hf).resolve_left (Ne.symm hne)
    have hraise : (c.record a name).names.getD k 0 = c.names.getD k 0 + if k = name then 1 else 0 :=
      Table.getD_raise c.names name k 1
    have hle := h.names hf k
    omega

/-- Then no more cached addresses carry a name than there are references to it. -/
theorem carriers_le (h : Covers db f c) (hf : c.addresses.contains f = true) (k : String) :
    Recount.carriers db c k ≤ c.names.getD k 0 := by
  have hnodup : (c.addresses.keys.filter fun a => (db.tagsAt a).contains k).Nodup :=
    c.addresses.nodup_keys.filter _
  have hsub : (c.addresses.keys.filter fun a => (db.tagsAt a).contains k)
      ⊆ (db.itemsOf f).filter fun a => (db.tagsAt a).contains k :=
    List.filter_subset _ fun a ha => h.heads a (Table.mem_keys_iff_contains.1 ha)
  calc Recount.carriers db c k
      ≤ ((db.itemsOf f).filter fun a => (db.tagsAt a).contains k).length :=
        hnodup.length_le_of_subset hsub
    _ = (db.itemsOf f).countP fun a => (db.tagsAt a).contains k :=
        List.countP_eq_length_filter.symm
    _ ≤ c.names.getD k 0 := h.names hf k

end Counts.Covers

/-- If no name lacks a reference, nothing is left out at the entry point. -/
theorem Recount.corrected_eq_tagged
    (h : c.addresses.contains f = true →
      ∀ k ∈ implicitTags, carriers db c k ≤ c.names.getD k 0) :
    corrected db f c = tagged db c := by
  have hkeep (k : String) : leavesOut db f c k = false := by
    unfold leavesOut
    simp only [Bool.and_eq_false_iff, decide_eq_false_iff_not, Nat.not_lt]
    by_cases hk : k ∈ implicitTags
    · cases hf : c.addresses.contains f with
      | false => exact .inl (.inl (.inr rfl))
      | true => exact .inr (h hf k hk)
    · exact .inl (.inl (.inl (by simpa using hk)))
  have hfilter (s : NameSet) : (s.filter fun k _ => !leavesOut db f c k) = s := by
    refine Table.ext_find? fun k => ?_
    rw [Table.find?_filter_key, hkeep]
    rfl
  refine Table.ext_find? fun a => ?_
  unfold corrected
  rw [Table.find?_mapValues]
  simp only [hfilter, ite_self, Option.map_id']

/-! ## Every list of changes -/

namespace Ledger

variable {l : Ledger}

/-- Every function's counts are so. -/
def Covers (db : Snapshot) (l : Ledger) : Prop := ∀ f, (l.counts (.contents f)).Covers db f

/-- A ledger covers the functions if one of them is given counts that do. -/
theorem Covers.update (h : l.Covers db) (hc : c.Covers db f) :
    (l.update (.contents f) c).Covers db := by
  intro g
  by_cases hg : g = f
  · subst hg
    rw [counts_update_self]
    exact hc
  · rw [counts_update_of_ne l (fun he => hg (Partition.contents.inj he))]
    exact h g

/-- Removing a key keeps a ledger covering the functions. -/
theorem Covers.remove (h : l.Covers db) (k : CacheKey) : (l.remove k).2.Covers db := by
  unfold Ledger.remove
  split
  · intro g
    cases k with
    | contents f =>
      by_cases hg : g = f
      · subst hg
        have hcounts : (l.erase (.contents g)).counts (.contents g) = ∅ := by
          simp [erase, counts, Table.getD]
        rw [hcounts]
        exact .empty
      · have hcounts : (l.erase (.contents f)).counts (.contents g) = l.counts (.contents g) := by
          simp [erase, counts, Table.getD, Table.find?_erase_of_ne, hg]
        rw [hcounts]
        exact h g
    | global k => cases k <;> exact h g
  · exact h

/-- What the blocks of changes keep. -/
theorem blocks_covers (hwf : db.WellFormed) :
    db.Blocks fun ms => ∀ l : Ledger, l.Covers db → (l.changed ms).Covers db where
  nil l h := h
  append hl hm l h := by
    rw [changed_append]
    exact hm _ (hl l h)
  names f _ l h := h.update (h f).overlay_names
  counts f _ l h := by
    rw [changed_build]
    exact h.update (h f).overlay
  increment f a name howner hne ha l h := by
    obtain ⟨i, hi, rfl, hcontains⟩ := hwf.functionOf?_eq_some_iff.1 howner
    have hitem : a ∈ db.itemsOf i.entry := by
      refine Snapshot.mem_itemsOf_iff.2 ⟨(Snapshot.mem_boundedHeads_iff.1 ha).1, ?_⟩
      exact Snapshot.functionContains_eq_true_iff.2 ⟨i, hwf.function?_entry hi, hcontains⟩
    exact h.update ((h i.entry).record hitem hne name)
  removeContents f l h := h.remove (.contents f)
  globals m hm l h := by
    cases m with
    | setNames p t | setAddresses p t | increment p t =>
      cases p with
      | contents f => cases hm
      | globals => exact h
    | removeContents f => cases hm
    | removeGlobal k => exact h.remove (.global k)

end Ledger

/-- Whatever calls under one snapshot have led to, the check of a function's cache leaves no tag out
at the entry point: the stored counts can be read, and if the entry point is one of the cached
addresses, no more of them carry an implicit tag than the cache has references for. -/
theorem correction_inert (hdb : db.check = .ok ()) {history : List (Call × Option Nat)}
    (hadmits : (∅ : Ledger).AdmitsAll ((Call.trace db .fresh history).map .change))
    (hstored : ((Call.replay db .fresh history).document? f).isSome) :
    ∃ cached, (Call.replay db .fresh history).Holds (.contents f) cached ∧
      (cached.addresses.contains f = true →
        ∀ k ∈ implicitTags, Recount.carriers db cached k ≤ cached.names.getD k 0) ∧
      Recount.corrected db f cached = Recount.tagged db cached := by
  have hfresh : Store.fresh = (∅ : Ledger).store := rfl
  have hwf := Snapshot.check_eq_ok_iff.1 hdb
  obtain ⟨hcovers, -⟩ := (Ledger.blocks_covers hwf).trace .fresh history
  rw [hfresh] at hadmits hstored hcovers ⊢
  obtain ⟨hfits, hreplay⟩ := Call.replay_store Ledger.Fits.empty hadmits
  have hall := hcovers ∅ fun g => .empty
  rw [hreplay] at hstored ⊢
  generalize (∅ : Ledger).changed (Call.trace db (∅ : Ledger).store history) = l at *
  have hdocument : (l.functions.find? f).isSome := by
    have hfind : l.store.document? f = l.documents.find? f := rfl
    rw [hfind, Ledger.documents, Table.find?_mapValues, Option.isSome_map] at hstored
    exact hstored
  obtain ⟨cached, hcached⟩ := Option.isSome_iff_exists.1 hdocument
  have hcounts : l.counts (.contents f) = cached := Ledger.counts_eq_of_counts? hcached
  have hle (hf : cached.addresses.contains f = true) (k : String) :
      Recount.carriers db cached k ≤ cached.names.getD k 0 :=
    (hcounts ▸ hall f : cached.Covers db f).carriers_le hf k
  refine ⟨cached, (Ledger.shows_store hfits).present _ _ hcached, fun hf k _ => hle hf k, ?_⟩
  exact Recount.corrected_eq_tagged fun hf k _ => hle hf k

/-- Calls that write nothing: references of names, a build of the function, and a removal from the
index. -/
def Call.silent : List (Call × Option Nat) :=
  [(.operate .customNames, some 0), (.operate (.contents 16), some 0), (.eraseGlobals 1, some 0)]

/-- The correction changes nothing in the history of the sample. -/
theorem correction_inert_named :
    Snapshot.named.check = .ok () ∧
    (∅ : Ledger).AdmitsAll ((Call.trace .named .fresh Call.silent).map .change) ∧
    ((Call.replay .named .fresh Call.silent).document? 16).isSome ∧
    ∃ cached, (Call.replay .named .fresh Call.silent).Holds (.contents 16) cached ∧
      (cached.addresses.contains 16 = true →
        ∀ k ∈ implicitTags, Recount.carriers .named cached k ≤ cached.names.getD k 0) ∧
      Recount.corrected .named 16 cached = Recount.tagged .named cached :=
  ⟨rfl, by decide +kernel, by decide +kernel,
    correction_inert rfl (by decide +kernel) (by decide +kernel)⟩

end TagCache
