import TagCache.Proofs.Session.Script
import TagCache.Proofs.Session.Soundness
import TagCache.Store.Schema

/-!
# What an accepted cache lists

The check of a function's cache counts again at the addresses that the cache lists, and nowhere
else. So an accepted cache lists addresses of the function that carry a tag
(`Session.exists_holds_of_verified`), and every set of such addresses is the one of some accepted
cache (`Session.exists_verified_of_keys`). A fresh build lists the heads among them
(`Session.reaches_contents_fresh`); a head that is missing from the list goes unnoticed by the
check, and so does an address on it that is no head.
-/

namespace TagCache

/-- An empty store, with the counts of one function put in. -/
def Store.holding (f : Address) (c : Counts) : Store :=
  { Store.fresh with contents := some ((∅ : Table Address String).insert f
      (Entry.ofCounts (.contents f) c).text) }

namespace Store

variable {f : Address} {c : Counts}

/-- The sample store has the entry of the counts. -/
theorem readContents_holding (hc : c.Fits) :
    (holding f c).readContents f = .ok (some (.ofCounts (.contents f) c)) :=
  readContents_of_counts hc (Table.find?_insert_self _ f _)

/-- The sample store holds the counts. -/
theorem holds_holding (hc : c.Fits) : (holding f c).Holds (.contents f) c :=
  ⟨_, readContents_holding hc, Entry.counts_ofCounts _ c⟩

end Store

namespace Session

variable {db : Snapshot} {a f : Address} {s : Store}

/-- An accepted cache is there. -/
theorem exists_readContents_of_verified (ha : db.functionOf? a = some f)
    (h : (outcome (verifyContents db a) (.start s none)).1 = .ok true) :
    ∃ e, s.readContents f = .ok (some e) := by
  cases hread : s.readContents f with
  | error e =>
    have hresult : (outcome (verifyContents db a) (.start s none)).1 = .error e := by
      have hstart : (SessionState.start s none).store.readContents f = .error e := hread
      unfold verifyContents
      rw [ha]
      simp only
      rw [outcome_bind, outcome_asks, hstart]
    rw [hresult] at h
    cases h
  | ok r =>
    cases r with
    | some e => exact ⟨e, rfl⟩
    | none =>
      have hreport : Reaches (report a .uncached) s false s := (runs_report a .uncached).reaches
      have hrun : Reaches (verifyContents db a) s false s := by
        unfold verifyContents
        rw [ha]
        refine (Reaches.asks hread).bind ?_
        exact hreport
      rw [hrun.result] at h
      cases h

/-! ## The addresses of an accepted cache -/

/-- An accepted cache lists addresses of the function that carry a tag. -/
theorem exists_holds_of_verified (ha : db.functionOf? a = some f) {room : Option Nat}
    (h : (outcome (verifyContents db a) (.start s room)).1 = .ok true) :
    ∃ cached, s.Holds (.contents f) cached ∧ ∀ b, cached.addresses.contains b = true →
      db.functionContains f b = true ∧ (db.tagsAt b).isEmpty = false := by
  have hverified := (compositional_scripted.verifyContents a).relaxes.result h
  obtain ⟨e, he⟩ := exists_readContents_of_verified ha hverified
  obtain ⟨-, cached, hcounts, hin, dropped, hexplains⟩ :=
    (verifyContents_eq_true_iff ha he).1 hverified
  exact ⟨cached, ⟨e, he, hcounts⟩, fun b hb => ⟨hin b hb, hexplains.tagged b hb⟩⟩

/-- The tags at any addresses of a function, counted as they are, make an accepted cache. -/
theorem verified_holding (ha : db.functionOf? a = some f) {l : List Address} (hl : l.Nodup)
    (hfits : (Counts.tallyAll ∅ (db.tagged l)).Fits)
    (hin : ∀ b ∈ l, db.functionContains f b = true) :
    (outcome (verifyContents db a)
      (.start (.holding f (.tallyAll ∅ (db.tagged l))) none)).1 = .ok true := by
  refine (verifyContents_eq_true_iff ha (Store.readContents_holding hfits)).2
    ⟨Entry.keys_ofCounts _ _, _, Entry.counts_ofCounts _ _, fun b hb => ?_, ∅,
      Recount.explains_tallyAll f hl⟩
  exact hin b ((Snapshot.contains_addresses_tallyAll_tagged hl).1 hb).1

/-- Every set of addresses of a function that carry a tag is the one of an accepted cache. -/
theorem exists_verified_of_keys (hfit : db.TagsFit) (ha : db.functionOf? a = some f)
    {keys : KeySet Address} (hkeys : ∀ b, keys.contains b = true →
      db.functionContains f b = true ∧ (db.tagsAt b).isEmpty = false) :
    ∃ s cached, s.Holds (.contents f) cached ∧
      (∀ b, cached.addresses.contains b = keys.contains b) ∧
      (outcome (verifyContents db a) (.start s none)).1 = .ok true := by
  have hnodup := KeySet.nodup_toList keys
  have hin : ∀ b ∈ keys.toList, db.functionContains f b = true :=
    fun b hb => (hkeys b (KeySet.mem_toList_iff.1 hb)).1
  have hlength : keys.toList.length < UInt64.size := by
    refine Address.length_lt_size hnodup fun b hb => ?_
    obtain ⟨i, -, hi⟩ := Snapshot.functionContains_eq_true_iff.1 (hin b hb)
    exact FunctionInfo.exists_lt_of_contains hi
  have hfits := Snapshot.fits_tallyAll_tagged hfit hnodup hlength
  refine ⟨_, _, Store.holds_holding hfits, fun b => ?_, verified_holding ha hnodup hfits hin⟩
  rw [Bool.eq_iff_iff, Snapshot.contains_addresses_tallyAll_tagged hnodup, KeySet.mem_toList_iff]
  exact and_iff_left_of_imp fun hb => (hkeys b hb).2

/-- On an empty store, building a function puts its counts in. -/
theorem reaches_contents_fresh (ha : db.functionOf? a = some f) :
    Reaches (contents db a) .fresh (db.contentsCounts f)
      (.holding f (db.contentsCounts f)) :=
  reaches_contents_of_absent (s := .fresh) (n := ∅) (t := ∅) ha (Table.find?_empty f)

end Session

open Session

/-- A function with a tagged head, and a tagged address that is no head. -/
def Snapshot.drifted : Snapshot :=
  let db := ((Snapshot.empty 0 64).withFunction 16 16 32).withTag 24 "x" .null
  { db with tags := db.tags.insert 20 (Table.ofList [("x", .null)]) }

/-- An accepted cache need not list what a fresh build lists: in `Snapshot.drifted` one that lists
the other address in place of the head is accepted. -/
theorem verified_lists_other_addresses :
    ¬∀ (db : Snapshot) (f : FunctionInfo) (s : Store) (cached : Counts), db.check = .ok () →
      f ∈ db.functions → s.Holds (.contents f.entry) cached →
      (outcome (verifyContents db f.entry) (.start s none)).1 = .ok true →
      ∀ a, cached.addresses.contains a = true ↔
        db.heads.contains a = true ∧ f.contains a = true ∧ (db.tagsAt a).isEmpty = false := by
  intro h
  have hfits : (Counts.tallyAll ∅ (Snapshot.drifted.tagged [20])).Fits :=
    Snapshot.fits_tallyAll_tagged (by decide) (by decide) (by decide)
  have hin : ∀ b ∈ [(20 : Address)], Snapshot.drifted.functionContains 16 b = true := by
    intro b hb
    rw [List.mem_singleton.1 hb]
    rfl
  have hverified : (outcome (verifyContents .drifted 16) (.start
      (.holding 16 (.tallyAll ∅ (Snapshot.drifted.tagged [20]))) none)).1 = .ok true :=
    verified_holding rfl (by decide) hfits hin
  have hf : ⟨16, [⟨16, 32⟩], ∅⟩ ∈ Snapshot.drifted.functions := List.mem_cons_self
  have hiff := h .drifted _ _ _ rfl hf (Store.holds_holding hfits) hverified 20
  have hhead := (hiff.1 (by decide)).1
  cases hhead

/-- Building a function on an empty store lists exactly its heads that carry a tag. An accepted
cache lists addresses of the function that carry a tag, whatever the store and the output are; which
of them it lists is left open, since every set of such addresses is the one of an accepted cache. -/
theorem verified_lists_tagged {db : Snapshot} (hdb : db.check = .ok ()) (hfit : db.TagsFit)
    {f : FunctionInfo} (hf : f ∈ db.functions) :
    (∃ counts after events,
      outcome (contents db f.entry) (.start .fresh none) = (.ok counts, ⟨after, none, events⟩) ∧
      after.Holds (.contents f.entry) counts ∧ ∀ a, counts.addresses.contains a = true ↔
        db.heads.contains a = true ∧ f.contains a = true ∧ (db.tagsAt a).isEmpty = false) ∧
    (∀ s room, (outcome (verifyContents db f.entry) (.start s room)).1 = .ok true →
      ∃ cached, s.Holds (.contents f.entry) cached ∧ ∀ a, cached.addresses.contains a = true →
        f.contains a = true ∧ (db.tagsAt a).isEmpty = false) ∧
    ∀ keys : KeySet Address,
      (∀ a, keys.contains a = true → f.contains a = true ∧ (db.tagsAt a).isEmpty = false) →
      ∃ s cached, s.Holds (.contents f.entry) cached ∧
        (∀ a, cached.addresses.contains a = keys.contains a) ∧
        (outcome (verifyContents db f.entry) (.start s none)).1 = .ok true := by
  have hwf := Snapshot.check_eq_ok_iff.1 hdb
  have howner := hwf.functionOf?_entry (Snapshot.mem_entries_iff.2 ⟨f, hf, rfl⟩)
  simp only [← hwf.functionContains_entry hf]
  refine ⟨?_, fun s room h => exists_holds_of_verified howner h,
    fun keys hkeys => exists_verified_of_keys hfit howner hkeys⟩
  obtain ⟨events, hrun⟩ := (reaches_contents_fresh howner).outcome_start
  have hfits := Snapshot.fits_contentsCounts hfit f.entry
  refine ⟨_, _, events, hrun, Store.holds_holding hfits, fun a => ?_⟩
  rw [Snapshot.contains_addresses_contentsCounts, and_assoc]

/-- A cache that lists one of two tagged addresses is accepted. -/
theorem verified_lists_tagged_drifted :
    Snapshot.drifted.check = .ok () ∧ Snapshot.drifted.TagsFit ∧
      ∃ s cached, s.Holds (.contents 16) cached ∧
        (∀ a, cached.addresses.contains a = (KeySet.ofList [(20 : Address)]).contains a) ∧
        (outcome (verifyContents .drifted 16) (.start s none)).1 = .ok true := by
  have hf : ⟨16, [⟨16, 32⟩], ∅⟩ ∈ Snapshot.drifted.functions := List.mem_cons_self
  obtain ⟨-, -, hevery⟩ := verified_lists_tagged rfl (by decide) hf
  refine ⟨rfl, by decide, hevery (KeySet.ofList [20]) fun a ha => ?_⟩
  rw [KeySet.contains_ofList, List.mem_singleton] at ha
  subst ha
  decide

end TagCache
