import TagCache.Proofs.Session.Erase
import TagCache.Proofs.Session.Rebuild

/-!
# Rebuilding everything

Under a well-formed snapshot a full rebuild succeeds on every store with its three cache tables and
leaves one store (`Store.rebuilt`), in which only the documents of functions that the snapshot does
not know are left of what was stored. Key by key this is `Rebuilt`. Building again over that store
changes nothing (`Store.rebuilt_rebuilt`, `Operation.Builds.reaches_rebuilt`).
-/

namespace TagCache

/-! ## Tables of documents and counts -/

/-- The table with the documents of functions put into it. -/
def Snapshot.putDocuments (db : Snapshot) (c : Table Address String) (fs : List Address) :
    Table Address String :=
  fs.foldl (fun c f => c.insert f (db.document f).text) c

/-- Putting the documents of functions replaces their rows and no others. -/
theorem Snapshot.find?_putDocuments (db : Snapshot) (c : Table Address String) (fs : List Address)
    (f : Address) : (db.putDocuments c fs).find? f
      = if f ∈ fs then some (db.document f).text else c.find? f := by
  unfold putDocuments
  induction fs generalizing c with
  | nil => simp
  | cons g fs ih =>
    rw [List.foldl_cons, ih]
    by_cases h : f = g
    · subst h; simp
    · rw [Table.find?_insert_of_ne _ _ h]
      simp [h]

section
variable {κ : Type} [Ord κ] [Std.TransOrd κ] [Std.LawfulEqOrd κ] (counts : Table κ Nat)

/-- Laid over an empty table, counts are its rows. -/
theorem find?_overlay_empty (k : κ) :
    (StoreM.overlay counts ∅).find? k = (counts.find? k).map StoredCount.ofNat := by
  rw [StoreM.overlay, Table.overlay_empty_left, Table.find?_mapValues]

/-- Laying counts over an index once more changes nothing. -/
theorem overlay_overlay (t : Table κ StoredCount) :
    StoreM.overlay counts (StoreM.overlay counts t) = StoreM.overlay counts t := by
  refine Table.overlay_eq_self fun k v hk => ?_
  rw [StoreM.overlay, Table.find?_overlay, hk]
  rfl

end

/-! ## The store after a rebuild -/

namespace Store

/-- The store after a full rebuild. -/
def rebuilt (db : Snapshot) (s : Store) : Store :=
  { s with
    contents := s.contents.map fun c =>
      db.putDocuments (c.filter fun f _ => db.foreign f) db.entries
    names := s.names.map fun _ => StoreM.overlay db.globalsCounts.names ∅
    addresses := s.addresses.map fun _ => StoreM.overlay db.globalsCounts.addresses ∅ }

variable {db : Snapshot} {s : Store}

/-- A rebuilt store has its tables. -/
theorem HasTables.rebuilt (h : s.HasTables) (db : Snapshot) : (s.rebuilt db).HasTables := by
  refine ⟨?_, ?_, ?_⟩ <;> simp [Store.rebuilt, h.contents, h.names, h.addresses]

/-- The functions of a rebuilt store have the documents of the rebuild. -/
theorem document?_rebuilt (h : s.contents.isSome) (f : Address) :
    (s.rebuilt db).document? f = if f ∈ db.entries then some (db.document f).text
      else s.document? f := by
  obtain ⟨c, hc⟩ := Option.isSome_iff_exists.1 h
  unfold document? rebuilt
  rw [hc]
  show Table.find? (db.putDocuments _ _) f = _
  rw [Snapshot.find?_putDocuments]
  split
  · rfl
  · next hf => rw [Table.find?_filter_key, Snapshot.foreign_eq_true_iff.2 hf]; rfl

/-- In the rebuilt store each function's document reads back. -/
theorem readContents_rebuilt (hdb : db.TagsFit) (h : s.contents.isSome) {f : Address}
    (hf : f ∈ db.entries) : (s.rebuilt db).readContents f = .ok (some (db.document f)) := by
  have htext : (s.rebuilt db).document? f = some (db.document f).text := by
    rw [document?_rebuilt h, if_pos hf]
  exact readContents_of_counts (Snapshot.fits_contentsCounts hdb f) htext

/-- The names of a rebuilt index have the counts of the rebuild. -/
theorem nameCount?_rebuilt (h : s.names.isSome) (k : String) :
    (s.rebuilt db).nameCount? k = (db.globalsCounts.names.find? k).map .ofNat := by
  obtain ⟨n, hn⟩ := Option.isSome_iff_exists.1 h
  unfold nameCount? rebuilt
  rw [hn]
  exact find?_overlay_empty _ k

/-- The addresses of a rebuilt index have the counts of the rebuild. -/
theorem addressCount?_rebuilt (h : s.addresses.isSome) (a : Address) :
    (s.rebuilt db).addressCount? a = (db.globalsCounts.addresses.find? a).map .ofNat := by
  obtain ⟨n, hn⟩ := Option.isSome_iff_exists.1 h
  unfold addressCount? rebuilt
  rw [hn]
  exact find?_overlay_empty _ a

/-- Rebuilding a rebuilt store changes nothing. -/
theorem rebuilt_rebuilt (db : Snapshot) (s : Store) : (s.rebuilt db).rebuilt db = s.rebuilt db := by
  have hcontents (c : Table Address String) :
      db.putDocuments ((db.putDocuments (c.filter fun f _ => db.foreign f) db.entries).filter
        fun f _ => db.foreign f) db.entries
        = db.putDocuments (c.filter fun f _ => db.foreign f) db.entries := by
    refine Table.ext_find? fun k => ?_
    rw [Snapshot.find?_putDocuments]
    by_cases hk : k ∈ db.entries
    · rw [Snapshot.find?_putDocuments, if_pos hk, if_pos hk]
    · rw [if_neg hk, Table.find?_filter_key, Snapshot.foreign_eq_true_iff.2 hk]
      rfl
  unfold rebuilt
  simp only [Option.map_map, Function.comp_def, hcontents]

end Store

namespace Session

variable {db : Snapshot} {s : Store} {c : Table Address String} {n : Table String StoredCount}
  {t : Table Address StoredCount}

/-- Building distinct functions without a document gives each its own. -/
theorem reaches_allContents_of_absent (hdb : db.WellFormed) (total position : Nat)
    {fs : List Address} (hfs : ∀ f ∈ fs, f ∈ db.entries) (hnodup : fs.Nodup)
    (hc : ∀ f ∈ fs, c.find? f = none) :
    Reaches (allContents db total position fs) (s.withTables c n t) ()
      (s.withTables (db.putDocuments c fs) n t) := by
  induction fs generalizing position c with
  | nil => exact .pure
  | cons f fs ih =>
    rw [List.nodup_cons] at hnodup
    have howner := hdb.functionOf?_entry (hfs f List.mem_cons_self)
    have hrun := reaches_contents_of_absent (s := s) (n := n) (t := t) howner
      (hc f List.mem_cons_self)
    refine (Reaches.writeLine _).bind (hrun.discard.bind (ih _
      (fun g hg => hfs g (List.mem_cons_of_mem _ hg)) hnodup.2 fun g hg => ?_))
    have hne : g ≠ f := fun he => hnodup.1 (he ▸ hg)
    rw [Table.find?_insert_of_ne _ _ hne]
    exact hc g (List.mem_cons_of_mem _ hg)

/-- A full rebuild leaves the rebuilt store. -/
theorem reaches_everything (hdb : db.WellFormed) (hs : s.HasTables) :
    Reaches (everything db) s () (s.rebuilt db) := by
  obtain ⟨s, c, n, t, rfl⟩ := hs.exists_eq
  refine (reaches_erase s c n t db).discard.bind ?_
  refine (reaches_allContents_of_absent hdb _ _ (fun f hf => hf) hdb.nodup_entries
    fun f hf => ?_).bind ((Reaches.writeLine _).bind reaches_globals.discard)
  rw [Table.find?_filter_key, Snapshot.foreign_eq_false_iff.2 hf]
  rfl

end Session

/-! ## The rebuilt store key by key -/

/-- The counts of a function are those of the heads that lie in it. -/
structure Snapshot.CountsOf (db : Snapshot) (f : FunctionInfo) (c : Counts) : Prop where
  addresses : ∀ a m, c.addresses.find? a = some m ↔
    (db.heads.contains a = true ∧ f.contains a = true) ∧ (db.tagsAt a).size = m ∧ m ≠ 0
  names : ∀ k m, c.names.find? k = some m ↔
    ((db.heads.toList.filter f.contains).countP fun a => (db.tagsAt a).contains k) = m ∧ m ≠ 0

/-- What a full rebuild makes of a store. -/
structure Rebuilt (db : Snapshot) (before after : Store) : Prop where
  version : after.version = before.version
  runs : after.runs = before.runs
  tables : after.HasTables
  /-- Each function has a document with the two expected fields, which decode to its counts. The
  text reads back if the counts fit machine words. -/
  document : ∀ f ∈ db.functions, ∃ e counts, after.document? f.entry = some (Entry.text e) ∧
    e.keys = expectedFields ∧ e.counts = .ok counts ∧ db.CountsOf f counts ∧
    (db.TagsFit → after.readContents f.entry = .ok (some e))
  /-- No other document is changed, dropped or created. -/
  kept : ∀ k, k ∉ db.entries → after.document? k = before.document? k
  /-- The index counts the tags of each function at its entry point, and those of each head within
  the bounds that lies in no function. -/
  addresses : ∀ a v, after.addressCount? a = some v ↔ ∃ m, v = .ofNat m ∧ m ≠ 0 ∧
    ((∃ f ∈ db.functions, f.entry = a ∧ f.tags.size = m) ∨
      ((db.heads.contains a = true ∧ db.low ≤ a ∧ a < db.high) ∧
        ∀ f ∈ db.functions, f.contains a = false) ∧ (db.tagsAt a).size = m)
  /-- The index counts for each name the functions and the heads of that kind that carry it. -/
  names : ∀ k v, after.nameCount? k = some v ↔ ∃ m, v = .ofNat m ∧ m ≠ 0 ∧ m < UInt64.size ∧
    (db.functions.countP fun f => f.tags.contains k)
      + ((Session.globalHeads db).countP fun a => (db.tagsAt a).contains k) = m

namespace Snapshot.WellFormed

variable {db : Snapshot} (hdb : db.WellFormed) {s : Store}
include hdb

/-- The references that are counted for a function are those from its addresses. -/
theorem countsOf_contentsCounts {f : FunctionInfo} (hf : f ∈ db.functions) :
    db.CountsOf f (db.contentsCounts f.entry) where
  addresses a m := by
    rw [find?_addresses_contentsCounts, hdb.functionContains_entry hf]
  names k m := by
    have hitems : db.itemsOf f.entry = db.heads.toList.filter f.contains := by
      have hcontains : db.functionContains f.entry = f.contains :=
        funext (hdb.functionContains_entry hf)
      rw [itemsOf, hcontains]
    rw [find?_names_contentsCounts, hitems]

/-- The rebuilt store is what a full rebuild makes of a store. -/
theorem rebuilt_spec (hs : s.HasTables) : Rebuilt db s (s.rebuilt db) where
  version := rfl
  runs := rfl
  tables := hs.rebuilt db
  document f hf := by
    have hentry : f.entry ∈ db.entries := mem_entries_iff.2 ⟨f, hf, rfl⟩
    have htext : (s.rebuilt db).document? f.entry = some (db.document f.entry).text := by
      rw [Store.document?_rebuilt hs.contents, if_pos hentry]
    refine ⟨db.document f.entry, db.contentsCounts f.entry, htext, Entry.keys_ofCounts _ _,
      Entry.counts_ofCounts _ _, hdb.countsOf_contentsCounts hf, fun hfit => ?_⟩
    exact Store.readContents_rebuilt hfit hs.contents hentry
  kept k hk := by rw [Store.document?_rebuilt hs.contents, if_neg hk]
  addresses a v := by
    rw [Store.addressCount?_rebuilt hs.addresses, Option.map_eq_some_iff]
    simp only [hdb.find?_addresses_globalsCounts, mem_globalHeads_iff]
    constructor
    · rintro ⟨m, ⟨h, hm⟩, rfl⟩; exact ⟨m, rfl, hm, h⟩
    · rintro ⟨m, rfl, hm, h⟩; exact ⟨m, ⟨h, hm⟩, rfl⟩
  names k v := by
    rw [Store.nameCount?_rebuilt hs.names, Option.map_eq_some_iff]
    constructor
    · rintro ⟨m, h, rfl⟩
      obtain ⟨hm, hne⟩ := hdb.find?_names_globalsCounts.1 h
      exact ⟨m, rfl, hne, hdb.names_globalsCounts_lt h, hm⟩
    · rintro ⟨m, rfl, hne, -, hm⟩
      exact ⟨m, hdb.find?_names_globalsCounts.2 ⟨hm, hne⟩, rfl⟩

end Snapshot.WellFormed

/-- A snapshot of one function with a tag, a tagged head in it and one outside. -/
def Snapshot.small : Snapshot :=
  ((((Snapshot.empty 0 64).withFunction 16 16 32).withFunctionTag 16 "f" .null).withTag 20 "x"
    .null).withTag 40 "x" .null

/-- A store with a broken document of that function, one of another function, and a stale name. -/
def Store.stale : Store where
  version := 2
  contents := some (Table.ofList [(16, "broken"), (48, "kept")])
  names := some (Table.ofList [("stale", .real)])
  addresses := some ∅
  runs := some []

/-- The sample store has its tables. -/
theorem Store.hasTables_stale : Store.stale.HasTables := ⟨rfl, rfl, rfl⟩

/-- A full rebuild succeeds, whatever was stored before, and leaves exactly the counts of the
snapshot. -/
theorem everything_rebuilds {db : Snapshot} {s : Store} (hdb : db.check = .ok ())
    (hs : s.HasTables) :
    ∃ after events, Session.outcome (Session.everything db) (.start s none)
      = (.ok (), ⟨after, none, events⟩) ∧ Rebuilt db s after := by
  have hwf := Snapshot.check_eq_ok_iff.1 hdb
  obtain ⟨events, hrun⟩ := (Session.reaches_everything hwf hs).outcome_start
  exact ⟨_, events, hrun, hwf.rebuilt_spec hs⟩

/-- A whole rebuild of the sample gets over its broken document and its stale name. -/
theorem everything_rebuilds_stale :
    Snapshot.small.check = .ok () ∧ Store.stale.HasTables ∧
      ∃ after events, Session.outcome (Session.everything .small) (.start .stale none)
        = (.ok (), ⟨after, none, events⟩) ∧ Rebuilt .small .stale after :=
  ⟨rfl, Store.hasTables_stale, everything_rebuilds rfl Store.hasTables_stale⟩

end TagCache
