import TagCache.Proofs.Entry.Reread
import TagCache.Proofs.Session.Rebuild
import TagCache.Proofs.Store.Refinement

/-!
# Partitions of a store

What a store has of one partition: the counts that are read from it (`Store.Reads`), which are those
of the entry that an update starts from (`Store.reads_contents_iff`) or the rows of the index
(`Store.reads_globals_iff`), and what is persisted for it, which two stores may agree on
(`Store.SameAt`).
-/

namespace TagCache

/-- Counts without a key are none. -/
theorem Counts.eq_empty_of_isEmpty {c : Counts} (h : c.isEmpty = true) : c = ∅ := by
  obtain ⟨haddresses, hnames⟩ := Bool.and_eq_true_iff.1 h
  obtain ⟨addresses, names⟩ := c
  obtain rfl := Table.eq_empty_of_isEmpty haddresses
  obtain rfl := Table.eq_empty_of_isEmpty hnames
  rfl

namespace Store

/-- The counts that are read for a partition, none where it has no entry. -/
def Reads (s : Store) (p : Partition) (c : Counts) : Prop :=
  (s.read p = .ok none ∧ c = ∅) ∨ s.Holds p c

/-- What the stores persist for a partition is the same: the text of its document, or the rows of
the index. -/
def SameAt (s s' : Store) : Partition → Prop
  | .contents f => s'.contents.map (·.find? f) = s.contents.map (·.find? f)
  | .globals => s'.names = s.names ∧ s'.addresses = s.addresses

/-- A partition is read in one way. -/
theorem Reads.unique {s : Store} {p : Partition} {c d : Counts} (h : s.Reads p c)
    (h' : s.Reads p d) : c = d := by
  obtain ⟨hr, rfl⟩ | ⟨e, hr, he⟩ := h <;> obtain ⟨hr', rfl⟩ | ⟨e', hr', he'⟩ := h'
  · rfl
  · rw [hr] at hr'
    cases hr'
  · rw [hr] at hr'
    cases hr'
  · rw [hr] at hr'
    cases hr'
    rw [he] at he'
    exact Except.ok.inj he'

/-! ## Persisted partitions -/

section
variable {s s' s'' : Store} {p : Partition}

/-- A store is the same as itself at every partition. -/
theorem SameAt.refl (s : Store) (p : Partition) : s.SameAt s p := by
  cases p with
  | contents f => exact rfl
  | globals => exact ⟨rfl, rfl⟩

/-- What stays the same in two steps is the same after both. -/
theorem SameAt.trans (h : s.SameAt s' p) (h' : s'.SameAt s'' p) : s.SameAt s'' p := by
  cases p with
  | contents f => exact Eq.trans h' h
  | globals => exact ⟨h'.1.trans h.1, h'.2.trans h.2⟩

/-- Where stores are the same, the same is read. -/
theorem SameAt.read_eq (h : s.SameAt s' p) : s'.read p = s.read p := by
  cases p with
  | contents f =>
    have hread (s : Store) : s.readContents f
        = match s.contents.map (·.find? f) with
          | none => .error .storage
          | some none => .ok none
          | some (some text) => (Entry.parse (.contents f) text).map some := by
      cases hc : s.contents with
      | none =>
        unfold readContents
        rw [hc]
        rfl
      | some c =>
        rw [readContents_eq hc]
        cases hf : c.find? f <;> simp [hf]
    show s'.readContents f = s.readContents f
    rw [hread, hread, h]
  | globals =>
    show s'.readGlobals = s.readGlobals
    unfold readGlobals
    rw [h.1, h.2]

/-- Where stores are the same, the same counts are read. -/
theorem SameAt.reads_iff (h : s.SameAt s' p) {c : Counts} : s'.Reads p c ↔ s.Reads p c := by
  unfold Reads Holds
  rw [h.read_eq]

/-- After a document was written, its function has it and the others have theirs. -/
theorem document?_put (s : Store) (hs : s.contents.isSome) (f g : Address) (e : Entry) :
    (s.put f e).document? g = if g = f then some e.text else s.document? g := by
  obtain ⟨c, hc⟩ := Option.isSome_iff_exists.1 hs
  unfold document? put
  rw [hc]
  show (c.insert f e.text).find? g = if g = f then _ else c.find? g
  by_cases h : g = f
  · rw [if_pos h, h, Table.find?_insert_self]
  · rw [if_neg h, Table.find?_insert_of_ne _ _ h]

/-- A document that is put is that of its own function alone. -/
theorem sameAt_put (s : Store) {f : Address} (h : p ≠ .contents f) (e : Entry) :
    s.SameAt (s.put f e) p := by
  cases p with
  | contents g =>
    have hne : g ≠ f := fun he => h (congrArg _ he)
    show (s.contents.map (·.insert f e.text)).map (·.find? g) = _
    rw [Option.map_map]
    refine congrArg (fun x => Option.map x s.contents) (funext fun c => ?_)
    exact Table.find?_insert_of_ne c _ hne
  | globals => exact ⟨rfl, rfl⟩

end

/-! ## Counts that are read -/

section
variable {s : Store} {f : Address} {c : Counts} {e : Entry}

/-- The counts of a function are those of the entry that its updates start from. -/
theorem reads_contents_iff :
    s.Reads (.contents f) c ↔ ∃ e, s.start f = .ok e ∧ e.counts = .ok c := by
  rw [← getD_readContents]
  show (s.readContents f = .ok none ∧ c = ∅) ∨
    (∃ e, s.readContents f = .ok (some e) ∧ e.counts = .ok c) ↔ _
  cases s.readContents f with
  | error x => simp [Except.map]
  | ok e? =>
    cases e? with
    | none => simp [Except.map, Entry.counts_empty, eq_comm]
    | some e => simp [Except.map]

/-- The entry that an update starts from can be written. -/
theorem writable_start (h : s.start f = .ok e) : e.Writable := by
  obtain ⟨contents, -, h⟩ := exists_contents_of_start h
  unfold startEntry at h
  split at h
  · cases h
    exact (Entry.plain_empty _).writable
  · exact Entry.writable_of_parse h

end

section
variable {κ : Type} [Ord κ] [Std.TransOrd κ] [Std.LawfulEqOrd κ]

/-- Rows that can be read store the counts that they are read as. -/
theorem wholeCounts_eq_ok_iff {t : Table κ StoredCount} {u : Table κ Nat} :
    wholeCounts t = .ok u ↔ u.Words ∧ t = u.stored := by
  constructor
  · intro h
    unfold wholeCounts at h
    split at h
    · next hall =>
      cases h
      have hwhole (k : κ) (v : StoredCount) (hv : t.find? k = some v) : ∃ n, v = .whole n := by
        have hvalue : v ∈ t.values := List.mem_map.2 ⟨(k, v), Table.find?_eq_some_iff.1 hv, rfl⟩
        have hsome := List.all_eq_true.1 hall v hvalue
        cases v with
        | whole n => exact ⟨n, rfl⟩
        | real => cases hsome
      constructor
      · intro k n hn
        rw [Table.find?_mapValues, Option.map_eq_some_iff] at hn
        obtain ⟨v, hv, rfl⟩ := hn
        obtain ⟨n, rfl⟩ := hwhole k v hv
        exact n.toNat_lt_size
      · refine Table.ext_find? fun k => ?_
        rw [Table.stored, Table.find?_mapValues, Table.find?_mapValues, Option.map_map]
        cases hv : t.find? k with
        | none => rfl
        | some v =>
          obtain ⟨n, rfl⟩ := hwhole k v hv
          simp [StoredCount.toNat?, StoredCount.ofNat]
    · cases h
  · rintro ⟨hwords, rfl⟩
    exact wholeCounts_stored_of_words hwords

/-- Counts are not stored as real numbers. -/
theorem find?_stored_ne_real (t : Table κ Nat) (k : κ) : t.stored.find? k ≠ some .real := by
  rw [Table.stored, Table.find?_mapValues]
  cases t.find? k <;> simp [StoredCount.ofNat]

/-- Rows without a real number store counts. -/
theorem exists_stored {t : Table κ StoredCount} (h : ∀ k, t.find? k ≠ some .real) :
    ∃ u : Table κ Nat, u.Words ∧ t = u.stored := by
  have hall : t.values.all (·.toNat?.isSome) = true := by
    rw [List.all_eq_true]
    intro v hv
    obtain ⟨b, hb, rfl⟩ := List.mem_map.1 hv
    cases hvalue : b.2 with
    | whole n => rfl
    | real =>
      refine absurd ?_ (h b.1)
      rw [← hvalue]
      exact Table.find?_eq_some_iff.2 hb
  have hread : wholeCounts t = .ok (t.mapValues fun _ c => c.toNat?.getD 0) := by
    unfold wholeCounts
    rw [if_pos hall]
    rfl
  exact ⟨_, wholeCounts_eq_ok_iff.1 hread⟩

end

section
variable {s : Store} {c : Counts}

/-- An index that can be read stores counts that fit. -/
theorem stored_of_readGlobals {r : Option Entry} (h : s.readGlobals = .ok r) :
    ∃ c : Counts,
      s.names = some c.names.stored ∧ s.addresses = some c.addresses.stored ∧ c.Fits := by
  have hsome {α : Type} {x : Option α} {a : α} (hx : Option.orFail .storage x = .ok a) :
      x = some a := by
    cases x <;> cases hx
    rfl
  obtain ⟨n, hn, h⟩ := Except.exists_of_bind_eq_ok h
  obtain ⟨names, hnames, h⟩ := Except.exists_of_bind_eq_ok h
  obtain ⟨a, ha, h⟩ := Except.exists_of_bind_eq_ok h
  obtain ⟨addresses, haddresses, -⟩ := Except.exists_of_bind_eq_ok h
  obtain ⟨hnamesWords, rfl⟩ := wholeCounts_eq_ok_iff.1 hnames
  obtain ⟨haddressesWords, rfl⟩ := wholeCounts_eq_ok_iff.1 haddresses
  exact ⟨⟨addresses, names⟩, hsome hn, hsome ha, haddressesWords, hnamesWords⟩

/-- The counts of the index are those that its rows store. -/
theorem reads_globals_iff : s.Reads .globals c ↔
    s.names = some c.names.stored ∧ s.addresses = some c.addresses.stored ∧ c.Fits := by
  have hof {c : Counts} (hnames : s.names = some c.names.stored)
      (haddresses : s.addresses = some c.addresses.stored) (hc : c.Fits) : s.Reads .globals c := by
    have hread := readGlobals_of_wholeCounts hnames haddresses
      (wholeCounts_stored_of_words hc.names) (wholeCounts_stored_of_words hc.addresses)
    cases hempty : c.isEmpty with
    | true =>
      rw [hempty] at hread
      exact .inl ⟨hread, Counts.eq_empty_of_isEmpty hempty⟩
    | false =>
      rw [hempty] at hread
      exact .inr ⟨_, hread, Entry.counts_ofCounts _ _⟩
  constructor
  · intro h
    obtain ⟨r, hr⟩ : ∃ r, s.readGlobals = .ok r := by
      obtain ⟨hr, -⟩ | ⟨e, hr, -⟩ := h
      · exact ⟨none, hr⟩
      · exact ⟨some e, hr⟩
    obtain ⟨d, hnames, haddresses, hd⟩ := stored_of_readGlobals hr
    obtain rfl : c = d := h.unique (hof hnames haddresses hd)
    exact ⟨hnames, haddresses, hd⟩
  · rintro ⟨hnames, haddresses, hc⟩
    exact hof hnames haddresses hc

/-- The index is read if none of its counts is a real number. -/
theorem exists_reads_globals (hs : s.HasTables) (hnames : ∀ k, s.nameCount? k ≠ some .real)
    (haddresses : ∀ a, s.addressCount? a ≠ some .real) : ∃ c : Counts, s.Reads .globals c := by
  obtain ⟨n, hn⟩ := Option.isSome_iff_exists.1 hs.names
  obtain ⟨a, ha⟩ := Option.isSome_iff_exists.1 hs.addresses
  unfold nameCount? at hnames
  unfold addressCount? at haddresses
  rw [hn] at hnames
  rw [ha] at haddresses
  obtain ⟨names, hnamesWords, rfl⟩ := exists_stored hnames
  obtain ⟨addresses, haddressesWords, rfl⟩ := exists_stored haddresses
  exact ⟨⟨addresses, names⟩, reads_globals_iff.2 ⟨hn, ha, haddressesWords, hnamesWords⟩⟩

end

end Store

end TagCache
