import TagCache.Proofs.Entry.Update

/-!
# Entries with written tables

An entry may hold its counts under any spelling of their addresses. Where each address has its
written form, the tables are the ones that the counts are written as (`Entry.Tabulates`,
`Entry.Writable.tabulates`), and the entry is known by its counts but for its other fields. One
without other fields is the entry made from its counts (`Entry.Tabulates.eq_ofCounts`).
-/

namespace TagCache

/-- What succeeds in two steps succeeds in each of them. -/
theorem Except.exists_of_bind_eq_ok {ε α β : Type} {x : Except ε α} {f : α → Except ε β} {b : β}
    (h : x >>= f = .ok b) : ∃ a, x = .ok a ∧ f a = .ok b := by
  cases x with
  | error e => cases h
  | ok a => exact ⟨a, rfl, h⟩

namespace Entry

variable {e : Entry} {c : Counts}

/-- The keys of the table of addresses are written addresses. -/
def Written (e : Entry) : Prop :=
  ∀ ms, e.members addressesField = .ok ms → ∀ b ∈ ms, ∃ a : Address, b.1 = a.text

/-- The tables of the entry are the written form of counts. -/
structure Tabulates (e : Entry) (c : Counts) : Prop where
  names : e.members namesField = .ok (nameMembers c.names)
  addresses : e.members addressesField = .ok (addressMembers c.addresses)

/-- The entry of counts tabulates them. -/
theorem tabulates_ofCounts (p : Partition) (c : Counts) : (ofCounts p c).Tabulates c :=
  ⟨members_namesField p c, members_addressesField p c⟩

/-- What is tabulated is in written form. -/
theorem Tabulates.written (h : e.Tabulates c) : e.Written := by
  intro ms hms b hb
  rw [h.addresses] at hms
  cases hms
  obtain ⟨a, n, -, rfl⟩ := mem_addressMembers_iff.1 hb
  exact ⟨a, rfl⟩

/-- What is tabulated is what is decoded. -/
theorem Tabulates.counts (h : e.Tabulates c) : e.counts = .ok c := by
  unfold Entry.counts
  rw [addresses_of_members h.addresses, names_of_members h.names]
  rfl

/-! ## Decoded tables -/

/-- A value is read as a count if it is the form of the count. -/
theorem count_eq_ok_iff {v : Json} {n : Nat} : count v = .ok n ↔ v = .ofCount n := by
  constructor
  · intro h
    unfold count at h
    cases hv : v.count? with
    | none =>
      rw [hv] at h
      cases h
    | some m =>
      rw [hv] at h
      cases h
      unfold Json.count? at hv
      split at hv
      · split at hv
        · next hpos =>
          cases hv
          exact congrArg Json.int (Int.toNat_of_nonneg hpos).symm
        · cases hv
      · cases hv
  · rintro rfl
    exact count_ofCount n

/-- Names decode only from their written form. -/
theorem eq_of_decodeNames {ms : List (String × Json)} {l : List (String × Nat)}
    (h : decodeNames ms = .ok l) : ms = l.map fun b => (b.1, Json.ofCount b.2) := by
  induction ms generalizing l with
  | nil =>
    cases h
    rfl
  | cons b ms ih =>
    obtain ⟨k, v⟩ := b
    obtain ⟨n, hn, h⟩ := Except.exists_of_bind_eq_ok h
    obtain ⟨l', hl', h⟩ := Except.exists_of_bind_eq_ok h
    cases h
    rw [List.map_cons, ← ih hl', count_eq_ok_iff.1 hn]

/-- A key is read as an address if its text is one. -/
theorem addressOf_eq_ok_iff {key : String} {a : Address} :
    addressOf key = .ok a ↔ Address.parse? key = some a := by
  unfold addressOf
  cases Address.parse? key <;> simp

/-- What decodes has an address and a count in front, and the rest decodes. -/
theorem decodeAddresses_cons_eq_ok_iff {k : String} {v : Json} {ms : List (String × Json)}
    {l : List (Address × Nat)} : decodeAddresses ((k, v) :: ms) = .ok l ↔
      ∃ a n l', Address.parse? k = some a ∧ v = .ofCount n ∧ decodeAddresses ms = .ok l' ∧
        l = (a, n) :: l' := by
  constructor
  · intro h
    obtain ⟨a, ha, h⟩ := Except.exists_of_bind_eq_ok h
    obtain ⟨n, hn, h⟩ := Except.exists_of_bind_eq_ok h
    obtain ⟨l', hl', h⟩ := Except.exists_of_bind_eq_ok h
    cases h
    exact ⟨a, n, l', addressOf_eq_ok_iff.1 ha, count_eq_ok_iff.1 hn, hl', rfl⟩
  · rintro ⟨a, n, l', ha, rfl, hl', rfl⟩
    rw [decodeAddresses, addressOf_eq_ok_iff.2 ha, count_ofCount, hl']
    rfl

/-- Addresses decode from their written form, if the keys are written addresses. -/
theorem eq_of_decodeAddresses {ms : List (String × Json)} {l : List (Address × Nat)}
    (hms : ∀ b ∈ ms, ∃ a : Address, b.1 = a.text) (h : decodeAddresses ms = .ok l) :
    ms = l.map fun b => (b.1.text, Json.ofCount b.2) := by
  induction ms generalizing l with
  | nil =>
    cases h
    rfl
  | cons b ms ih =>
    obtain ⟨k, v⟩ := b
    obtain ⟨a, n, l', ha, rfl, hl', rfl⟩ := decodeAddresses_cons_eq_ok_iff.1 h
    obtain ⟨a', rfl⟩ := hms _ List.mem_cons_self
    rw [Address.parse?_text] at ha
    cases ha
    rw [List.map_cons, ← ih (fun b hb => hms b (List.mem_cons_of_mem _ hb)) hl']

/-- In key order, names are the written form of their table. -/
theorem eq_nameMembers {l : List (String × Nat)}
    (h : Bindings.Ascending (l.map fun b => (b.1, Json.ofCount b.2))) :
    l.map (fun b => (b.1, Json.ofCount b.2)) = nameMembers (Table.ofList l) := by
  have hasc : Bindings.Ascending l := List.pairwise_map.1 h
  rw [Table.ofList_eq hasc]
  rfl

/-- In the order of their texts, addresses are the written form of their table. -/
theorem eq_addressMembers {l : List (Address × Nat)}
    (h : Bindings.Ascending (l.map fun b => (b.1.text, Json.ofCount b.2))) :
    l.map (fun b => (b.1.text, Json.ofCount b.2)) = addressMembers (Table.ofList l) := by
  have hnodup : (l.map (·.1)).Nodup := by
    have htexts := h.nodup_keys
    rw [List.map_map] at htexts
    exact (List.pairwise_map.1 htexts).map _ fun a b hab he => hab (congrArg Address.text he)
  refine Bindings.ext_find? h (ascending_addressMembers _) fun k => ?_
  ext v
  rw [Bindings.find?_eq_some_iff h, Bindings.find?_eq_some_iff (ascending_addressMembers _),
    mem_addressMembers_iff, List.mem_map]
  simp only [Table.find?_ofList_eq_some_iff hnodup, Prod.exists, eq_comm]

/-! ## Tables in written form -/

/-- The members that are read are those that an update starts from. -/
theorem tableMembers_of_members {field : String} {ms : List (String × Json)}
    (h : e.members field = .ok ms) : e.tableMembers field = ms := by
  unfold members at h
  unfold tableMembers
  cases hf : e.fields.find? field with
  | none =>
    rw [hf] at h
    exact Except.ok.inj h
  | some v =>
    rw [hf] at h
    cases v <;> cases h
    rfl

/-- The members of a writable entry's tables stand in the order of their keys. -/
theorem Writable.ascending (he : e.Writable) {field : String} {ms : List (String × Json)}
    (h : e.members field = .ok ms) : Bindings.Ascending ms := by
  rw [← tableMembers_of_members h]
  exact (hereditary_tableMembers Json.hereditary_writable he.value field).1

/-- The names of a writable entry have the written form of their counts. -/
theorem Writable.members_names (he : e.Writable) {t : NameTable} (h : e.names = .ok t) :
    e.members namesField = .ok (nameMembers t) := by
  obtain ⟨ms, hms, h⟩ := Except.exists_of_bind_eq_ok h
  obtain ⟨l, hl, h⟩ := Except.exists_of_bind_eq_ok h
  cases h
  obtain rfl := eq_of_decodeNames hl
  rw [hms, eq_nameMembers (he.ascending hms)]

/-- A writable entry with its addresses in their written form has the tables that its counts are
written as. -/
theorem Writable.tabulates (he : e.Writable) (hwritten : e.Written) (h : e.counts = .ok c) :
    e.Tabulates c := by
  obtain ⟨addresses, haddresses, h⟩ := Except.exists_of_bind_eq_ok h
  obtain ⟨names, hnames, h⟩ := Except.exists_of_bind_eq_ok h
  cases h
  refine ⟨he.members_names hnames, ?_⟩
  obtain ⟨ms, hms, haddresses⟩ := Except.exists_of_bind_eq_ok haddresses
  obtain ⟨l, hl, haddresses⟩ := Except.exists_of_bind_eq_ok haddresses
  cases haddresses
  obtain rfl := eq_of_decodeAddresses (hwritten ms hms) hl
  rw [hms, eq_addressMembers (he.ascending hms)]

/-- A stored count is a 64-bit word. -/
theorem lt_of_writable_ofCount {n : Nat} (h : (Json.ofCount n).Writable) : n < UInt64.size := by
  have hlt : (n : Int) < UInt64.size := h.2
  exact_mod_cast hlt

/-- The counts of a writable entry are words. -/
theorem Tabulates.fits (h : e.Tabulates c) (he : e.Writable) : c.Fits := by
  have hmembers (field : String) :=
    (hereditary_tableMembers Json.hereditary_writable he.value field).2
  constructor
  · intro a n hn
    refine lt_of_writable_ofCount (hmembers addressesField (a.text, Json.ofCount n) ?_)
    rw [tableMembers_of_members h.addresses]
    exact mem_addressMembers_iff.2 ⟨a, n, hn, rfl⟩
  · intro k n hn
    refine lt_of_writable_ofCount (hmembers namesField (k, Json.ofCount n) ?_)
    rw [tableMembers_of_members h.names]
    refine Table.find?_eq_some_iff.1 ?_
    rw [Table.find?_mapValues, hn]
    rfl

/-! ## Entries without other fields -/

/-- A field that is there holds the members that are read of it. -/
theorem find?_of_members {field : String} {ms : List (String × Json)}
    (h : e.members field = .ok ms) (hfield : e.keys.contains field = true) :
    e.fields.find? field = some (.object ms) := by
  obtain ⟨v, hv⟩ := Table.mem_keys_iff.1 (KeySet.contains_ofList.1 hfield)
  unfold members at h
  rw [hv] at h
  cases v <;> cases h
  exact hv

/-- With the two expected fields and no other, the entry is made from its counts. -/
theorem Tabulates.eq_ofCounts (h : e.Tabulates c) (hkeys : e.keys = expectedFields) :
    e = ofCounts e.partition c := by
  have hnames := find?_of_members h.names (by rw [hkeys]; decide)
  have haddresses := find?_of_members h.addresses (by rw [hkeys]; decide)
  have hfields : e.fields = (ofCounts e.partition c).fields := by
    refine Table.ext_find? fun k => ?_
    by_cases hname : k = namesField
    · rw [hname, hnames, find?_namesField]
    · by_cases haddress : k = addressesField
      · rw [haddress, haddresses, find?_addressesField]
      · have hnone : k ∉ e.fields.keys := by
          intro hk
          have hexpected : (KeySet.ofList e.fields.keys).contains k = true :=
            KeySet.contains_ofList.2 hk
          rw [← keys, hkeys, expectedFields, KeySet.contains_ofList] at hexpected
          simp [hname, haddress] at hexpected
        ext v
        rw [find?_ofCounts_iff]
        simp only [hname, haddress, false_and, or_self, iff_false]
        exact fun hv => hnone (Table.mem_keys_iff.2 ⟨v, hv⟩)
  cases e
  exact congrArg (Entry.mk _) hfields

end Entry

end TagCache
