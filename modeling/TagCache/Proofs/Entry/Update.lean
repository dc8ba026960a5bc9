import TagCache.Proofs.Entry

/-!
# Updates of cache entries

An entry made from counts stays one under every update: giving names or addresses absolute counts
makes it the entry of the counts with the new ones laid over (`Entry.setNames_ofCounts`,
`Entry.setAddresses_ofCounts`), and one more reference makes it the entry of the counts with that
reference recorded, if their words leave room for it (`Entry.increment_ofCounts`). So what is stored
for a function depends on its counts alone, and on none of the updates that led to them. The text
reads back as long as all counts are 64-bit words, which the updates keep them
(`Table.Words.overlay`, `Table.Words.insert`).
-/

namespace TagCache

/-! ## Counts of 64 bits -/

namespace Table

variable {κ : Type} [Ord κ] {t u : Table κ Nat}

/-- Counts that are 64-bit words. -/
def Words (t : Table κ Nat) : Prop := ∀ k n, t.find? k = some n → n < UInt64.size

/-- No counts fit 64 bits. -/
theorem Words.empty : (∅ : Table κ Nat).Words := by
  intro k n hn
  cases hn

/-- In a table that fits, the count of any key does. -/
theorem Words.getD (h : t.Words) (k : κ) : t.getD k 0 < UInt64.size := by
  unfold Table.getD
  cases hk : t.find? k with
  | none => decide
  | some n => exact h k n hk

variable [Std.TransOrd κ] [Std.LawfulEqOrd κ]

/-- A table fits if the counts of its rows do. -/
theorem words_iff : t.Words ↔ ∀ b ∈ t.entries, b.2 < UInt64.size := by
  constructor
  · intro h b hb
    exact h b.1 b.2 (find?_eq_some_iff.2 hb)
  · intro h k n hn
    exact h (k, n) (find?_eq_some_iff.1 hn)

instance : Decidable t.Words := decidable_of_iff _ words_iff.symm

/-- A table that fits takes a count that does. -/
theorem Words.insert (h : t.Words) (k : κ) {n : Nat} (hn : n < UInt64.size) :
    (t.insert k n).Words := by
  intro k' m hm
  by_cases hk : k' = k
  · subst hk
    rw [find?_insert_self] at hm
    cases hm
    exact hn
  · rw [find?_insert_of_ne _ _ hk] at hm
    exact h k' m hm

/-- Erasing a row keeps a table fitting. -/
theorem Words.erase (h : t.Words) (k : κ) : (t.erase k).Words := by
  intro k' m hm
  by_cases hk : k' = k
  · subst hk
    rw [find?_erase_self] at hm
    cases hm
  · rw [find?_erase_of_ne _ hk] at hm
    exact h k' m hm

/-- Tables that fit are laid over each other to one that does. -/
theorem Words.overlay (ht : t.Words) (hu : u.Words) : (t.overlay u).Words := by
  intro k n hn
  rw [find?_overlay, Option.or_eq_some_iff] at hn
  rcases hn with hn | ⟨-, hn⟩
  · exact hu k n hn
  · exact ht k n hn

end Table

/-- No counts fit. -/
theorem Counts.Fits.empty : (∅ : Counts).Fits := ⟨Table.Words.empty, Table.Words.empty⟩

/-- A raised table of words was one before, since no count goes down. -/
theorem Table.Words.of_raise {κ : Type} [Ord κ] [Std.TransOrd κ] [Std.LawfulEqOrd κ]
    {t : Table κ Nat} {k : κ} {n : Nat} (h : (t.raise k n).Words) : t.Words := by
  intro k' m hm
  by_cases hk : k' = k
  · subst hk
    have hraised : (t.raise k' n).find? k' = some (m + n) := by
      rw [raise, find?_insert_self, Table.getD, hm]
      rfl
    have hlt := h k' (m + n) hraised
    omega
  · refine h k' m ?_
    rw [raise, find?_insert_of_ne _ _ hk, hm]

/-- Counts that fit with one reference more fit without it. -/
theorem Counts.Fits.of_record {c : Counts} {a : Address} {name : String}
    (h : (c.record a name).Fits) : c.Fits := by
  have haddresses : (c.addresses.raise a 1).Words := h.addresses
  have hnames : (c.names.raise name 1).Words := h.names
  exact ⟨haddresses.of_raise, hnames.of_raise⟩

namespace Entry

/-! ## Written tables -/

/-- The written form of a table of names with one name more. -/
theorem insert_nameMembers (t : NameTable) (k : String) (n : Nat) :
    Bindings.insert k (Json.ofCount n) (nameMembers t) = nameMembers (t.insert k n) := by
  have h := Table.mapValues_insert (fun _ n => Json.ofCount n) t k n
  exact (congrArg Table.entries h).symm

/-- Counts that are put among the members of a table of names make those of the table with them. -/
theorem foldl_insert_nameMembers (l : List (String × Nat)) (t : NameTable) :
    l.foldl (fun ms b => Bindings.insert b.1 (Json.ofCount b.2) ms) (nameMembers t)
      = nameMembers (l.foldl (fun t b => t.insert b.1 b.2) t) := by
  induction l generalizing t with
  | nil => rfl
  | cons b l ih =>
    rw [List.foldl_cons, insert_nameMembers, ih]
    rfl

/-- The written form of a table of addresses with one address more. -/
theorem insert_addressMembers (t : AddressTable) (a : Address) (n : Nat) :
    Bindings.insert a.text (Json.ofCount n) (addressMembers t)
      = addressMembers (t.insert a n) := by
  have hasc := ascending_addressMembers t
  refine Bindings.ext_find? hasc.insert (ascending_addressMembers _) fun k => ?_
  by_cases hk : k = a.text
  · subst hk
    have hmem : (a.text, Json.ofCount n) ∈ addressMembers (t.insert a n) :=
      mem_addressMembers_iff.2 ⟨a, n, Table.find?_insert_self t a n, rfl⟩
    rw [Bindings.find?_insert_self hasc,
      (Bindings.find?_eq_some_iff (ascending_addressMembers _)).2 hmem]
  · rw [Bindings.find?_insert_of_ne hasc hk]
    ext v
    rw [Bindings.find?_eq_some_iff hasc, Bindings.find?_eq_some_iff (ascending_addressMembers _),
      mem_addressMembers_iff, mem_addressMembers_iff]
    -- the other addresses have other texts
    have hne {b : Address} (hb : k = b.text) : b ≠ a := by
      rintro rfl
      exact hk hb
    constructor
    · rintro ⟨b, m, hm, he⟩
      have hb := hne (Prod.mk.inj he).1
      exact ⟨b, m, by rw [Table.find?_insert_of_ne t n hb, hm], he⟩
    · rintro ⟨b, m, hm, he⟩
      have hb := hne (Prod.mk.inj he).1
      rw [Table.find?_insert_of_ne t n hb] at hm
      exact ⟨b, m, hm, he⟩

/-- Counts that are put among the members of a table of addresses make those of the table with them.
-/
theorem foldl_insert_addressMembers (l : List (Address × Nat)) (t : AddressTable) :
    (l.map fun b => (b.1.text, b.2)).foldl
        (fun ms b => Bindings.insert b.1 (Json.ofCount b.2) ms) (addressMembers t)
      = addressMembers (l.foldl (fun t b => t.insert b.1 b.2) t) := by
  induction l generalizing t with
  | nil => rfl
  | cons b l ih =>
    rw [List.map_cons, List.foldl_cons, insert_addressMembers, ih]
    rfl

/-! ## Entries with a new table -/

/-- The entry with no counts is the empty one. -/
theorem ofCounts_empty (p : Partition) : ofCounts p ∅ = empty p := by
  have hfields : (ofCounts p ∅).fields = (empty p).fields := fields_ofCounts p ∅
  cases h : ofCounts p ∅ with
  | mk q fields =>
    have hq : q = p := by
      rw [← partition_ofCounts p ∅, h]
    rw [h] at hfields
    rw [hq]
    exact congrArg (Entry.mk p) hfields

/-- An empty entry has no counts. -/
theorem counts_empty (p : Partition) : (empty p).counts = .ok ∅ := by
  rw [← ofCounts_empty, counts_ofCounts]

/-- An entry made from counts, with another table of names. -/
theorem insert_namesField (p : Partition) (c : Counts) (t : NameTable) :
    (ofCounts p c).fields.insert namesField (.object (nameMembers t))
      = (ofCounts p ⟨c.addresses, t⟩).fields := by
  refine Table.ext_find? fun k => ?_
  by_cases hk : k = namesField
  · subst hk
    rw [Table.find?_insert_self, find?_namesField]
  · rw [Table.find?_insert_of_ne _ _ hk]
    ext v
    rw [find?_ofCounts_iff, find?_ofCounts_iff]
    simp only [hk, false_and, false_or]

/-- An entry made from counts, with another table of addresses. -/
theorem insert_addressesField (p : Partition) (c : Counts) (t : AddressTable) :
    (ofCounts p c).fields.insert addressesField (.object (addressMembers t))
      = (ofCounts p ⟨t, c.names⟩).fields := by
  refine Table.ext_find? fun k => ?_
  by_cases hk : k = addressesField
  · subst hk
    rw [Table.find?_insert_self, find?_addressesField]
  · rw [Table.find?_insert_of_ne _ _ hk]
    ext v
    rw [find?_ofCounts_iff, find?_ofCounts_iff]
    simp only [hk, false_and, or_false]

/-! ## Updates -/

/-- Laying counts over the names of an entry lays them over its table of names. -/
theorem overlay_names_ofCounts (p : Partition) (c : Counts) (l : List (String × Nat)) :
    (ofCounts p c).overlay namesField l
      = ofCounts p ⟨c.addresses, l.foldl (fun t b => t.insert b.1 b.2) c.names⟩ := by
  have hmembers : (ofCounts p c).tableMembers namesField = nameMembers c.names := by
    rw [tableMembers, find?_namesField]
  unfold overlay
  rw [hmembers, foldl_insert_nameMembers]
  exact congrArg (Entry.mk p) (insert_namesField p c _)

/-- Laying counts over the addresses of an entry lays them over its table of addresses. -/
theorem overlay_addresses_ofCounts (p : Partition) (c : Counts) (l : List (Address × Nat)) :
    (ofCounts p c).overlay addressesField (l.map fun b => (b.1.text, b.2))
      = ofCounts p ⟨l.foldl (fun t b => t.insert b.1 b.2) c.addresses, c.names⟩ := by
  have hmembers : (ofCounts p c).tableMembers addressesField = addressMembers c.addresses := by
    rw [tableMembers, find?_addressesField]
  unfold overlay
  rw [hmembers, foldl_insert_addressMembers]
  exact congrArg (Entry.mk p) (insert_addressesField p c _)

/-- Setting names in the entry of counts gives the entry of the counts with the names laid over
them. -/
theorem setNames_ofCounts (p : Partition) (c : Counts) (t : NameTable) :
    (ofCounts p c).setNames t = ofCounts p ⟨c.addresses, c.names.overlay t⟩ :=
  overlay_names_ofCounts p c t.entries

/-- Setting addresses in the entry of counts gives the entry of the counts with those laid over
them. -/
theorem setAddresses_ofCounts (p : Partition) (c : Counts) (t : AddressTable) :
    (ofCounts p c).setAddresses t = ofCounts p ⟨c.addresses.overlay t, c.names⟩ :=
  overlay_addresses_ofCounts p c t.entries

/-- A count that has room is raised without wrapping. -/
theorem nextCount_of_lt {n : Nat} (h : n + 1 < UInt64.size) : nextCount n = n + 1 :=
  Nat.mod_eq_of_lt h

/-- The counts that a reference raises leave room for it. -/
def Spare (c : Counts) (a : Address) (name : String) : Prop :=
  c.names.getD name 0 + 1 < UInt64.size ∧ c.addresses.getD a 0 + 1 < UInt64.size

instance (c : Counts) (a : Address) (name : String) : Decidable (Spare c a name) :=
  inferInstanceAs (Decidable (_ ∧ _))

/-- One reference more is recorded on both sides. -/
theorem increment_ofCounts (p : Partition) {c : Counts} {a : Address} {name : String}
    (h : Spare c a name) :
    (ofCounts p c).increment a name = .ok (ofCounts p (c.record a name)) := by
  have hnames := overlay_names_ofCounts p c [(name, c.names.getD name 0 + 1)]
  have haddresses := overlay_addresses_ofCounts p ⟨c.addresses, c.names.raise name 1⟩
    [(a, c.addresses.getD a 0 + 1)]
  unfold increment
  rw [names_ofCounts, addresses_ofCounts]
  show Except.ok (((ofCounts p c).overlay namesField [(name, nextCount _)]).overlay addressesField
    [(a.text, nextCount _)]) = _
  rw [nextCount_of_lt h.1, nextCount_of_lt h.2, hnames]
  exact congrArg Except.ok haddresses

end Entry

/-- Counts that fit with a reference recorded had room for it. -/
theorem Counts.Fits.spare {c : Counts} {a : Address} {name : String} (h : (c.record a name).Fits) :
    Entry.Spare c a name :=
  ⟨h.names name _ (Table.find?_insert_self _ _ _),
    h.addresses a _ (Table.find?_insert_self _ _ _)⟩

end TagCache
