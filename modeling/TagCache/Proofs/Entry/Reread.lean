import TagCache.Proofs.Entry.Tabulated
import TagCache.Proofs.Json.Parsed

/-!
# Entries that are read again and again

An entry that was read can be written and read again (`Entry.writable_of_parse`), and the doubles
among its other fields may change each time. Its counts are no doubles, so they stay what they are
(`Entry.Decodes.reread`), and an increment finds an entry that decodes and leaves one
(`Entry.Decodes.raised`). Where the tables have their written form the increment gives the
entry the counts with the reference recorded, and leaves its other fields alone
(`Entry.Tabulates.increment`).
-/

namespace TagCache

namespace Entry

variable {p : Partition} {e e' : Entry} {c : Counts}

/-! ## Reading -/

/-- The fields are the members of the object that was read. -/
theorem parse?_of_parse {text : String} (h : parse p text = .ok e) :
    Json.parse? text = some e.toJson := by
  unfold parse at h
  split at h
  · cases h
  · next members hparse =>
    cases h
    have hwritable := (Json.writable_of_parse? hparse).1
    -- the members stand in order, so that the table has them as they are
    have hentries := congrArg Table.entries (Table.ofList_eq hwritable.1)
    rw [hparse, toJson, hentries]
  · cases h

/-- An entry that was parsed can be written. -/
theorem writable_of_parse {text : String} (h : parse p text = .ok e) : e.Writable :=
  have hwritable := Json.writable_of_parse? (parse?_of_parse h)
  ⟨hwritable.1, hwritable.2⟩

/-- An entry that its text gives back can be written. -/
theorem Plain.writable (h : e.Plain) : e.Writable :=
  ⟨((Json.plain_iff _).1 h.value).1, h.depth⟩

/-! ## Tables after an overlay -/

/-- An update of a field lays counts over the members of that field. -/
theorem members_overlay_self (e : Entry) (field : String) (counts : List (String × Nat)) :
    (e.overlay field counts).members field
      = .ok (counts.foldl (fun ms b => Bindings.insert b.1 (.ofCount b.2) ms)
          (e.tableMembers field)) := by
  unfold members overlay
  simp only [Table.find?_insert_self]

/-- An update of a field leaves the members of the other ones. -/
theorem members_overlay_of_ne (e : Entry) {field field' : String} (h : field' ≠ field)
    (counts : List (String × Nat)) :
    (e.overlay field counts).members field' = e.members field' := by
  unfold members overlay
  simp only [Table.find?_insert_of_ne _ _ h]

/-! ## Tables of counts -/

/-- There is no double in a table whose values are counts. -/
theorem floatless_of_counts {ms : List (String × Json)} (h : ∀ b ∈ ms, ∃ n, b.2 = Json.ofCount n) :
    (Json.object ms).Floatless := by
  refine (Json.floatlessMembers_iff ms).2 fun b hb => ?_
  obtain ⟨n, hn⟩ := h b hb
  rw [hn]
  trivial

/-- Such a table is read again as it is. -/
theorem members_reread {field : String} {ms : List (String × Json)} (h : e.members field = .ok ms)
    (hms : ∀ b ∈ ms, ∃ n, b.2 = Json.ofCount n) : e.reread.members field = .ok ms := by
  have hsame : Json.rereadMembers ms = ms := Json.object.inj (floatless_of_counts hms).reread_eq
  have hfind : e.reread.fields.find? field = (e.fields.find? field).map (·.reread) :=
    Table.find?_mapValues _ _ _
  unfold members at h ⊢
  rw [hfind]
  cases hf : e.fields.find? field with
  | none =>
    rw [hf] at h
    exact h
  | some v =>
    rw [hf] at h
    cases v <;> cases h
    exact congrArg Except.ok hsame

/-- The members of a table of names hold counts. -/
theorem exists_ofCount_of_mem_nameMembers {t : NameTable} {b : String × Json}
    (hb : b ∈ nameMembers t) : ∃ n, b.2 = Json.ofCount n := by
  obtain ⟨c, -, rfl⟩ := List.mem_map.1 hb
  exact ⟨c.2, rfl⟩

/-- The members of a table of addresses hold counts. -/
theorem exists_ofCount_of_mem_addressMembers {t : AddressTable} {b : String × Json}
    (hb : b ∈ addressMembers t) : ∃ n, b.2 = Json.ofCount n := by
  obtain ⟨a, n, -, rfl⟩ := mem_addressMembers_iff.1 hb
  exact ⟨n, rfl⟩

/-- An entry that is read again tabulates the same counts. -/
theorem Tabulates.reread (h : e.Tabulates c) : e.reread.Tabulates c where
  names := members_reread h.names fun _ => exists_ofCount_of_mem_nameMembers
  addresses := members_reread h.addresses fun _ => exists_ofCount_of_mem_addressMembers

/-- The entry with other counts, and the same other fields. -/
def withCounts (e : Entry) (c : Counts) : Entry where
  partition := e.partition
  fields := (e.fields.insert namesField (.object (nameMembers c.names))).insert addressesField
    (.object (addressMembers c.addresses))

/-- Entries with the same counts are the same if they are so but for their counts. -/
theorem withCounts_withCounts (e : Entry) (c d : Counts) :
    (e.withCounts c).withCounts d = e.withCounts d := by
  unfold withCounts
  congr 1
  refine Table.ext_find? fun k => ?_
  by_cases ha : k = addressesField
  · subst ha
    rw [Table.find?_insert_self, Table.find?_insert_self]
  · by_cases hn : k = namesField
    · subst hn
      simp only [Table.find?_insert_of_ne _ _ ha, Table.find?_insert_self]
    · simp only [Table.find?_insert_of_ne _ _ ha, Table.find?_insert_of_ne _ _ hn]

/-- Counts may be given to an entry before it is read again or after that. -/
theorem reread_withCounts (e : Entry) (c : Counts) :
    (e.withCounts c).reread = e.reread.withCounts c := by
  have hnames := floatless_of_counts fun _ => exists_ofCount_of_mem_nameMembers (t := c.names)
  have haddresses :=
    floatless_of_counts fun _ => exists_ofCount_of_mem_addressMembers (t := c.addresses)
  unfold reread withCounts
  simp only [Table.mapValues_insert, hnames.reread_eq, haddresses.reread_eq]

/-- An entry that is given counts tabulates them. -/
theorem tabulates_withCounts (e : Entry) (c : Counts) : (e.withCounts c).Tabulates c := by
  constructor
  · unfold members withCounts
    simp only [Table.find?_insert_of_ne _ _ addressesField_ne_namesField.symm,
      Table.find?_insert_self]
  · unfold members withCounts
    simp only [Table.find?_insert_self]

/-! ## Entries that decode -/

/-- Names decode if every member holds a count. -/
theorem exists_decodeNames_iff {ms : List (String × Json)} :
    (∃ l, decodeNames ms = .ok l) ↔ ∀ b ∈ ms, ∃ n, b.2 = Json.ofCount n := by
  constructor
  · rintro ⟨l, hl⟩ b hb
    rw [eq_of_decodeNames hl] at hb
    obtain ⟨c, -, rfl⟩ := List.mem_map.1 hb
    exact ⟨c.2, rfl⟩
  · intro h
    induction ms with
    | nil => exact ⟨[], rfl⟩
    | cons b ms ih =>
      obtain ⟨k, v⟩ := b
      obtain ⟨n, hn⟩ := h (k, v) List.mem_cons_self
      obtain rfl : v = Json.ofCount n := hn
      obtain ⟨l, hl⟩ := ih fun b hb => h b (List.mem_cons_of_mem _ hb)
      refine ⟨(k, n) :: l, ?_⟩
      rw [decodeNames, count_ofCount, hl]
      rfl

/-- Addresses decode if every key is an address and every member holds a count. -/
theorem exists_decodeAddresses_iff {ms : List (String × Json)} :
    (∃ l, decodeAddresses ms = .ok l) ↔
      ∀ b ∈ ms, (∃ a, addressOf b.1 = .ok a) ∧ ∃ n, b.2 = Json.ofCount n := by
  constructor
  · rintro ⟨l, hl⟩
    induction ms generalizing l with
    | nil => exact fun b hb => absurd hb List.not_mem_nil
    | cons b ms ih =>
      obtain ⟨k, v⟩ := b
      obtain ⟨a, n, l', ha, rfl, hl', -⟩ := decodeAddresses_cons_eq_ok_iff.1 hl
      exact List.forall_mem_cons.2 ⟨⟨⟨a, addressOf_eq_ok_iff.2 ha⟩, n, rfl⟩, ih l' hl'⟩
  · intro h
    induction ms with
    | nil => exact ⟨[], rfl⟩
    | cons b ms ih =>
      obtain ⟨k, v⟩ := b
      obtain ⟨⟨a, ha⟩, n, hn⟩ := h (k, v) List.mem_cons_self
      obtain ⟨l, hl⟩ := ih fun b hb => h b (List.mem_cons_of_mem _ hb)
      exact ⟨(a, n) :: l,
        decodeAddresses_cons_eq_ok_iff.2 ⟨a, n, l, addressOf_eq_ok_iff.1 ha, hn, hl, rfl⟩⟩

/-- Both tables decode. -/
def Decodes (e : Entry) : Prop := ∃ c, e.counts = .ok c

/-- The tables are there or absent, their values are counts, and their keys are of their kind. -/
theorem decodes_iff : e.Decodes ↔
    (∃ ms, e.members namesField = .ok ms ∧ ∀ b ∈ ms, ∃ n, b.2 = Json.ofCount n) ∧
    ∃ ms, e.members addressesField = .ok ms ∧
      ∀ b ∈ ms, (∃ a, addressOf b.1 = .ok a) ∧ ∃ n, b.2 = Json.ofCount n := by
  constructor
  · rintro ⟨c, h⟩
    obtain ⟨addresses, haddresses, h⟩ := Except.exists_of_bind_eq_ok h
    obtain ⟨names, hnames, -⟩ := Except.exists_of_bind_eq_ok h
    obtain ⟨as, has, haddresses⟩ := Except.exists_of_bind_eq_ok haddresses
    obtain ⟨l, hl, -⟩ := Except.exists_of_bind_eq_ok haddresses
    obtain ⟨ns, hns, hnames⟩ := Except.exists_of_bind_eq_ok hnames
    obtain ⟨m, hm, -⟩ := Except.exists_of_bind_eq_ok hnames
    exact ⟨⟨ns, hns, exists_decodeNames_iff.1 ⟨m, hm⟩⟩, as, has,
      exists_decodeAddresses_iff.1 ⟨l, hl⟩⟩
  · rintro ⟨⟨ns, hns, hnames⟩, as, has, haddresses⟩
    obtain ⟨m, hm⟩ := exists_decodeNames_iff.2 hnames
    obtain ⟨l, hl⟩ := exists_decodeAddresses_iff.2 haddresses
    refine ⟨⟨Table.ofList l, Table.ofList m⟩, ?_⟩
    unfold Entry.counts Entry.addresses Entry.names
    rw [has, hns]
    show (do
      let addresses ← (do return Table.ofList (← decodeAddresses as))
      let names ← (do return Table.ofList (← decodeNames ns))
      return Counts.mk addresses names) = _
    rw [hl, hm]
    rfl

/-- An entry that decodes does so after it is read again. -/
theorem Decodes.reread (h : e.Decodes) : e.reread.Decodes := by
  obtain ⟨⟨ns, hns, hnames⟩, as, has, haddresses⟩ := decodes_iff.1 h
  exact decodes_iff.2 ⟨⟨ns, members_reread hns hnames, hnames⟩, as,
    members_reread has fun b hb => (haddresses b hb).2, haddresses⟩

/-! ## Increments -/

/-- What an increment makes of an entry that decodes, if its counts leave room. -/
def raised (e : Entry) (c : Counts) (a : Address) (name : String) : Entry :=
  (e.overlay namesField [(name, c.names.getD name 0 + 1)]).overlay addressesField
    [(a.text, c.addresses.getD a 0 + 1)]

/-- A reference is added to an entry that decodes by raising both counts, where they have room. -/
theorem increment_of_counts (h : e.counts = .ok c) {a : Address} {name : String}
    (hspare : Spare c a name) : e.increment a name = .ok (e.raised c a name) := by
  obtain ⟨addresses, haddresses, h⟩ := Except.exists_of_bind_eq_ok h
  obtain ⟨names, hnames, h⟩ := Except.exists_of_bind_eq_ok h
  cases h
  have hname : nextCount (names.getD name 0) = names.getD name 0 + 1 := nextCount_of_lt hspare.1
  have haddress : nextCount (addresses.getD a 0) = addresses.getD a 0 + 1 :=
    nextCount_of_lt hspare.2
  unfold increment raised
  rw [hnames, haddresses, ← hname, ← haddress]
  rfl

/-- An increment needs both tables. -/
theorem decodes_of_increment {a : Address} {name : String} (h : e.increment a name = .ok e') :
    e.Decodes := by
  obtain ⟨names, hnames, h⟩ := Except.exists_of_bind_eq_ok h
  obtain ⟨addresses, haddresses, -⟩ := Except.exists_of_bind_eq_ok h
  refine ⟨⟨addresses, names⟩, ?_⟩
  unfold Entry.counts
  rw [haddresses, hnames]
  rfl

/-- An entry that is raised can be written. -/
theorem Writable.raised (he : e.Writable) {a : Address} {name : String} (h : Spare c a name) :
    (e.raised c a name).Writable := by
  have hfirst : (e.overlay namesField [(name, c.names.getD name 0 + 1)]).Writable :=
    he.overlay namesField fun b hb => by
      rw [List.mem_singleton.1 hb]
      exact h.1
  exact hfirst.overlay addressesField fun b hb => by
    rw [List.mem_singleton.1 hb]
    exact h.2

/-- Each table has one member set. -/
theorem members_raised {ns as : List (String × Json)} (hns : e.members namesField = .ok ns)
    (has : e.members addressesField = .ok as) (c : Counts) (a : Address) (name : String) :
    (e.raised c a name).members namesField
        = .ok (Bindings.insert name (.ofCount (c.names.getD name 0 + 1)) ns) ∧
      (e.raised c a name).members addressesField
        = .ok (Bindings.insert a.text (.ofCount (c.addresses.getD a 0 + 1)) as) := by
  constructor
  · unfold Entry.raised
    rw [members_overlay_of_ne _ addressesField_ne_namesField.symm, members_overlay_self,
      tableMembers_of_members hns]
    rfl
  · have hfirst : (e.overlay namesField [(name, c.names.getD name 0 + 1)]).members addressesField
        = .ok as := by rw [members_overlay_of_ne _ addressesField_ne_namesField, has]
    unfold Entry.raised
    rw [members_overlay_self, tableMembers_of_members hfirst]
    rfl

/-- What decodes does so after an increment. -/
theorem Decodes.raised (h : e.Decodes) (he : e.Writable) (c : Counts) (a : Address)
    (name : String) : (e.raised c a name).Decodes := by
  obtain ⟨⟨ns, hns, hnames⟩, as, has, haddresses⟩ := decodes_iff.1 h
  obtain ⟨hnames', haddresses'⟩ := members_raised hns has c a name
  refine decodes_iff.2 ⟨⟨_, hnames', fun b hb => ?_⟩, _, haddresses', fun b hb => ?_⟩
  · rcases Bindings.eq_or_mem_of_mem_insert (he.ascending hns) hb with rfl | hb
    · exact ⟨_, rfl⟩
    · exact hnames b hb
  · rcases Bindings.eq_or_mem_of_mem_insert (he.ascending has) hb with rfl | hb
    · exact ⟨⟨a, by simp [addressOf]⟩, _, rfl⟩
    · exact haddresses b hb

/-- Where the tables have their written form, one reference more is recorded in both. -/
theorem Tabulates.increment (h : e.Tabulates c) {a : Address} {name : String}
    (hspare : Spare c a name) : e.increment a name = .ok (e.withCounts (c.record a name)) := by
  have hnames := insert_nameMembers c.names name (c.names.getD name 0 + 1)
  have haddresses := insert_addressMembers c.addresses a (c.addresses.getD a 0 + 1)
  have hfirst : e.overlay namesField [(name, c.names.getD name 0 + 1)] = ⟨e.partition,
      e.fields.insert namesField (.object (nameMembers (c.record a name).names))⟩ := by
    unfold overlay
    rw [tableMembers_of_members h.names]
    exact congrArg (fun ms => Entry.mk e.partition (e.fields.insert namesField (.object ms))) hnames
  have hmembers : (e.overlay namesField [(name, c.names.getD name 0 + 1)]).tableMembers
      addressesField = addressMembers c.addresses := by
    refine tableMembers_of_members ?_
    rw [members_overlay_of_ne _ addressesField_ne_namesField, h.addresses]
  rw [increment_of_counts h.counts hspare]
  refine congrArg Except.ok ?_
  unfold Entry.raised
  rw [overlay, hmembers, hfirst]
  exact congrArg (fun ms => Entry.mk e.partition ((e.fields.insert namesField _).insert
    addressesField (.object ms))) haddresses

end Entry

end TagCache
