import TagCache.Entry
import TagCache.Proofs.Json.RoundTrip

/-!
# Laws of cache entries

The text of an entry reads back as the entry (`Entry.parse_text`), as long as its fields are plain
values; updates with counts of 64 bits keep it so (`Entry.Plain.overlay`). An entry made from counts
has the two expected fields and no other (`Entry.keys_ofCounts`), and decodes to those counts
(`Entry.counts_ofCounts`).
-/

namespace TagCache

/-- Counts that a 64-bit word holds. -/
structure Counts.Fits (c : Counts) : Prop where
  addresses : ∀ a n, c.addresses.find? a = some n → n < UInt64.size
  names : ∀ k n, c.names.find? k = some n → n < UInt64.size

/-- A count of 64 bits is given back by its text. -/
theorem Json.plain_ofCount {n : Nat} (h : n < UInt64.size) : (Json.ofCount n).Plain := by
  refine ⟨?_, ?_⟩
  · have : (0 : Int) ≤ Literal.signedCount := by decide
    omega
  · exact_mod_cast h

namespace Entry

/-- An entry that its text gives back. -/
structure Plain (e : Entry) : Prop where
  value : e.toJson.Plain
  depth : e.toJson.depth ≤ Json.maxDepth

/-- An entry that can be read from its text. -/
structure Writable (e : Entry) : Prop where
  value : e.toJson.Writable
  depth : e.toJson.depth ≤ Json.maxDepth

/-- What the text of the entry is read as. -/
def reread (e : Entry) : Entry := { e with fields := e.fields.mapValues fun _ v => v.reread }

/-- The form of an entry is read again field by field. -/
theorem toJson_reread (e : Entry) : e.reread.toJson = e.toJson.reread :=
  congrArg Json.object (Json.rereadMembers_eq e.fields.entries).symm

/-- The text of an entry that can be written is read as the entry read again. -/
theorem parse_text_of_writable {e : Entry} (h : e.Writable) :
    parse e.partition e.text = .ok e.reread := by
  unfold parse text
  rw [Json.parse?_compact_of_writable h.value h.depth, ← toJson_reread]
  simp [toJson, reread]

/-- The text of an entry reads back. -/
theorem parse_text {e : Entry} (h : e.Plain) : parse e.partition e.text = .ok e := by
  unfold parse text
  rw [Json.parse?_compact h.value h.depth]
  simp [toJson]

/-- The two tables are fields of their own. -/
theorem addressesField_ne_namesField : addressesField ≠ namesField := by decide

/-! ## Overlays -/

/-- The bindings that an overlay inserts. -/
theorem overlay_eq (e : Entry) (field : String) (counts : List (String × Nat)) :
    e.overlay field counts = { e with fields := e.fields.insert field (.object
      ((counts.map fun b => (b.1, Json.ofCount b.2)).foldl
        (fun ms b => Bindings.insert b.1 b.2 ms) (e.tableMembers field))) } := by
  unfold overlay
  rw [List.foldl_map]

section
variable {P : Json → Prop} (hP : Json.Hereditary P) {e : Entry}
include hP

/-- The members of a table stand in key order, and have what the fields have. -/
theorem hereditary_tableMembers (h : P e.toJson) (field : String) :
    Bindings.Ascending (e.tableMembers field) ∧ ∀ b ∈ e.tableMembers field, P b.2 := by
  unfold Entry.tableMembers
  split
  · next ms hf => exact (hP ms).1 (((hP _).1 h).2 _ (Table.find?_eq_some_iff.1 hf))
  · exact ⟨.nil, fun b hb => absurd hb List.not_mem_nil⟩

/-- So do those of a table with counts laid over it. -/
theorem hereditary_overlay (h : P e.toJson) (field : String) {counts : List (String × Nat)}
    (hc : ∀ b ∈ counts, P (.ofCount b.2)) : P (e.overlay field counts).toJson := by
  obtain ⟨hasc, hmem⟩ := hereditary_tableMembers hP h field
  rw [overlay_eq]
  refine (hP _).2 ⟨Table.ascending _, fun b hb => ?_⟩
  rcases Bindings.eq_or_mem_of_mem_insert e.fields.ascending hb with rfl | hb
  · refine (hP _).2 ⟨hasc.foldl_insert, fun b hb => ?_⟩
    rcases Bindings.mem_or_mem_of_mem_foldl_insert hasc hb with hb | hb
    · obtain ⟨c, hcm, rfl⟩ := List.mem_map.1 hb
      exact hc c hcm
    · exact hmem b hb
  · exact ((hP _).1 h).2 b hb

end

/-- The members of a table lie two levels below the entry. -/
theorem depth_tableMembers_le {e : Entry} {n : Nat} (h : e.toJson.depth ≤ n + 2) (field : String) :
    ∀ b ∈ e.tableMembers field, b.2.depth ≤ n := by
  have hfields := (Json.depthMembers_le_iff e.fields.entries (n + 1)).1 (Nat.le_of_succ_le_succ h)
  unfold Entry.tableMembers
  split
  · next ms hf =>
    have hmembers := hfields _ (Table.find?_eq_some_iff.1 hf)
    exact (Json.depthMembers_le_iff ms n).1 (Nat.le_of_succ_le_succ hmembers)
  · exact fun b hb => absurd hb List.not_mem_nil

/-- Counts that are laid over a table nest no deeper than tables do. -/
theorem depth_overlay_le {e : Entry} {n : Nat} (h : e.toJson.depth ≤ n + 2) {field : String}
    (hasc : Bindings.Ascending (e.tableMembers field)) (counts : List (String × Nat)) :
    (e.overlay field counts).toJson.depth ≤ n + 2 := by
  have hfields := (Json.depthMembers_le_iff e.fields.entries (n + 1)).1 (Nat.le_of_succ_le_succ h)
  rw [overlay_eq]
  refine Nat.succ_le_succ ((Json.depthMembers_le_iff _ (n + 1)).2 fun b hb => ?_)
  rcases Bindings.eq_or_mem_of_mem_insert e.fields.ascending hb with rfl | hb
  · refine Nat.succ_le_succ ((Json.depthMembers_le_iff _ n).2 fun b hb => ?_)
    rcases Bindings.mem_or_mem_of_mem_foldl_insert hasc hb with hb | hb
    · obtain ⟨c, -, rfl⟩ := List.mem_map.1 hb
      exact Nat.zero_le n
    · exact depth_tableMembers_le h field b hb
  · exact hfields b hb

/-- An overlay with counts of 64 bits keeps an entry plain. -/
theorem Plain.overlay {e : Entry} (h : e.Plain) (field : String) {counts : List (String × Nat)}
    (hc : ∀ b ∈ counts, b.2 < UInt64.size) : (e.overlay field counts).Plain := by
  have hasc := (hereditary_tableMembers Json.hereditary_plain h.value field).1
  exact ⟨hereditary_overlay Json.hereditary_plain h.value field fun b hb =>
    Json.plain_ofCount (hc b hb), depth_overlay_le h.depth hasc counts⟩

/-- So it keeps a writable entry writable. -/
theorem Writable.overlay {e : Entry} (h : e.Writable) (field : String)
    {counts : List (String × Nat)} (hc : ∀ b ∈ counts, b.2 < UInt64.size) :
    (e.overlay field counts).Writable := by
  have hasc := (hereditary_tableMembers Json.hereditary_writable h.value field).1
  exact ⟨hereditary_overlay Json.hereditary_writable h.value field fun b hb =>
    Json.plain_ofCount (hc b hb), depth_overlay_le h.depth hasc counts⟩

/-- An empty entry has the two tables, without members. -/
theorem entries_empty (p : Partition) :
    (empty p).fields.entries = [(addressesField, .object []), (namesField, .object [])] := by
  show (Table.ofList [(namesField, Json.object []), (addressesField, .object [])]).entries = _
  decide

/-- An empty entry is given back by its text. -/
theorem plain_empty (p : Partition) : (empty p).Plain := by
  refine ⟨⟨(empty p).fields.ascending, ?_⟩, ?_⟩
  · rw [entries_empty]
    simp [Json.Plain, Json.PlainMembers, Bindings.Ascending]
  · show Json.depthMembers (empty p).fields.entries + 1 ≤ _
    rw [entries_empty]
    decide

/-- Setting names that fit keeps an entry plain. -/
theorem Plain.setNames {e : Entry} (h : e.Plain) {t : NameTable}
    (ht : ∀ k n, t.find? k = some n → n < UInt64.size) : (e.setNames t).Plain :=
  h.overlay namesField fun b hb => ht b.1 b.2 (Table.find?_eq_some_iff.2 hb)

/-- Setting addresses that fit keeps an entry plain. -/
theorem Plain.setAddresses {e : Entry} (h : e.Plain) {t : AddressTable}
    (ht : ∀ a n, t.find? a = some n → n < UInt64.size) : (e.setAddresses t).Plain := by
  refine h.overlay addressesField fun b hb => ?_
  obtain ⟨c, hc, rfl⟩ := List.mem_map.1 hb
  exact ht c.1 c.2 (Table.find?_eq_some_iff.2 hc)

/-! ## Entries made from counts -/

/-- The written form of a table of names. -/
def nameMembers (t : NameTable) : List (String × Json) :=
  (t.mapValues fun _ n => Json.ofCount n).entries

/-- The written form of a table of addresses, in the order of the texts. -/
def addressMembers (t : AddressTable) : List (String × Json) :=
  (t.entries.map fun b => (b.1.text, Json.ofCount b.2)).foldl
    (fun ms b => Bindings.insert b.1 b.2 ms) []

/-- The members of a table of addresses have ascending keys. -/
theorem ascending_addressMembers (t : AddressTable) :
    Bindings.Ascending (addressMembers t) := Bindings.Ascending.foldl_insert .nil

/-- No two addresses have the same text. -/
theorem nodup_texts (t : AddressTable) :
    ((t.entries.map fun b => (b.1.text, Json.ofCount b.2)).map (·.1)).Nodup := by
  have hkeys : (t.keys.map Address.text).Nodup :=
    List.pairwise_map.2 (t.nodup_keys.imp fun hne h => hne (Address.text_injective h))
  simpa [Table.keys, Function.comp_def] using hkeys

/-- The members of a table of addresses are the texts of its keys with their counts. -/
theorem mem_addressMembers_iff {t : AddressTable} {b : String × Json} :
    b ∈ addressMembers t ↔ ∃ a n, t.find? a = some n ∧ b = (a.text, Json.ofCount n) := by
  constructor
  · intro hb
    rcases Bindings.mem_or_mem_of_mem_foldl_insert .nil hb with hb | hb
    · obtain ⟨⟨a, n⟩, hc, rfl⟩ := List.mem_map.1 hb
      exact ⟨a, n, Table.find?_eq_some_iff.2 hc, rfl⟩
    · cases hb
  · rintro ⟨a, n, hn, rfl⟩
    refine (Bindings.find?_eq_some_iff (ascending_addressMembers t)).1 ?_
    refine Bindings.find?_foldl_insert_of_mem .nil (nodup_texts t) ?_
    exact List.mem_map.2 ⟨(a, n), Table.find?_eq_some_iff.1 hn, rfl⟩

/-- The table of names goes in as it is, since it is in the order of its texts already. -/
theorem nameMembers_eq (t : NameTable) :
    (t.entries.map fun b => (b.1, Json.ofCount b.2)).foldl
      (fun ms b => Bindings.insert b.1 b.2 ms) [] = nameMembers t := by
  have hasc : Bindings.Ascending (nameMembers t) :=
    (t.mapValues fun _ n => Json.ofCount n).ascending
  have hof := congrArg Table.entries (Table.ofList_eq hasc)
  unfold Table.ofList at hof
  rw [Table.foldl_insert_entries] at hof
  exact hof

/-- An entry made from counts has the two tables, and no other field. -/
theorem fields_ofCounts (p : Partition) (c : Counts) :
    (ofCounts p c).fields = Table.ofList
      [(namesField, .object (nameMembers c.names)),
       (addressesField, .object (addressMembers c.addresses))] := by
  have hempty : (empty p).fields
      = ((∅ : Table String Json).insert namesField (.object [])).insert addressesField
          (.object []) := rfl
  have hfirst : ((empty p).setNames c.names).fields
      = (empty p).fields.insert namesField (.object (nameMembers c.names)) := by
    unfold setNames
    rw [overlay_eq, ← nameMembers_eq]
    have : (empty p).tableMembers namesField = [] := by
      rw [tableMembers, hempty, Table.find?_insert_of_ne _ _ addressesField_ne_namesField.symm]
      simp
    rw [this]
  have hsecond : ((empty p).setNames c.names).tableMembers addressesField = [] := by
    rw [tableMembers, hfirst, hempty, Table.find?_insert_of_ne _ _ addressesField_ne_namesField]
    simp
  have hboth : (ofCounts p c).fields
      = ((empty p).fields.insert namesField (.object (nameMembers c.names))).insert
          addressesField (.object (addressMembers c.addresses)) := by
    unfold ofCounts setAddresses
    rw [overlay_eq, hsecond, hfirst, List.map_map]
    rfl
  rw [hboth, hempty]
  refine Table.ext_find? fun k => ?_
  show _ = (((∅ : Table String Json).insert namesField _).insert addressesField _).find? k
  simp only [Table.find?_insert]
  by_cases ha : k = addressesField
  · simp [ha]
  · by_cases hn : k = namesField <;> simp [ha, hn]

/-- The entry of counts has the two tables and no other field. -/
theorem find?_ofCounts_iff {p : Partition} {c : Counts} {k : String} {v : Json} :
    (ofCounts p c).fields.find? k = some v ↔
      (k = namesField ∧ v = .object (nameMembers c.names)) ∨
      (k = addressesField ∧ v = .object (addressMembers c.addresses)) := by
  rw [fields_ofCounts, Table.find?_ofList_eq_some_iff]
  · simp
  · simpa using addressesField_ne_namesField.symm

/-- Its names are those of the counts. -/
theorem find?_namesField (p : Partition) (c : Counts) :
    (ofCounts p c).fields.find? namesField = some (.object (nameMembers c.names)) :=
  find?_ofCounts_iff.2 (.inl ⟨rfl, rfl⟩)

/-- Its addresses are those of the counts. -/
theorem find?_addressesField (p : Partition) (c : Counts) :
    (ofCounts p c).fields.find? addressesField = some (.object (addressMembers c.addresses)) :=
  find?_ofCounts_iff.2 (.inr ⟨rfl, rfl⟩)

/-- It is of the partition that it was made for. -/
@[simp] theorem partition_ofCounts (p : Partition) (c : Counts) : (ofCounts p c).partition = p :=
  rfl

/-- An entry made from counts has exactly the expected fields. -/
theorem keys_ofCounts (p : Partition) (c : Counts) : (ofCounts p c).keys = expectedFields := by
  refine Table.ext_contains fun k => ?_
  rw [Bool.eq_iff_iff]
  unfold keys expectedFields
  rw [KeySet.contains_ofList, KeySet.contains_ofList, Table.mem_keys_iff]
  simp only [find?_ofCounts_iff, List.mem_cons, List.not_mem_nil, or_false]
  constructor
  · rintro ⟨v, ⟨rfl, -⟩ | ⟨rfl, -⟩⟩ <;> simp
  · rintro (rfl | rfl)
    · exact ⟨_, .inl ⟨rfl, rfl⟩⟩
    · exact ⟨_, .inr ⟨rfl, rfl⟩⟩

/-- A count is read back. -/
theorem count_ofCount (n : Nat) : count (.ofCount n) = .ok n := by
  simp [count, Json.ofCount, Json.count?]

/-- Written names decode in their order. -/
theorem decodeNames_ofCount (l : List (String × Nat)) :
    decodeNames (l.map fun b => (b.1, Json.ofCount b.2)) = .ok l := by
  induction l with
  | nil => rfl
  | cons b l ih =>
    rw [List.map_cons, decodeNames, count_ofCount, ih]
    rfl

/-- Written addresses decode in the order of their texts. -/
theorem decodeAddresses_text (l : List (Address × Nat)) :
    decodeAddresses (l.map fun b => (b.1.text, Json.ofCount b.2)) = .ok l := by
  induction l with
  | nil => rfl
  | cons b l ih =>
    have haddress : addressOf b.1.text = .ok b.1 := by simp [addressOf]
    rw [List.map_cons, decodeAddresses, haddress, count_ofCount, ih]
    rfl

/-- A written table of names decodes to itself. -/
theorem names_of_members {e : Entry} {t : NameTable}
    (h : e.members namesField = .ok (nameMembers t)) : e.names = .ok t := by
  unfold names
  rw [h]
  show (do return Table.ofList (← decodeNames (nameMembers t))) = _
  have hdecode : decodeNames (nameMembers t) = .ok t.entries := decodeNames_ofCount t.entries
  rw [hdecode]
  exact congrArg Except.ok (Table.ofList_entries t)

/-- The members of the names are those of the counts. -/
theorem members_namesField (p : Partition) (c : Counts) :
    (ofCounts p c).members namesField = .ok (nameMembers c.names) := by
  unfold members
  rw [find?_namesField]

/-- The names of counts are decoded from their entry. -/
theorem names_ofCounts (p : Partition) (c : Counts) : (ofCounts p c).names = .ok c.names :=
  names_of_members (members_namesField p c)

/-- A list all of whose keys are written addresses comes from a list of addresses. -/
theorem exists_addresses (ms : List (String × Json))
    (h : ∀ b ∈ ms, ∃ a n, b = (Address.text a, Json.ofCount n)) :
    ∃ l : List (Address × Nat), ms = l.map fun b => (b.1.text, Json.ofCount b.2) := by
  induction ms with
  | nil => exact ⟨[], rfl⟩
  | cons b ms ih =>
    obtain ⟨a, n, rfl⟩ := h b List.mem_cons_self
    obtain ⟨l, hl⟩ := ih fun b hb => h b (List.mem_cons_of_mem _ hb)
    exact ⟨(a, n) :: l, by rw [List.map_cons, ← hl]⟩

/-- A written table of addresses decodes to itself. -/
theorem addresses_of_members {e : Entry} {t : AddressTable}
    (h : e.members addressesField = .ok (addressMembers t)) : e.addresses = .ok t := by
  obtain ⟨l, hl⟩ := exists_addresses (addressMembers t) fun b hb =>
    let ⟨a, n, _, h⟩ := mem_addressMembers_iff.1 hb
    ⟨a, n, h⟩
  have hkeys : (l.map (·.1)).Nodup := by
    have := (ascending_addressMembers t).nodup_keys
    rw [hl, List.map_map] at this
    exact (List.pairwise_map.1 this).map _ fun a b hab he => hab (congrArg Address.text he)
  have htable : Table.ofList l = t := by
    refine Table.ext_find? fun a => ?_
    ext n
    rw [Table.find?_ofList_eq_some_iff hkeys]
    have hmem : (a, n) ∈ l ↔ (a.text, Json.ofCount n) ∈ addressMembers t := by
      rw [hl, List.mem_map]
      constructor
      · exact fun h => ⟨(a, n), h, rfl⟩
      · rintro ⟨⟨b, m⟩, hb, he⟩
        simp only [Prod.mk.injEq, Json.ofCount, Json.int.injEq, Int.natCast_inj] at he
        rw [Address.text_injective he.1, he.2] at hb
        exact hb
    rw [hmem, mem_addressMembers_iff]
    constructor
    · rintro ⟨b, m, hb, he⟩
      simp only [Prod.mk.injEq, Json.ofCount, Json.int.injEq, Int.natCast_inj] at he
      rw [Address.text_injective he.1, he.2]
      exact hb
    · exact fun h => ⟨a, n, h, rfl⟩
  unfold addresses
  rw [h, hl]
  show (do return Table.ofList (← decodeAddresses _)) = _
  rw [decodeAddresses_text]
  exact congrArg Except.ok htable

/-- The members of the addresses are those of the counts. -/
theorem members_addressesField (p : Partition) (c : Counts) :
    (ofCounts p c).members addressesField = .ok (addressMembers c.addresses) := by
  unfold members
  rw [find?_addressesField]

/-- The addresses of counts are decoded from their entry. -/
theorem addresses_ofCounts (p : Partition) (c : Counts) :
    (ofCounts p c).addresses = .ok c.addresses :=
  addresses_of_members (members_addressesField p c)

/-- An entry made from counts decodes to them. -/
theorem counts_ofCounts (p : Partition) (c : Counts) : (ofCounts p c).counts = .ok c := by
  unfold counts
  rw [addresses_ofCounts, names_ofCounts]
  rfl

/-- The entry of counts that fit is given back by its text. -/
theorem plain_ofCounts (p : Partition) {c : Counts} (hc : c.Fits) : (ofCounts p c).Plain :=
  ((plain_empty p).setNames hc.names).setAddresses hc.addresses

/-- The text of an entry made from counts reads back. -/
theorem parse_ofCounts (p : Partition) {c : Counts} (hc : c.Fits) :
    parse p (ofCounts p c).text = .ok (ofCounts p c) :=
  parse_text (plain_ofCounts p hc)

end Entry

end TagCache
