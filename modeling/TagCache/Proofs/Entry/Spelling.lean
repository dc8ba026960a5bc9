import TagCache.Proofs.Counts
import TagCache.Proofs.Entry.Reread

/-!
# Updates of entries with other spellings

A table of addresses may be read from keys of any spelling, and the last of those of one address has
its count. Updates write under the written form only. So an update of an address is lost on the next
reading exactly if a later key spells the address (`Entry.shadows`); the names, whose keys have one
spelling, are always updated. An insertion of a written address settles both: what it makes of the
decoded table (`Entry.decodes_insert`), and that later keys shadow the same addresses as before
(`Entry.shadowedIn_insert`).
-/

namespace TagCache

namespace Entry

variable {p : Partition} {e : Entry} {c : Counts} {ms : List (String × Json)}
  {l : List (Address × Nat)}

/-! ## Later spellings -/

/-- Whether a key after the written form of an address spells the address too. -/
def shadowedIn (ms : List (String × Json)) (a : Address) : Bool :=
  ms.any fun b => decide (Address.parse? b.1 = some a ∧ compare a.text b.1 = .lt)

/-- Whether a key of the table of addresses comes after the written form of an address and spells
that address too. -/
def shadows (e : Entry) (a : Address) : Bool := shadowedIn (e.tableMembers addressesField) a

/-- An address is shadowed by another spelling of it that comes later than its own text. -/
theorem shadowedIn_eq_true_iff {a : Address} : shadowedIn ms a = true ↔
    ∃ b ∈ ms, Address.parse? b.1 = some a ∧ compare a.text b.1 = .lt := by
  simp [shadowedIn]

/-- An address is decoded if a key spells it. -/
theorem contains_decoded (hl : decodeAddresses ms = .ok l) {a : Address} :
    (Table.ofList l).contains a = true ↔ ∃ b ∈ ms, Address.parse? b.1 = some a := by
  induction ms generalizing l with
  | nil =>
    cases hl
    simp [Table.contains_eq, Table.ofList]
  | cons b ms ih =>
    obtain ⟨k, v⟩ := b
    obtain ⟨a', n, l', ha', rfl, hl', rfl⟩ := decodeAddresses_cons_eq_ok_iff.1 hl
    have hrest := ih hl'
    rw [Table.contains_eq] at hrest ⊢
    rw [Table.find?_ofList_cons, Option.isSome_or, Bool.or_eq_true, hrest]
    simp only [List.mem_cons, exists_eq_or_imp, ha', Option.some.injEq]
    rw [or_comm]
    refine or_congr ?_ Iff.rfl
    split
    · next h => simpa using (Std.LawfulEqOrd.compare_eq_iff_eq.1 h).symm
    · next h =>
      have hne : a' ≠ a := fun heq => h (heq ▸ Std.ReflOrd.compare_self)
      simp [hne]

/-- Where all keys are later, an address is shadowed if it is decoded. -/
theorem shadowedIn_eq_contains (hl : decodeAddresses ms = .ok l) {a : Address}
    (h : ∀ b ∈ ms, compare a.text b.1 = .lt) :
    shadowedIn ms a = (Table.ofList l).contains a := by
  rw [Bool.eq_iff_iff, shadowedIn_eq_true_iff, contains_decoded hl]
  refine exists_congr fun b => and_congr_right fun hb => ?_
  exact and_iff_left (h b hb)

/-- A written address that is inserted is decoded with its count unless a later key shadows it. -/
theorem decodes_insert (hasc : Bindings.Ascending ms) (hl : decodeAddresses ms = .ok l)
    (a : Address) (n : Nat) :
    ∃ l', decodeAddresses (Bindings.insert a.text (.ofCount n) ms) = .ok l' ∧
      Table.ofList l'
        = if shadowedIn ms a then Table.ofList l else (Table.ofList l).insert a n := by
  induction ms generalizing l with
  | nil =>
    cases hl
    refine ⟨[(a, n)], decodeAddresses_cons_eq_ok_iff.2 ?_, rfl⟩
    exact ⟨a, n, [], Address.parse?_text a, rfl, rfl, rfl⟩
  | cons b ms ih =>
    obtain ⟨k, v⟩ := b
    obtain ⟨hfirst, hrest⟩ := List.pairwise_cons.1 hasc
    obtain ⟨a', m, l₀, ha', rfl, hl₀, rfl⟩ := decodeAddresses_cons_eq_ok_iff.1 hl
    unfold Bindings.insert
    split
    · next hlt =>
      -- all keys are later
      have hlater : ∀ b ∈ (k, Json.ofCount m) :: ms, compare a.text b.1 = .lt :=
        List.forall_mem_cons.2 ⟨hlt, fun b hb => Std.TransCmp.lt_trans hlt (hfirst b hb)⟩
      refine ⟨(a, n) :: (a', m) :: l₀, decodeAddresses_cons_eq_ok_iff.2 ?_, ?_⟩
      · exact ⟨a, n, _, Address.parse?_text a, rfl, hl, rfl⟩
      · rw [shadowedIn_eq_contains hl hlater, Table.ofList_cons]
    · next heq =>
      -- the other keys are later
      obtain rfl := Std.LawfulEqOrd.compare_eq_iff_eq.1 heq
      rw [Address.parse?_text] at ha'
      cases ha'
      have hshadowed : shadowedIn ((a.text, Json.ofCount m) :: ms) a = shadowedIn ms a := by
        simp [shadowedIn]
      refine ⟨(a, n) :: l₀, decodeAddresses_cons_eq_ok_iff.2 ?_, ?_⟩
      · exact ⟨a, n, l₀, Address.parse?_text a, rfl, hl₀, rfl⟩
      · rw [hshadowed, shadowedIn_eq_contains hl₀ hfirst, Table.ofList_cons, Table.ofList_cons]
        split
        · rfl
        · rw [Table.insert_insert]
    · next hgt =>
      have hshadowed : shadowedIn ((k, Json.ofCount m) :: ms) a = shadowedIn ms a := by
        simp [shadowedIn, hgt]
      obtain ⟨l', hl', htable⟩ := ih hrest hl₀
      refine ⟨(a', m) :: l', decodeAddresses_cons_eq_ok_iff.2 ⟨a', m, l', ha', rfl, hl', rfl⟩, ?_⟩
      rw [hshadowed]
      refine Table.ext_find? fun x => ?_
      rw [Table.find?_ofList_cons, htable]
      split
      · rw [Table.find?_ofList_cons]
      · rw [Table.find?_insert, Table.find?_insert, Table.find?_ofList_cons]
        split <;> simp

/-- An insertion of a written address leaves it to the same addresses to be shadowed. -/
theorem shadowedIn_insert (hasc : Bindings.Ascending ms) (a b : Address) (v : Json) :
    shadowedIn (Bindings.insert a.text v ms) b = shadowedIn ms b := by
  -- a later key that spells the address is not the written form of any
  have hkey : ∀ k : String, Address.parse? k = some b → compare b.text k = .lt → k ≠ a.text := by
    rintro k hk hlt rfl
    rw [Address.parse?_text] at hk
    cases hk
    rw [Std.ReflOrd.compare_self] at hlt
    cases hlt
  rw [Bool.eq_iff_iff, shadowedIn_eq_true_iff, shadowedIn_eq_true_iff]
  refine exists_congr fun m => and_congr_left fun ⟨hm, hlt⟩ => ?_
  obtain ⟨k, w⟩ := m
  rw [← Bindings.find?_eq_some_iff hasc.insert, ← Bindings.find?_eq_some_iff hasc,
    Bindings.find?_insert_of_ne hasc (hkey k hm hlt)]

/-- Of written addresses that are inserted those are decoded that no later key shadows. -/
theorem decodes_foldl_insert (hasc : Bindings.Ascending ms) (hl : decodeAddresses ms = .ok l)
    (bs : List (Address × Nat)) :
    ∃ l', decodeAddresses ((bs.map fun b => (b.1.text, b.2)).foldl
        (fun ms b => Bindings.insert b.1 (.ofCount b.2) ms) ms) = .ok l' ∧
      Table.ofList l' = (bs.filter fun b => !shadowedIn ms b.1).foldl
        (fun t b => t.insert b.1 b.2) (Table.ofList l) := by
  induction bs generalizing ms l with
  | nil => exact ⟨l, hl, rfl⟩
  | cons b bs ih =>
    obtain ⟨l₁, hl₁, hfirst⟩ := decodes_insert hasc hl b.1 b.2
    obtain ⟨l', hl', hrest⟩ := ih hasc.insert hl₁
    refine ⟨l', hl', hrest.trans ?_⟩
    simp only [shadowedIn_insert hasc, hfirst]
    cases hb : shadowedIn ms b.1 <;> simp [hb]

/-! ## Updates -/

/-- The tables of the entry spell counts: the addresses under keys of any spelling, in key order. -/
structure Spells (e : Entry) (c : Counts) : Prop where
  names : e.members namesField = .ok (nameMembers c.names)
  addresses : ∃ ms l, e.members addressesField = .ok ms ∧ Bindings.Ascending ms ∧
    decodeAddresses ms = .ok l ∧ Table.ofList l = c.addresses

/-- What is spelled is what is decoded. -/
theorem Spells.counts (h : e.Spells c) : e.counts = .ok c := by
  obtain ⟨ms, l, hms, -, hl, htable⟩ := h.addresses
  have haddresses : e.addresses = .ok (Table.ofList l) := by
    unfold Entry.addresses
    rw [hms]
    show (do return Table.ofList (← decodeAddresses ms)) = _
    rw [hl]
    rfl
  unfold Entry.counts
  rw [haddresses, names_of_members h.names, htable]
  rfl

/-- A writable entry spells what it decodes to. -/
theorem Writable.spells (he : e.Writable) (h : e.counts = .ok c) : e.Spells c := by
  obtain ⟨addresses, haddresses, h⟩ := Except.exists_of_bind_eq_ok h
  obtain ⟨names, hnames, h⟩ := Except.exists_of_bind_eq_ok h
  cases h
  obtain ⟨ms, hms, haddresses⟩ := Except.exists_of_bind_eq_ok haddresses
  obtain ⟨l, hl, haddresses⟩ := Except.exists_of_bind_eq_ok haddresses
  cases haddresses
  exact ⟨he.members_names hnames, ms, l, hms, he.ascending hms, hl, rfl⟩

/-- An overlay of names gives all of them their counts. -/
theorem Spells.overlay_names (h : e.Spells c) (bs : List (String × Nat)) :
    (e.overlay namesField bs).Spells
      ⟨c.addresses, bs.foldl (fun t b => t.insert b.1 b.2) c.names⟩ where
  names := by
    rw [members_overlay_self, tableMembers_of_members h.names, foldl_insert_nameMembers]
  addresses := by
    rw [members_overlay_of_ne _ addressesField_ne_namesField]
    exact h.addresses

/-- An overlay of written addresses gives those their counts that no later key shadows. -/
theorem Spells.overlay_addresses (h : e.Spells c) (bs : List (Address × Nat)) :
    (e.overlay addressesField (bs.map fun b => (b.1.text, b.2))).Spells
      ⟨(bs.filter fun b => !e.shadows b.1).foldl (fun t b => t.insert b.1 b.2) c.addresses,
        c.names⟩ := by
  obtain ⟨ms, l, hms, hasc, hl, htable⟩ := h.addresses
  obtain ⟨l', hl', hlaid⟩ := decodes_foldl_insert hasc hl bs
  have hordered := Bindings.Ascending.foldl_insert
    (l := (bs.map fun b => (b.1.text, b.2)).map fun b => (b.1, Json.ofCount b.2)) hasc
  rw [List.foldl_map] at hordered
  constructor
  · rw [members_overlay_of_ne _ addressesField_ne_namesField.symm]
    exact h.names
  · refine ⟨_, l', ?_, hordered, hl', ?_⟩
    · rw [members_overlay_self, tableMembers_of_members hms]
    · unfold shadows
      rw [tableMembers_of_members hms, ← htable]
      exact hlaid

/-- Names shadow no addresses. -/
theorem shadows_overlay_names (e : Entry) (bs : List (String × Nat)) (a : Address) :
    (e.overlay namesField bs).shadows a = e.shadows a := by
  unfold shadows tableMembers overlay
  simp only [Table.find?_insert_of_ne _ _ addressesField_ne_namesField]

/-- An increment records its reference, but for the address if a later key shadows it. -/
theorem Spells.raised (h : e.Spells c) (a : Address) (name : String) :
    (e.raised c a name).Spells
      ⟨if e.shadows a then c.addresses else c.addresses.raise a 1, c.names.raise name 1⟩ := by
  have hboth := (h.overlay_names [(name, c.names.getD name 0 + 1)]).overlay_addresses
    [(a, c.addresses.getD a 0 + 1)]
  have htable : ([(a, c.addresses.getD a 0 + 1)].filter fun b =>
      !(e.overlay namesField [(name, c.names.getD name 0 + 1)]).shadows b.1).foldl
        (fun t b => t.insert b.1 b.2) c.addresses
      = if e.shadows a then c.addresses else c.addresses.raise a 1 := by
    simp only [shadows_overlay_names]
    cases ha : e.shadows a <;> simp [ha, Table.raise]
  rw [htable] at hboth
  exact hboth

end Entry

/-- Of an entry that was read and decodes, an update changes what was asked for and nothing else,
but for addresses that a later key spells too: their counts stay what they are. An increment is
meant to find counts with room for it. -/
theorem updates_miss_shadowed_addresses {p : Partition} {text : String} {e : Entry} {c : Counts}
    (hparse : Entry.parse p text = .ok e) (hcounts : e.counts = .ok c) :
    (∀ a name, Entry.Spare c a name → ∃ e', e.increment a name = .ok e' ∧
      e'.counts = .ok ⟨if e.shadows a then c.addresses else c.addresses.raise a 1,
        c.names.raise name 1⟩ ∧
      (e'.counts = .ok (c.record a name) ↔ e.shadows a = false)) ∧
    (∀ t, (e.setAddresses t).counts
      = .ok ⟨c.addresses.overlay (t.filter fun a _ => !e.shadows a), c.names⟩) ∧
    ∀ t, (e.setNames t).counts = .ok ⟨c.addresses, c.names.overlay t⟩ := by
  have h := (Entry.writable_of_parse hparse).spells hcounts
  refine ⟨fun a name hspare => ?_, fun t => ?_, fun t => ?_⟩
  · refine ⟨_, Entry.increment_of_counts hcounts hspare, (h.raised a name).counts, ?_⟩
    rw [(h.raised a name).counts, Except.ok.injEq, Counts.record]
    cases e.shadows a with
    | false => simp
    | true =>
      -- the count would have to be one more than it is
      refine iff_of_false (fun heq => ?_) Bool.noConfusion
      have hcount : c.addresses.getD a 0 = (c.addresses.raise a 1).getD a 0 :=
        congrArg (fun d : Counts => d.addresses.getD a 0) heq
      rw [Table.getD_raise, if_pos rfl] at hcount
      omega
  · exact (h.overlay_addresses t.entries).counts
  · exact (h.overlay_names t.entries).counts

/-- An entry that has an address in decimal only, which comes after its written form. -/
def Entry.respelled : Entry where
  partition := .contents 16
  fields := Table.ofList [(addressesField, .object [("16", .ofCount 5)]),
    (namesField, .object [("x", .ofCount 5)])]

/-- The text of that entry. -/
def Entry.respelledText : String :=
  "\x7b\"__address__\":\x7b\"16\":5\x7d,\"__tags__\":\x7b\"x\":5\x7d\x7d"

/-- The entry with another spelling is given back by its text. -/
theorem Entry.plain_respelled : respelled.Plain where
  value := by
    show Json.Plain (.object [(addressesField, .object [("16", .ofCount 5)]),
      (namesField, .object [("x", .ofCount 5)])])
    have hcount : (Json.ofCount 5).Plain := Json.plain_ofCount (by decide)
    simp [Json.Plain, Json.PlainMembers, Bindings.Ascending, hcount, addressesField, namesField]
    decide
  depth := by decide

/-- Its text parses to it. -/
theorem Entry.parse_respelled : parse (.contents 16) respelledText = .ok respelled := by
  have hpartition : respelled.partition = .contents 16 := rfl
  have htext : respelled.text = respelledText := by decide +kernel
  rw [← hpartition, ← htext]
  exact parse_text plain_respelled

/-- It decodes to the counts under that spelling. -/
theorem Entry.counts_respelled :
    respelled.counts = .ok ⟨.ofList [(16, 5)], .ofList [("x", 5)]⟩ := by
  decide +kernel

/-- A reference and a set count are missed at the address that is spelled otherwise. -/
theorem updates_miss_shadowed_addresses_respelled :
    Entry.parse (.contents 16) Entry.respelledText = .ok .respelled ∧
    Entry.respelled.counts = .ok ⟨.ofList [(16, 5)], .ofList [("x", 5)]⟩ ∧
    (∃ e', Entry.respelled.increment 16 "x" = .ok e' ∧
      e'.counts = .ok ⟨.ofList [(16, 5)], .ofList [("x", 6)]⟩) ∧
    (Entry.respelled.setAddresses (.ofList [(16, 9), (20, 1)])).counts
      = .ok ⟨.ofList [(16, 5), (20, 1)], .ofList [("x", 5)]⟩ := by
  obtain ⟨hincrement, haddresses, -⟩ :=
    updates_miss_shadowed_addresses Entry.parse_respelled Entry.counts_respelled
  obtain ⟨e', he', hcounts, -⟩ := hincrement 16 "x" (by decide +kernel)
  refine ⟨Entry.parse_respelled, Entry.counts_respelled, ⟨e', he', hcounts.trans ?_⟩,
    (haddresses _).trans ?_⟩ <;> decide +kernel

/-- The reference from an address that a later key shadows is lost. -/
theorem increment_loses_shadowed_address :
    ¬∀ p text e c, Entry.parse p text = .ok e → e.counts = .ok c →
      (∀ b m, c.addresses.find? b = some m → m < UInt64.size - 1) →
      (∀ k m, c.names.find? k = some m → m < UInt64.size - 1) →
      ∀ a name e', e.increment a name = .ok e' → e'.counts = .ok (c.record a name) := by
  intro h
  have hcounts := h _ _ _ _ Entry.parse_respelled Entry.counts_respelled ?_ ?_ 16 "x" _
    (Entry.increment_of_counts Entry.counts_respelled (by decide +kernel))
  · have hlost : (Entry.respelled.raised ⟨.ofList [(16, 5)], .ofList [("x", 5)]⟩ 16 "x").counts
        ≠ .ok (Counts.record ⟨.ofList [(16, 5)], .ofList [("x", 5)]⟩ 16 "x") := by
      decide +kernel
    exact hlost hcounts
  · intro b m hm
    have hmem : (b, m) ∈ [((16 : Address), 5)] := Table.find?_eq_some_iff.1 hm
    obtain ⟨-, rfl⟩ := Prod.mk.inj (List.mem_singleton.1 hmem)
    decide
  · intro k m hm
    have hmem : (k, m) ∈ [("x", 5)] := Table.find?_eq_some_iff.1 hm
    obtain ⟨-, rfl⟩ := Prod.mk.inj (List.mem_singleton.1 hmem)
    decide

end TagCache
