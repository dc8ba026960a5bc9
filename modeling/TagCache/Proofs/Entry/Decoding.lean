import Mathlib.Data.String.Basic
import TagCache.Proofs.Entry.Spelling

/-!
# Decoding cache entries

Which entries decode, to what, and what is reported of the others. A table decodes member by member
(`Entry.decodeNames_eq_mapM`, `Entry.decodeAddresses_eq_mapM`), so the first faulty member in the
order of the keys is reported (`mapM_eq_error_iff_first`), and a field that holds no table is
reported itself: `Entry.TableFault` says both. An address has the count of the greatest key that
spells it (`Entry.find?_decoded_iff`). The faults of the addresses go before those of the names, and
entries made from counts have none (`counts_decode`).
-/

namespace TagCache

/-! ## Lists that are read in order -/

section
variable {ε α β : Type} {f : α → Except ε β}

/-- A list is mapped if each of its elements can be. -/
theorem exists_mapM_eq_ok_iff {l : List α} :
    (∃ bs, l.mapM f = .ok bs) ↔ ∀ a ∈ l, ∃ b, f a = .ok b := by
  induction l with
  | nil => simpa using ⟨[], rfl⟩
  | cons a l ih =>
    rw [List.forall_mem_cons, ← ih, List.mapM_cons]
    constructor
    · rintro ⟨bs, h⟩
      obtain ⟨b, hb, h⟩ := Except.exists_of_bind_eq_ok h
      obtain ⟨rest, hrest, -⟩ := Except.exists_of_bind_eq_ok h
      exact ⟨⟨b, hb⟩, rest, hrest⟩
    · rintro ⟨⟨b, hb⟩, rest, hrest⟩
      exact ⟨b :: rest, by rw [hb, hrest]; rfl⟩

/-- The first element that is refused is what ends the reading of a list. -/
theorem mapM_eq_error_iff {l : List α} {e : ε} : l.mapM f = .error e ↔
    ∃ before a after, l = before ++ a :: after ∧ (∀ b ∈ before, ∃ c, f b = .ok c) ∧
      f a = .error e := by
  constructor
  · intro h
    induction l with
    | nil => cases h
    | cons a l ih =>
      rw [List.mapM_cons] at h
      cases ha : f a with
      | error e' =>
        rw [ha] at h
        cases h
        exact ⟨[], a, l, rfl, by simp, ha⟩
      | ok b =>
        cases hl : l.mapM f with
        | ok bs =>
          rw [ha, hl] at h
          cases h
        | error e' =>
          rw [ha, hl] at h
          cases h
          obtain ⟨before, a', after, rfl, hbefore, ha'⟩ := ih hl
          exact ⟨a :: before, a', after, rfl, List.forall_mem_cons.2 ⟨⟨b, ha⟩, hbefore⟩, ha'⟩
  · rintro ⟨before, a, after, rfl, hbefore, ha⟩
    obtain ⟨bs, hbs⟩ := exists_mapM_eq_ok_iff.2 hbefore
    rw [List.mapM_append, hbs, List.mapM_cons, ha]
    rfl

/-- In key order that is the one with the least key. -/
theorem mapM_eq_error_iff_first {ν : Type} {f : String × ν → Except ε β} {ms : List (String × ν)}
    (hasc : Bindings.Ascending ms) {e : ε} : ms.mapM f = .error e ↔
      ∃ b ∈ ms, f b = .error e ∧ ∀ b' ∈ ms, ∀ e', f b' = .error e' → b.1 ≤ b'.1 := by
  rw [mapM_eq_error_iff]
  constructor
  · rintro ⟨before, b, after, rfl, hbefore, hb⟩
    refine ⟨b, by simp, hb, fun b' hb' e' he' => ?_⟩
    rcases List.mem_append.1 hb' with hb' | hb'
    · obtain ⟨c, hc⟩ := hbefore b' hb'
      rw [hc] at he'
      cases he'
    · rcases List.mem_cons.1 hb' with rfl | hb'
      · exact le_refl _
      · have hlt := (List.pairwise_cons.1 (List.pairwise_append.1 hasc).2.1).1 b' hb'
        exact le_of_lt (compareOfLessAndEq_eq_lt.1 hlt)
  · rintro ⟨b, hb, he, hfirst⟩
    obtain ⟨before, after, rfl⟩ := List.append_of_mem hb
    refine ⟨before, b, after, rfl, fun b' hb' => ?_, he⟩
    have hlt : b'.1 < b.1 :=
      compareOfLessAndEq_eq_lt.1 ((List.pairwise_append.1 hasc).2.2 b' hb' b (by simp))
    cases hf : f b' with
    | ok c => exact ⟨c, rfl⟩
    | error e' =>
      exact absurd (hfirst b' (List.mem_append_left _ hb') e' hf) (not_le_of_gt hlt)

end

namespace Entry

variable {e : Entry} {c : Counts} {ms : List (String × Json)} {field : String}
  {isKey : String → Prop}

/-! ## Members of a table -/

/-- A value is an integer of 64 bits that is not negative. -/
def IsCount (v : Json) : Prop := ∃ n < 2 ^ 64, v = .ofCount n

/-- A key spells an address. -/
def IsAddressKey (k : String) : Prop := ∃ a, Address.parse? k = some a

/-- What is wrong with a member of a table whose keys are all of a kind. The key goes before the
count. -/
inductive MemberFault (isKey : String → Prop) : String × Json → Malformation → Prop
  | key {k : String} {v : Json} (bad : ¬isKey k) : MemberFault isKey (k, v) (.badAddress k)
  | count {k : String} {v : Json} (good : isKey k) (bad : ¬IsCount v) :
    MemberFault isKey (k, v) (.badCount v)

/-- What is wrong with a table: the field holds something else, or a member is faulty, and then the
fault is that of the one with the least key. -/
inductive TableFault (e : Entry) (field : String) (isKey : String → Prop) : Malformation → Prop
  | notTable {v : Json} (there : e.fields.find? field = some v) (bad : ∀ ms, v ≠ .object ms) :
    TableFault e field isKey (.notTable field v)
  | member {ms : List (String × Json)} {b : String × Json} {r : Malformation}
    (there : e.fields.find? field = some (.object ms)) (mem : b ∈ ms)
    (fault : MemberFault isKey b r)
    (first : ∀ b' ∈ ms, ∀ r', MemberFault isKey b' r' → b.1 ≤ b'.1) :
    TableFault e field isKey r

/-- A field is absent or holds a table, with keys of the kind and with counts. -/
def IsTable (e : Entry) (field : String) (isKey : String → Prop) : Prop :=
  ∀ v, e.fields.find? field = some v → ∃ ms, v = .object ms ∧ ∀ b ∈ ms, isKey b.1 ∧ IsCount b.2

/-- What is no count is refused as it is. -/
theorem count_eq_error_iff {v : Json} {r : Malformation} (hv : v.Writable) :
    count v = .error r ↔ ¬IsCount v ∧ r = .badCount v := by
  have hiff : IsCount v ↔ ∃ n, count v = .ok n := by
    simp only [count_eq_ok_iff]
    constructor
    · rintro ⟨n, -, h⟩
      exact ⟨n, h⟩
    · rintro ⟨n, rfl⟩
      exact ⟨n, lt_of_writable_ofCount hv, rfl⟩
  rw [hiff]
  unfold count
  cases v.count? <;> simp [eq_comm]

/-- A member of a table of names as a binding. -/
def nameMember (b : String × Json) : Except Malformation (String × Nat) := do
  return (b.1, ← count b.2)

/-- A member of a table of addresses as a binding. -/
def addressMember (b : String × Json) : Except Malformation (Address × Nat) := do
  return (← addressOf b.1, ← count b.2)

/-- The names of a table are decoded member by member. -/
theorem decodeNames_eq_mapM (ms : List (String × Json)) :
    decodeNames ms = ms.mapM nameMember := by
  induction ms with
  | nil => rfl
  | cons b ms ih =>
    rw [List.mapM_cons, ← ih, decodeNames, nameMember]
    cases count b.2 <;> rfl

/-- The addresses of a table are decoded member by member. -/
theorem decodeAddresses_eq_mapM (ms : List (String × Json)) :
    decodeAddresses ms = ms.mapM addressMember := by
  induction ms with
  | nil => rfl
  | cons b ms ih =>
    rw [List.mapM_cons, ← ih, decodeAddresses, addressMember]
    cases addressOf b.1 with
    | error r => rfl
    | ok a => cases count b.2 <;> rfl

/-- A member of a table of names fails with its fault. -/
theorem nameMember_eq_error_iff {b : String × Json} {r : Malformation} (hb : b.2.Writable) :
    nameMember b = .error r ↔ MemberFault (fun _ => True) b r := by
  obtain ⟨k, v⟩ := b
  have hbind : nameMember (k, v) = .error r ↔ count v = .error r := by
    unfold nameMember
    cases count v <;> simp [bind, Except.bind, pure, Except.pure]
  rw [hbind, count_eq_error_iff hb]
  constructor
  · rintro ⟨hbad, rfl⟩
    exact .count trivial hbad
  · intro h
    cases h with
    | key bad => exact absurd trivial bad
    | count good bad => exact ⟨bad, rfl⟩

/-- A member of a table of addresses fails with its fault. -/
theorem addressMember_eq_error_iff {b : String × Json} {r : Malformation} (hb : b.2.Writable) :
    addressMember b = .error r ↔ MemberFault IsAddressKey b r := by
  obtain ⟨k, v⟩ := b
  cases hk : Address.parse? k with
  | none =>
    have hbad : ¬IsAddressKey k := by simp [IsAddressKey, hk]
    have haddress : addressOf k = .error (.badAddress k) := by simp [addressOf, hk]
    have hbind : addressMember (k, v) = .error (.badAddress k) := by
      unfold addressMember
      rw [haddress]
      rfl
    rw [hbind]
    constructor
    · rintro ⟨⟩
      exact .key hbad
    · intro h
      cases h with
      | key bad => rfl
      | count good bad => exact absurd good hbad
  | some a =>
    have hgood : IsAddressKey k := ⟨a, hk⟩
    have hbind : addressMember (k, v) = .error r ↔ count v = .error r := by
      unfold addressMember
      rw [addressOf_eq_ok_iff.2 hk]
      cases count v <;> simp [bind, Except.bind, pure, Except.pure]
    rw [hbind, count_eq_error_iff hb]
    constructor
    · rintro ⟨hbad, rfl⟩
      exact .count hgood hbad
    · intro h
      cases h with
      | key bad => exact absurd hgood bad
      | count good bad => exact ⟨bad, rfl⟩

/-- A member has no fault if its key is one and its value is a count. -/
theorem forall_not_memberFault_iff {b : String × Json} :
    (∀ r, ¬MemberFault isKey b r) ↔ isKey b.1 ∧ IsCount b.2 := by
  constructor
  · intro h
    have hkey : isKey b.1 := not_not.1 fun hbad => h _ (.key hbad)
    exact ⟨hkey, not_not.1 fun hbad => h _ (.count hkey hbad)⟩
  · rintro ⟨hkey, hcount⟩ r hr
    cases hr with
    | key bad => exact bad hkey
    | count good bad => exact bad hcount

/-! ## Tables -/

section
variable {α : Type} {f : String × Json → Except Malformation α}
  (hf : ∀ b r, b.2.Writable → (f b = .error r ↔ MemberFault isKey b r))
include hf

/-- The members of a writable entry's table decode in key order, up to the first fault. -/
theorem members_mapM_eq_error_iff (he : e.toJson.Writable) {r : Malformation} :
    (e.members field >>= fun ms => ms.mapM f) = .error r ↔ e.TableFault field isKey r := by
  cases hv : e.fields.find? field with
  | none =>
    have hmembers : e.members field = .ok [] := by simp [members, hv]
    rw [hmembers]
    constructor
    · rintro ⟨⟩
    · intro h
      cases h with
      | notTable there | member there => cases hv.symm.trans there
  | some v =>
    -- an object is decoded member by member, and anything else is itself the fault
    by_cases hobject : ∃ ms, v = .object ms
    · obtain ⟨ms, rfl⟩ := hobject
      have hmembers : e.members field = .ok ms := by simp [members, hv]
      have htable : e.tableMembers field = ms := tableMembers_of_members hmembers
      obtain ⟨hasc, hwritable⟩ := hereditary_tableMembers Json.hereditary_writable he field
      rw [htable] at hasc hwritable
      have hbind : (e.members field >>= fun ms => ms.mapM f) = ms.mapM f := by
        rw [hmembers]
        rfl
      rw [hbind, mapM_eq_error_iff_first hasc]
      constructor
      · rintro ⟨b, hb, hr, hfirst⟩
        exact .member hv hb ((hf b r (hwritable b hb)).1 hr) fun b' hb' r' hr' =>
          hfirst b' hb' r' ((hf b' r' (hwritable b' hb')).2 hr')
      · intro h
        cases h with
        | notTable there bad =>
          cases hv.symm.trans there
          exact absurd rfl (bad ms)
        | @member _ b _ there mem fault first =>
          cases hv.symm.trans there
          exact ⟨b, mem, (hf b r (hwritable b mem)).2 fault, fun b' hb' r' hr' =>
            first b' hb' r' ((hf b' r' (hwritable b' hb')).1 hr')⟩
    · have hmembers : e.members field = .error (.notTable field v) := by
        unfold members
        rw [hv]
        cases v with
        | object ms => exact absurd ⟨ms, rfl⟩ hobject
        | null | bool | int | float | string | array => rfl
      rw [hmembers]
      constructor
      · rintro ⟨⟩
        exact .notTable hv (not_exists.1 hobject)
      · intro h
        cases h with
        | notTable there =>
          cases hv.symm.trans there
          rfl
        | @member ms _ _ there =>
          cases hv.symm.trans there
          exact absurd ⟨ms, rfl⟩ hobject

/-- They decode at all if there is no fault among them. -/
theorem exists_members_mapM_eq_ok_iff (he : e.toJson.Writable) :
    (∃ l, (e.members field >>= fun ms => ms.mapM f) = .ok l) ↔ e.IsTable field isKey := by
  have hok {b : String × Json} (hb : b.2.Writable) :
      (∃ x, f b = .ok x) ↔ isKey b.1 ∧ IsCount b.2 := by
    rw [← forall_not_memberFault_iff]
    simp only [← hf b _ hb]
    cases f b <;> simp
  constructor
  · rintro ⟨l, hl⟩ v hv
    obtain ⟨ms, hmembers, hl⟩ := Except.exists_of_bind_eq_ok hl
    have hwritable := (hereditary_tableMembers Json.hereditary_writable he field).2
    rw [tableMembers_of_members hmembers] at hwritable
    unfold members at hmembers
    rw [hv] at hmembers
    cases v <;> cases hmembers
    exact ⟨ms, rfl, fun b hb => (hok (hwritable b hb)).1 (exists_mapM_eq_ok_iff.1 ⟨l, hl⟩ b hb)⟩
  · intro h
    cases hv : e.fields.find? field with
    | none =>
      have hmembers : e.members field = .ok [] := by simp [members, hv]
      rw [hmembers]
      exact ⟨[], rfl⟩
    | some v =>
      obtain ⟨ms, rfl, hms⟩ := h v hv
      have hmembers : e.members field = .ok ms := by simp [members, hv]
      have hwritable := (hereditary_tableMembers Json.hereditary_writable he field).2
      rw [tableMembers_of_members hmembers] at hwritable
      rw [hmembers]
      exact exists_mapM_eq_ok_iff.2 fun b hb => (hok (hwritable b hb)).2 (hms b hb)

end

/-- The table of names is made of its members. -/
theorem names_eq_map (e : Entry) :
    e.names = (e.members namesField >>= fun ms => ms.mapM nameMember).map Table.ofList := by
  simp only [← decodeNames_eq_mapM]
  unfold names
  cases e.members namesField <;> rfl

/-- The table of addresses is made of its members. -/
theorem addresses_eq_map (e : Entry) : e.addresses
    = (e.members addressesField >>= fun ms => ms.mapM addressMember).map Table.ofList := by
  simp only [← decodeAddresses_eq_mapM]
  unfold addresses
  cases e.members addressesField <;> rfl

section
variable {ε α β : Type} {x : Except ε α} {f : α → β}

/-- A function on the result does not touch a failure. -/
theorem map_eq_error_iff {r : ε} : x.map f = .error r ↔ x = .error r := by
  cases x <;> simp [Except.map]

/-- It does not touch success either. -/
theorem exists_map_eq_ok_iff : (∃ b, x.map f = .ok b) ↔ ∃ a, x = .ok a := by
  cases x <;> simp [Except.map]

end

/-- The names of an entry fail with the fault of their field. -/
theorem names_eq_error_iff (he : e.toJson.Writable) {r : Malformation} :
    e.names = .error r ↔ e.TableFault namesField (fun _ => True) r := by
  rw [names_eq_map, map_eq_error_iff]
  exact members_mapM_eq_error_iff (fun _ _ => nameMember_eq_error_iff) he

/-- An entry has names if their field holds a table of counts or is absent. -/
theorem exists_names_iff (he : e.toJson.Writable) :
    (∃ t, e.names = .ok t) ↔ e.IsTable namesField fun _ => True := by
  rw [names_eq_map, exists_map_eq_ok_iff]
  exact exists_members_mapM_eq_ok_iff (fun _ _ => nameMember_eq_error_iff) he

/-- The addresses of an entry fail with the fault of their field. -/
theorem addresses_eq_error_iff (he : e.toJson.Writable) {r : Malformation} :
    e.addresses = .error r ↔ e.TableFault addressesField IsAddressKey r := by
  rw [addresses_eq_map, map_eq_error_iff]
  exact members_mapM_eq_error_iff (fun _ _ => addressMember_eq_error_iff) he

/-- An entry has addresses if their field holds a table of counts by addresses or is absent. -/
theorem exists_addresses_iff (he : e.toJson.Writable) :
    (∃ t, e.addresses = .ok t) ↔ e.IsTable addressesField IsAddressKey := by
  rw [addresses_eq_map, exists_map_eq_ok_iff]
  exact exists_members_mapM_eq_ok_iff (fun _ _ => addressMember_eq_error_iff) he

/-! ## Both tables -/

/-- An entry has counts if both fields do. -/
theorem exists_counts_iff (he : e.toJson.Writable) : (∃ c, e.counts = .ok c) ↔
    e.IsTable addressesField IsAddressKey ∧ e.IsTable namesField fun _ => True := by
  rw [← exists_addresses_iff he, ← exists_names_iff he]
  unfold counts
  cases e.addresses <;> cases e.names <;> simp [bind, Except.bind, pure, Except.pure]

/-- The names are only looked at once the addresses are decoded. -/
theorem counts_eq_error_iff (he : e.toJson.Writable) {r : Malformation} : e.counts = .error r ↔
    e.TableFault addressesField IsAddressKey r ∨ (e.IsTable addressesField IsAddressKey ∧
      e.TableFault namesField (fun _ => True) r) := by
  rw [← addresses_eq_error_iff he, ← exists_addresses_iff he, ← names_eq_error_iff he]
  unfold counts
  cases e.addresses <;> cases e.names <;> simp [bind, Except.bind, pure, Except.pure]

/-- The table of names is the object with its counts as numbers. -/
theorem tableMembers_names (he : e.toJson.Writable) (h : e.counts = .ok c) :
    e.tableMembers namesField = nameMembers c.names := by
  obtain ⟨addresses, -, h⟩ := Except.exists_of_bind_eq_ok h
  obtain ⟨names, hnames, h⟩ := Except.exists_of_bind_eq_ok h
  cases h
  obtain ⟨ms, hms, hnames⟩ := Except.exists_of_bind_eq_ok hnames
  obtain ⟨l, hl, hnames⟩ := Except.exists_of_bind_eq_ok hnames
  cases hnames
  have hasc := (hereditary_tableMembers Json.hereditary_writable he namesField).1
  rw [tableMembers_of_members hms] at hasc ⊢
  obtain rfl := eq_of_decodeNames hl
  exact eq_nameMembers hasc

/-- A key spells an address that no later key spells. -/
def IsLastSpelling (ms : List (String × Json)) (a : Address) (k : String) : Prop :=
  Address.parse? k = some a ∧ ∀ b ∈ ms, Address.parse? b.1 = some a → b.1 ≤ k

/-- What an address decodes to stands under the last key that spells it. -/
theorem exists_of_find?_decoded {l : List (Address × Nat)} (hasc : Bindings.Ascending ms)
    (hl : decodeAddresses ms = .ok l) {a : Address} {n : Nat}
    (h : (Table.ofList l).find? a = some n) :
    ∃ k, (k, .ofCount n) ∈ ms ∧ IsLastSpelling ms a k := by
  induction ms generalizing l with
  | nil =>
    cases hl
    cases h
  | cons b ms ih =>
    obtain ⟨k, v⟩ := b
    obtain ⟨hfirst, hrest⟩ := List.pairwise_cons.1 hasc
    obtain ⟨a', m, l', ha', rfl, hl', rfl⟩ := decodeAddresses_cons_eq_ok_iff.1 hl
    rw [Table.find?_ofList_cons] at h
    cases hlater : (Table.ofList l').find? a with
    | some n' =>
      rw [hlater] at h
      cases h
      obtain ⟨k', hmem, hk', hlast⟩ := ih hrest hl' hlater
      have hlt : k < k' := compareOfLessAndEq_eq_lt.1 (hfirst _ hmem)
      exact ⟨k', List.mem_cons_of_mem _ hmem, hk',
        List.forall_mem_cons.2 ⟨fun _ => le_of_lt hlt, hlast⟩⟩
    | none =>
      rw [hlater, Option.none_or] at h
      split at h
      · next heq =>
        cases h
        obtain rfl := Std.LawfulEqOrd.compare_eq_iff_eq.1 heq
        refine ⟨k, List.mem_cons_self, ha', List.forall_mem_cons.2 ⟨fun _ => le_refl _, ?_⟩⟩
        -- no later key spells the address, since it is not decoded from the others
        intro b hb hspells
        have hcontains := (contains_decoded hl').2 ⟨b, hb, hspells⟩
        rw [Table.contains_eq, hlater] at hcontains
        cases hcontains
      · cases h

/-- The last key that spells an address has its count. -/
theorem find?_decoded_iff {l : List (Address × Nat)} (hasc : Bindings.Ascending ms)
    (hl : decodeAddresses ms = .ok l) {a : Address} {n : Nat} :
    (Table.ofList l).find? a = some n ↔ ∃ k, (k, .ofCount n) ∈ ms ∧ IsLastSpelling ms a k := by
  refine ⟨exists_of_find?_decoded hasc hl, ?_⟩
  rintro ⟨k, hmem, hk, hlast⟩
  have hcontains := (contains_decoded hl).2 ⟨_, hmem, hk⟩
  rw [Table.contains_eq] at hcontains
  obtain ⟨m, hm⟩ := Option.isSome_iff_exists.1 hcontains
  obtain ⟨k', hmem', hk', hlast'⟩ := exists_of_find?_decoded hasc hl hm
  -- there is one last key, and it stands there once
  obtain rfl : k = k' := le_antisymm (hlast' _ hmem hk) (hlast _ hmem' hk')
  have hvalue : some (Json.ofCount n) = some (Json.ofCount m) := by
    rw [← (Bindings.find?_eq_some_iff hasc).2 hmem, (Bindings.find?_eq_some_iff hasc).2 hmem']
  simp only [Json.ofCount, Option.some.injEq, Json.int.injEq, Int.natCast_inj] at hvalue
  rw [hm, hvalue]

/-- The count of an address is that of its last spelling. -/
theorem find?_addresses_iff (he : e.toJson.Writable) (h : e.counts = .ok c) {a : Address}
    {n : Nat} : c.addresses.find? a = some n ↔
      ∃ k, (k, .ofCount n) ∈ e.tableMembers addressesField ∧
        IsLastSpelling (e.tableMembers addressesField) a k := by
  obtain ⟨addresses, haddresses, h⟩ := Except.exists_of_bind_eq_ok h
  obtain ⟨names, -, h⟩ := Except.exists_of_bind_eq_ok h
  cases h
  obtain ⟨ms, hms, haddresses⟩ := Except.exists_of_bind_eq_ok haddresses
  obtain ⟨l, hl, haddresses⟩ := Except.exists_of_bind_eq_ok haddresses
  cases haddresses
  have hasc := (hereditary_tableMembers Json.hereditary_writable he addressesField).1
  rw [tableMembers_of_members hms] at hasc ⊢
  exact find?_decoded_iff hasc hl

end Entry

/-- An entry decodes if each of its two fields is absent or a table of counts, and the keys of the
addresses spell addresses. The names are then those of the table, and an address has the count under
the last key that spells it. Otherwise the fault of the addresses is reported, or if they have none,
that of the names. The text of an entry made from counts is read as an entry that decodes to
them. -/
theorem counts_decode {e : Entry} (he : e.toJson.Writable) :
    ((∃ c, e.counts = .ok c) ↔ e.IsTable addressesField Entry.IsAddressKey ∧
      e.IsTable namesField fun _ => True) ∧
    (∀ c, e.counts = .ok c →
      e.tableMembers namesField = Entry.nameMembers c.names ∧
      ∀ a n, c.addresses.find? a = some n ↔
        ∃ k, (k, .ofCount n) ∈ e.tableMembers addressesField ∧
          Entry.IsLastSpelling (e.tableMembers addressesField) a k) ∧
    (∀ r, e.counts = .error r ↔ e.TableFault addressesField Entry.IsAddressKey r ∨
      (e.IsTable addressesField Entry.IsAddressKey ∧
        e.TableFault namesField (fun _ => True) r)) ∧
    ∀ p c, c.Fits → ∃ e', Entry.parse p (Entry.ofCounts p c).text = .ok e' ∧
      e'.counts = .ok c :=
  ⟨Entry.exists_counts_iff he,
    fun _ h => ⟨Entry.tableMembers_names he h, fun _ _ => Entry.find?_addresses_iff he h⟩,
    fun _ => Entry.counts_eq_error_iff he,
    fun p c hc => ⟨_, Entry.parse_ofCounts p hc, Entry.counts_ofCounts p c⟩⟩

/-- An entry with two spellings of an address and without names. -/
def Entry.twofold : Entry where
  partition := .contents 16
  fields := Table.ofList [(addressesField, .object [("0x10", .ofCount 5), ("16", .ofCount 7)])]

/-- An entry with two faults in one member of its addresses, another in a later member and one among
the names. -/
def Entry.faulty : Entry where
  partition := .contents 16
  fields := Table.ofList [(addressesField, .object [("-1", .null), ("16", .bool true)]),
    (namesField, .object [("x", .int (-1))])]

/-- The entry in which one address is spelled in two ways can be written. -/
theorem Entry.writable_twofold : twofold.toJson.Writable := by
  show Json.Writable (.object [(addressesField, .object [("0x10", .ofCount 5),
    ("16", .ofCount 7)])])
  simp only [Json.Writable, Json.WritableMembers, Bindings.Ascending, Json.ofCount]
  decide

/-- The entry with two faults can be written. -/
theorem Entry.writable_faulty : faulty.toJson.Writable := by
  show Json.Writable (.object [(addressesField, .object [("-1", .null), ("16", .bool true)]),
    (namesField, .object [("x", .int (-1))])])
  simp only [Json.Writable, Json.WritableMembers, Bindings.Ascending]
  decide

/-- The last spelling counts, the first fault is named, and counts are read back. -/
theorem counts_decode_spellings :
    (Entry.twofold.toJson.Writable ∧ ∃ c, Entry.twofold.counts = .ok c ∧
      c.addresses.find? 16 = some 7 ∧ c.names = ∅) ∧
    (Entry.faulty.toJson.Writable ∧ Entry.faulty.counts = .error (.badAddress "-1")) ∧
    ∃ e, Entry.parse .globals
        (Entry.ofCounts .globals ⟨.ofList [(16, 7)], .ofList [("x", 7)]⟩).text = .ok e ∧
      e.counts = .ok ⟨.ofList [(16, 7)], .ofList [("x", 7)]⟩ := by
  obtain ⟨-, htables, -, hwritten⟩ := counts_decode Entry.writable_twofold
  obtain ⟨-, -, herror, -⟩ := counts_decode Entry.writable_faulty
  refine ⟨⟨Entry.writable_twofold, ⟨.ofList [(16, 7)], ∅⟩, by decide +kernel, ?_, rfl⟩,
    ⟨Entry.writable_faulty, (herror _).2 (.inl ?_)⟩, hwritten _ _ ⟨?_, ?_⟩⟩
  · obtain ⟨-, haddresses⟩ := htables ⟨.ofList [(16, 7)], ∅⟩ (by decide +kernel)
    have hmembers : Entry.twofold.tableMembers addressesField
        = [("0x10", .ofCount 5), ("16", .ofCount 7)] := by decide
    rw [haddresses, hmembers]
    refine ⟨"16", by simp, by decide, ?_⟩
    decide
  · have hthere : Entry.faulty.fields.find? addressesField
        = some (.object [("-1", .null), ("16", .bool true)]) := by decide
    have hnone : Address.parse? "-1" = none := by decide
    refine .member hthere (b := ("-1", .null)) (by simp) (.key ?_) ?_
    · simp [Entry.IsAddressKey, hnone]
    · simp
  · intro a n hn
    have hmem : (a, n) ∈ [((16 : Address), 7)] := Table.find?_eq_some_iff.1 hn
    obtain ⟨-, rfl⟩ := Prod.mk.inj (List.mem_singleton.1 hmem)
    decide
  · intro k n hn
    have hmem : (k, n) ∈ [("x", 7)] := Table.find?_eq_some_iff.1 hn
    obtain ⟨-, rfl⟩ := Prod.mk.inj (List.mem_singleton.1 hmem)
    decide

end TagCache
