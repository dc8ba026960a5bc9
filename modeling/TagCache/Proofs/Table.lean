import TagCache.Table

/-!
# Laws of tables

What each operation on a table does to its look-ups, in the form that later modules rewrite with:
insertions one by one and in a row (`Table.find?_overlay`,
`Bindings.find?_foldl_insert_of_mem`), filters, changes of values, and lists of keys. Two overlays
of the same counts do no more than one (`Table.overlay_eq_self`), which is what makes building a
cache twice harmless. A table is the one that its own bindings give (`Table.ofList_entries`), so
reading back what was written loses nothing.
-/

namespace TagCache

universe u v
variable {κ : Type u} {ν : Type v} [Ord κ]

/-! ## Bindings -/

namespace Bindings

/-- The keys of an ascending list are distinct. -/
theorem Ascending.nodup_keys [Std.LawfulEqOrd κ] {l : List (κ × ν)} (h : Ascending l) :
    (l.map (·.1)).Nodup := by
  refine List.pairwise_map.2 (h.imp fun {a b} hab he => ?_)
  rw [he] at hab
  simp at hab

section
variable [Std.TransOrd κ] [Std.LawfulEqOrd κ]

/-- A key that was put in has its value. -/
@[simp] theorem find?_insert_self {k : κ} {v : ν} {l : List (κ × ν)} (h : Ascending l) :
    find? k (insert k v l) = some v := by
  rw [find?_insert h]; simp

/-- Putting a key in does not change the values of others. -/
theorem find?_insert_of_ne {k k' : κ} {v : ν} {l : List (κ × ν)} (h : Ascending l) (hk : k' ≠ k) :
    find? k' (insert k v l) = find? k' l := by
  rw [find?_insert h]; simp [hk]

/-- Putting bindings in one after another keeps keys ascending. -/
theorem Ascending.foldl_insert {l m : List (κ × ν)} (h : Ascending m) :
    Ascending (l.foldl (fun m b => Bindings.insert b.1 b.2 m) m) := by
  induction l generalizing m with
  | nil => exact h
  | cons b l ih => exact ih h.insert

/-- Inserting other keys leaves a look-up alone. -/
theorem find?_foldl_insert_of_notMem {k : κ} {l m : List (κ × ν)} (h : Ascending m)
    (hk : k ∉ l.map (·.1)) : find? k (l.foldl (fun m b => insert b.1 b.2 m) m) = find? k m := by
  induction l generalizing m with
  | nil => rfl
  | cons b l ih =>
    simp only [List.map_cons, List.mem_cons, not_or] at hk
    rw [List.foldl_cons, ih h.insert hk.2, find?_insert_of_ne h hk.1]

/-- Of insertions with distinct keys each one is found. -/
theorem find?_foldl_insert_of_mem {k : κ} {v : ν} {l m : List (κ × ν)} (h : Ascending m)
    (hl : (l.map (·.1)).Nodup) (hk : (k, v) ∈ l) :
    find? k (l.foldl (fun m b => insert b.1 b.2 m) m) = some v := by
  induction l generalizing m with
  | nil => simp at hk
  | cons b l ih =>
    rw [List.map_cons, List.nodup_cons] at hl
    rw [List.foldl_cons]
    rcases List.mem_cons.1 hk with rfl | hk
    · rw [find?_foldl_insert_of_notMem h.insert hl.1, find?_insert_self h]
    · exact ih h.insert hl.2 hk

/-- A binding after an insertion is the inserted one or an old one. -/
theorem eq_or_mem_of_mem_insert {k : κ} {v : ν} {l : List (κ × ν)} {b : κ × ν} (h : Ascending l)
    (hb : b ∈ insert k v l) : b = (k, v) ∨ b ∈ l := by
  obtain ⟨k', v'⟩ := b
  have hfind := (find?_eq_some_iff h.insert).2 hb
  by_cases hk : k' = k
  · subst hk
    rw [find?_insert_self h] at hfind
    cases hfind
    exact .inl rfl
  · rw [find?_insert_of_ne h hk] at hfind
    exact .inr ((find?_eq_some_iff h).1 hfind)

/-- A binding after insertions is one of the inserted ones or an old one. -/
theorem mem_or_mem_of_mem_foldl_insert {l m : List (κ × ν)} {b : κ × ν} (h : Ascending m)
    (hb : b ∈ l.foldl (fun m b => insert b.1 b.2 m) m) : b ∈ l ∨ b ∈ m := by
  induction l generalizing m with
  | nil => exact .inr hb
  | cons a l ih =>
    rcases ih h.insert hb with hb | hb
    · exact .inl (List.mem_cons_of_mem _ hb)
    · rcases eq_or_mem_of_mem_insert h hb with rfl | hb
      · exact .inl List.mem_cons_self
      · exact .inr hb

/-- A key that is not listed is not found. -/
theorem find?_eq_none_iff {k : κ} {l : List (κ × ν)} (h : Ascending l) :
    find? k l = none ↔ k ∉ l.map (·.1) := by
  rw [Option.eq_none_iff_forall_ne_some]
  simp [find?_eq_some_iff h]

end

end Bindings

/-! ## Tables -/

namespace Table

/-- The empty table has no value. -/
@[simp] theorem find?_empty (k : κ) : (∅ : Table κ ν).find? k = none := rfl

/-- No key of a table is listed twice. -/
theorem nodup_keys [Std.LawfulEqOrd κ] (t : Table κ ν) : t.keys.Nodup := t.ascending.nodup_keys

/-- A table contains the keys that have values. -/
theorem contains_eq (t : Table κ ν) (k : κ) : t.contains k = (t.find? k).isSome := rfl

/-- New values do not change the keys. -/
@[simp] theorem keys_mapValues {ν' : Type v} (g : κ → ν → ν') (t : Table κ ν) :
    (t.mapValues g).keys = t.keys := by
  simp [keys, mapValues, Function.comp_def]

/-- The keys stand in ascending order. -/
theorem pairwise_keys (t : Table κ ν) : t.keys.Pairwise fun k k' => compare k k' = .lt :=
  List.pairwise_map.2 t.ascending

/-- A table has as many keys as rows. -/
@[simp] theorem length_keys (t : Table κ ν) : t.keys.length = t.size := List.length_map _

/-- New values do not change the number of rows. -/
@[simp] theorem size_mapValues {ν' : Type v} (f : κ → ν → ν') (t : Table κ ν) :
    (t.mapValues f).size = t.size := List.length_map _

/-- A table without rows is the empty one. -/
theorem eq_empty_of_isEmpty {t : Table κ ν} (h : t.isEmpty = true) : t = ∅ := by
  obtain ⟨entries, _⟩ := t
  obtain rfl : entries = [] := List.isEmpty_iff.1 h
  rfl

section
variable [Std.TransOrd κ] [Std.LawfulEqOrd κ]

/-- A key that was put in has its value. -/
@[simp] theorem find?_insert_self (t : Table κ ν) (k : κ) (v : ν) :
    (t.insert k v).find? k = some v :=
  Bindings.find?_insert_self t.ascending

/-- Putting a key in does not change the values of others. -/
theorem find?_insert_of_ne (t : Table κ ν) {k k' : κ} (v : ν) (h : k' ≠ k) :
    (t.insert k v).find? k' = t.find? k' :=
  Bindings.find?_insert_of_ne t.ascending h

/-- A key that was erased has no value. -/
@[simp] theorem find?_erase_self (t : Table κ ν) (k : κ) : (t.erase k).find? k = none := by
  rw [find?_erase]; simp

/-- Erasing a key does not change the values of others. -/
theorem find?_erase_of_ne (t : Table κ ν) {k k' : κ} (h : k' ≠ k) :
    (t.erase k).find? k' = t.find? k' := by
  rw [find?_erase]; simp [h]

/-- The keys are those that have values. -/
theorem mem_keys_iff {t : Table κ ν} {k : κ} : k ∈ t.keys ↔ ∃ v, t.find? k = some v := by
  simp [keys, find?_eq_some_iff]

/-- The keys are those that the table contains. -/
theorem mem_keys_iff_contains {t : Table κ ν} {k : κ} : k ∈ t.keys ↔ t.contains k = true := by
  rw [mem_keys_iff, contains_eq, Option.isSome_iff_exists]

/-- A key without a value is not among the keys. -/
theorem find?_eq_none_iff {t : Table κ ν} {k : κ} : t.find? k = none ↔ k ∉ t.keys :=
  Bindings.find?_eq_none_iff t.ascending

/-- Inserting a binding that is there changes nothing. -/
theorem insert_eq_self {t : Table κ ν} {k : κ} {v : ν} (h : t.find? k = some v) :
    t.insert k v = t := by
  refine ext_find? fun k' => ?_
  by_cases hk : k' = k
  · subst hk; rw [find?_insert_self, h]
  · rw [find?_insert_of_ne t v hk]

/-- Of two values that were put in for a key the later one stays. -/
@[simp] theorem insert_insert (t : Table κ ν) (k : κ) (v w : ν) :
    (t.insert k v).insert k w = t.insert k w := by
  refine ext_find? fun k' => ?_
  by_cases hk : k' = k
  · subst hk; rw [find?_insert_self, find?_insert_self]
  · rw [find?_insert_of_ne _ w hk, find?_insert_of_ne _ v hk, find?_insert_of_ne _ w hk]

/-- Erasing a key that is not there changes nothing. -/
theorem erase_eq_self {t : Table κ ν} {k : κ} (h : t.contains k = false) : t.erase k = t := by
  have hnone : t.find? k = none := by simpa [contains_eq] using h
  refine ext_find? fun k' => ?_
  by_cases hk : k' = k
  · subst hk; rw [find?_erase_self, hnone]
  · rw [find?_erase_of_ne t hk]

/-- The new value of a key is made of its old one. -/
@[simp] theorem find?_mapValues {ν' : Type v} (f : κ → ν → ν') (t : Table κ ν) (k : κ) :
    (t.mapValues f).find? k = (t.find? k).map (f k) := by
  ext v
  simp only [find?_eq_some_iff, mapValues, List.mem_map, Option.map_eq_some_iff, Prod.mk.injEq,
    Prod.exists]
  constructor
  · rintro ⟨_, w, hm, rfl, rfl⟩; exact ⟨w, hm, rfl⟩
  · rintro ⟨w, hm, rfl⟩; exact ⟨k, w, hm, rfl, rfl⟩

/-- A filter keeps the values that pass it. -/
theorem find?_filter (p : κ → ν → Bool) (t : Table κ ν) (k : κ) :
    (t.filter p).find? k = (t.find? k).filter (p k) := by
  ext v
  simp [find?_eq_some_iff, filter, Option.filter_eq_some_iff]

/-- A test of the keys alone. -/
theorem find?_filter_key (p : κ → Bool) (t : Table κ ν) (k : κ) :
    (t.filter fun k _ => p k).find? k = if p k then t.find? k else none := by
  rw [find?_filter]
  cases t.find? k <;> cases p k <;> simp [Option.filter]

/-- New values do not change which keys a table contains. -/
@[simp] theorem contains_mapValues {ν' : Type v} (g : κ → ν → ν') (t : Table κ ν) (k : κ) :
    (t.mapValues g).contains k = t.contains k := by
  rw [contains_eq, contains_eq, find?_mapValues, Option.isSome_map]

/-- Changing values commutes with binding a key. -/
theorem mapValues_insert {ν' : Type v} (g : κ → ν → ν') (t : Table κ ν) (k : κ) (v : ν) :
    (t.insert k v).mapValues g = (t.mapValues g).insert k (g k v) := by
  refine ext_find? fun k' => ?_
  by_cases hk : k' = k
  · subst hk
    simp
  · rw [find?_mapValues, find?_insert_of_ne _ _ hk, find?_insert_of_ne _ _ hk, find?_mapValues]

/-- Changing values commutes with dropping a key. -/
theorem mapValues_erase {ν' : Type v} (g : κ → ν → ν') (t : Table κ ν) (k : κ) :
    (t.erase k).mapValues g = (t.mapValues g).erase k := by
  refine ext_find? fun k' => ?_
  by_cases hk : k' = k
  · subst hk
    simp
  · rw [find?_mapValues, find?_erase_of_ne _ hk, find?_erase_of_ne _ hk, find?_mapValues]

/-- The rows of a table with bindings put in are those of the list with them. -/
theorem foldl_insert_entries (l : List (κ × ν)) (t : Table κ ν) :
    (l.foldl (fun t b => t.insert b.1 b.2) t).entries
      = l.foldl (fun m b => Bindings.insert b.1 b.2 m) t.entries := by
  induction l generalizing t with
  | nil => rfl
  | cons b l ih => exact ih (t.insert b.1 b.2)

/-- Bindings that are inserted one after the other are asked before the table. -/
theorem find?_foldl_insert (l : List (κ × ν)) (t : Table κ ν) (k : κ) :
    (l.foldl (fun t b => t.insert b.1 b.2) t).find? k
      = ((ofList l).find? k).or (t.find? k) := by
  induction l generalizing t with
  | nil => simp [ofList]
  | cons b l ih =>
    have hcons : ofList (b :: l) = l.foldl (fun t b => t.insert b.1 b.2) (insert ∅ b.1 b.2) := rfl
    rw [List.foldl_cons, ih, hcons, ih, find?_insert, find?_insert, Option.or_assoc]
    split <;> simp

/-- Of a list with a binding in front, the other bindings are asked first. -/
theorem find?_ofList_cons (b : κ × ν) (l : List (κ × ν)) (k : κ) :
    (ofList (b :: l)).find? k
      = ((ofList l).find? k).or (if compare k b.1 = .eq then some b.2 else none) := by
  have hcons : ofList (b :: l) = l.foldl (fun t b => t.insert b.1 b.2) (insert ∅ b.1 b.2) := rfl
  rw [hcons, find?_foldl_insert, find?_insert]
  rfl

/-- A binding in front counts if its key is not bound later. -/
theorem ofList_cons (b : κ × ν) (l : List (κ × ν)) : ofList (b :: l)
    = if (ofList l).contains b.1 then ofList l else (ofList l).insert b.1 b.2 := by
  refine ext_find? fun k => ?_
  rw [find?_ofList_cons]
  cases hb : (ofList l).contains b.1 with
  | true =>
    obtain ⟨v, hv⟩ := Option.isSome_iff_exists.1 (contains_eq _ b.1 ▸ hb)
    rw [if_pos rfl]
    split
    · next h =>
      rw [Std.LawfulEqOrd.compare_eq_iff_eq.1 h, hv]
      rfl
    · simp
  | false =>
    have hnone : (ofList l).find? b.1 = none := by simpa [contains_eq] using hb
    rw [if_neg Bool.false_ne_true, find?_insert]
    split
    · next h =>
      rw [Std.LawfulEqOrd.compare_eq_iff_eq.1 h, hnone]
      rfl
    · simp

/-- Of a list with distinct keys every binding is found, and nothing else. -/
theorem find?_ofList_eq_some_iff {l : List (κ × ν)} (h : (l.map (·.1)).Nodup) {k : κ} {v : ν} :
    (ofList l).find? k = some v ↔ (k, v) ∈ l := by
  have hnil : Bindings.Ascending ([] : List (κ × ν)) := .nil
  have hfind : (ofList l).find? k
      = Bindings.find? k (l.foldl (fun m b => Bindings.insert b.1 b.2 m) []) := by
    unfold ofList find?
    rw [foldl_insert_entries]
    rfl
  rw [hfind]
  refine ⟨fun hv => ?_, Bindings.find?_foldl_insert_of_mem hnil h⟩
  by_cases hk : k ∈ l.map (·.1)
  · obtain ⟨⟨k', w⟩, hw, rfl⟩ := List.mem_map.1 hk
    have := Bindings.find?_foldl_insert_of_mem hnil h hw
    rw [hv] at this
    cases this
    exact hw
  · rw [Bindings.find?_foldl_insert_of_notMem hnil hk] at hv
    simp [Bindings.find?] at hv

/-- An ascending list is the list of bindings of the table that it gives. -/
theorem ofList_eq {l : List (κ × ν)} (h : Bindings.Ascending l) : ofList l = ⟨l, h⟩ := by
  refine ext_find? fun k => ?_
  ext v
  rw [find?_ofList_eq_some_iff h.nodup_keys, find?_eq_some_iff]

/-- A table made of bindings has no other. -/
theorem mem_of_mem_ofList {l : List (κ × ν)} {b : κ × ν} (h : b ∈ (ofList l).entries) : b ∈ l := by
  rw [ofList, foldl_insert_entries] at h
  exact (Bindings.mem_or_mem_of_mem_foldl_insert .nil h).resolve_right List.not_mem_nil

/-- A table is the one made of its rows. -/
@[simp] theorem ofList_entries (t : Table κ ν) : ofList t.entries = t := ofList_eq t.ascending

/-- The second table is asked first. -/
theorem find?_overlay (t u : Table κ ν) (k : κ) :
    (t.overlay u).find? k = (u.find? k).or (t.find? k) := by
  unfold overlay
  rw [find?_foldl_insert, ofList_entries]

/-- Changing values commutes with an overlay. -/
theorem mapValues_overlay {ν' : Type v} (g : κ → ν → ν') (t u : Table κ ν) :
    (t.overlay u).mapValues g = (t.mapValues g).overlay (u.mapValues g) := by
  refine ext_find? fun k => ?_
  rw [find?_mapValues, find?_overlay, find?_overlay, find?_mapValues, find?_mapValues]
  cases u.find? k <;> rfl

/-- Laying bindings over a table that has them all changes nothing. -/
theorem overlay_eq_self {t u : Table κ ν} (h : ∀ k v, u.find? k = some v → t.find? k = some v) :
    t.overlay u = t := by
  refine ext_find? fun k => ?_
  rw [find?_overlay]
  cases hk : u.find? k with
  | none => rfl
  | some v => rw [h k v hk]; rfl

/-- A table that is laid over itself stays. -/
@[simp] theorem overlay_self (t : Table κ ν) : t.overlay t = t := overlay_eq_self fun _ _ h => h

/-- A table that is laid over the empty one is left. -/
@[simp] theorem overlay_empty_left (t : Table κ ν) : (∅ : Table κ ν).overlay t = t :=
  ext_find? fun k => by rw [find?_overlay]; simp

/-- Tables with the same members are the same set. -/
theorem ext_contains {s t : KeySet κ} (h : ∀ k, s.contains k = t.contains k) : s = t := by
  refine ext_find? fun k => ?_
  have := h k
  rw [contains_eq, contains_eq] at this
  cases hs : s.find? k <;> cases ht : t.find? k <;> simp_all

/-- Tables have the same keys in the same order if they contain the same ones. -/
theorem keys_eq_iff {ν ν' : Type} {t : Table κ ν} {u : Table κ ν'} :
    t.keys = u.keys ↔ ∀ k, t.contains k = u.contains k := by
  constructor
  · intro h k
    rw [Bool.eq_iff_iff, ← mem_keys_iff_contains, ← mem_keys_iff_contains, h]
  · intro h
    have hsets : (t.mapValues fun _ _ => ()) = u.mapValues fun _ _ => () :=
      ext_contains fun k => by rw [contains_mapValues, contains_mapValues, h]
    rw [← keys_mapValues (fun _ _ => ()) t, hsets, keys_mapValues]

end

end Table

/-! ## Sets -/

namespace KeySet

/-- No member of a set is listed twice. -/
theorem nodup_toList [Std.LawfulEqOrd κ] (s : KeySet κ) : s.toList.Nodup := Table.nodup_keys s

/-- A set has as many members as its size says. -/
@[simp] theorem length_toList (s : KeySet κ) : s.toList.length = s.size := Table.length_keys s

section
variable [Std.TransOrd κ] [Std.LawfulEqOrd κ]

/-- The members are those that the set contains. -/
theorem mem_toList_iff {s : KeySet κ} {k : κ} : k ∈ s.toList ↔ s.contains k = true :=
  Table.mem_keys_iff_contains

/-- A set contains a member that was added, and those from before. -/
theorem contains_add {s : KeySet κ} {k k' : κ} :
    (s.add k).contains k' = true ↔ k' = k ∨ s.contains k' = true := by
  unfold add
  rw [Table.contains_eq, Table.contains_eq, Table.find?_insert]
  by_cases h : k' = k <;> simp [h]

/-- A set contains the members that were added one after another, and those from before. -/
theorem contains_foldl_add {l : List κ} {s : KeySet κ} {k : κ} :
    (l.foldl add s).contains k = true ↔ k ∈ l ∨ s.contains k = true := by
  induction l generalizing s with
  | nil => simp
  | cons a l ih => rw [List.foldl_cons, ih, contains_add]; simp only [List.mem_cons]; grind

/-- The set of a list contains what is in the list. -/
theorem contains_ofList {l : List κ} {k : κ} : (ofList l).contains k = true ↔ k ∈ l := by
  unfold ofList
  rw [contains_foldl_add]
  simp [Table.contains_eq]

/-- A set is the one made of its members. -/
theorem ofList_toList (s : KeySet κ) : ofList s.toList = s :=
  Table.ext_contains fun k => by
    rw [Bool.eq_iff_iff, contains_ofList, mem_toList_iff]

end

end KeySet

end TagCache
