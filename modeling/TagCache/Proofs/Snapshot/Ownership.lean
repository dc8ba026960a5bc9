import Mathlib.Data.Multiset.MapFold
import TagCache.Proofs.Snapshot.WellFormed

/-!
# Owners of addresses

Whether a snapshot is well-formed depends on its bounds and on the chunks of each entry point, and
not on the order in which functions and chunks are listed (`Snapshot.wellFormed_iff_extents`). The
search for the owner of an address does go by that order, but in a well-formed snapshot it finds the
one function that the address lies in (`WellFormed.functionOf?_eq_some_iff_contains`), so the items
of the functions and the heads in no function are the heads, each of them once
(`WellFormed.items_perm`).
-/

namespace TagCache

namespace Snapshot

variable {s : Snapshot}

/-! ## Functions in no order -/

/-- The entry points of the functions with their chunks, in no order. -/
def extents (s : Snapshot) : Multiset (Address × Multiset Chunk) :=
  (s.functions : Multiset FunctionInfo).map fun f => (f.entry, (f.chunks : Multiset Chunk))

/-- An address lies in one of the chunks. -/
def Covers (chunks : Multiset Chunk) (a : Address) : Prop := ∃ c ∈ chunks, c.contains a = true

/-- A function's chunks cover the addresses that it contains. -/
theorem covers_chunks_iff {f : FunctionInfo} {a : Address} :
    Covers f.chunks a ↔ f.contains a = true := by
  simp [Covers, FunctionInfo.contains]

/-- What holds of the functions in no order holds of each. -/
theorem forall_mem_extents_iff {P : Address × Multiset Chunk → Prop} :
    (∀ x ∈ s.extents, P x) ↔ ∀ f ∈ s.functions, P (f.entry, f.chunks) := by
  simp [extents]

/-- Two extents have no address in common. -/
def Apart (x y : Address × Multiset Chunk) : Prop := ∀ a, ¬(Covers x.2 a ∧ Covers y.2 a)

instance : Std.Symm Apart where
  symm _ _ h a ha := h a ha.symm

/-- Functions are apart if no address is in two of them. -/
theorem pairwise_extents_iff : s.extents.Pairwise Apart ↔
    s.functions.Pairwise fun f g =>
      ∀ a : Address, ¬(f.contains a = true ∧ g.contains a = true) := by
  rw [extents, Multiset.map_coe, Multiset.pairwise_coe_iff_pairwise, List.pairwise_map]
  simp only [Apart, covers_chunks_iff]

/-- The order of functions and of their chunks has no part in what makes a snapshot well-formed. -/
theorem wellFormed_iff_extents : s.WellFormed ↔
    s.low ≤ s.high ∧ (s.extents.map Prod.fst).Nodup ∧
      (∀ x ∈ s.extents, ∀ c ∈ x.2, c.start < c.stop) ∧ (∀ x ∈ s.extents, Covers x.2 x.1) ∧
      s.extents.Pairwise Apart := by
  have hentries : (s.extents.map Prod.fst).Nodup ↔ (s.functions.map (·.entry)).Nodup := by
    simp [extents, Function.comp_def]
  rw [hentries, forall_mem_extents_iff, forall_mem_extents_iff, pairwise_extents_iff]
  simp only [covers_chunks_iff, Multiset.mem_coe]
  constructor
  · intro h
    exact ⟨h.bounds, h.distinct, h.nonempty, h.entry_mem, h.disjoint⟩
  · rintro ⟨hbounds, hdistinct, hnonempty, hentry, hdisjoint⟩
    exact ⟨hbounds, hdistinct, hnonempty, hentry, hdisjoint⟩

/-! ## Owners -/

namespace WellFormed

variable (hs : s.WellFormed)
include hs

/-- The search for the owner of an address finds the function that contains it. -/
theorem functionOf?_eq_some_iff_contains {a e : Address} :
    s.functionOf? a = some e ↔ e ∈ s.entries ∧ s.functionContains e a = true := by
  rw [hs.functionOf?_eq_some_iff, mem_entries_iff]
  constructor
  · rintro ⟨f, hf, rfl, ha⟩
    refine ⟨⟨f, hf, rfl⟩, ?_⟩
    rw [hs.functionContains_entry hf, ha]
  · rintro ⟨⟨f, hf, rfl⟩, ha⟩
    rw [hs.functionContains_entry hf] at ha
    exact ⟨f, hf, rfl, ha⟩

/-- The items of a function are the heads that it owns. -/
theorem mem_itemsOf_iff_owner {a e : Address} (he : e ∈ s.entries) :
    a ∈ s.itemsOf e ↔ s.heads.contains a = true ∧ s.functionOf? a = some e := by
  rw [mem_itemsOf_iff, hs.functionOf?_eq_some_iff_contains, and_iff_right he]

/-- The items of all functions are distinct, since no address has two owners. -/
theorem nodup_flatMap_itemsOf : (s.entries.flatMap s.itemsOf).Nodup := by
  refine List.nodup_flatMap.2 ⟨fun e _ => nodup_itemsOf e, ?_⟩
  refine hs.nodup_entries.imp_of_mem fun {e e'} he he' hne => ?_
  intro a ha ha'
  have howner := ((hs.mem_itemsOf_iff_owner he).1 ha).2
  have howner' := ((hs.mem_itemsOf_iff_owner he').1 ha').2
  rw [howner] at howner'
  exact hne (Option.some.inj howner')

/-- The items of the functions and the heads in no function are the heads, each of them once. -/
theorem items_perm :
    (s.entries.flatMap s.itemsOf ++ s.heads.toList.filter fun a => !s.withinFunction a).Perm
      s.heads.toList := by
  have hheads := KeySet.nodup_toList s.heads
  have hparts : (s.entries.flatMap s.itemsOf
      ++ s.heads.toList.filter fun a => !s.withinFunction a).Nodup := by
    refine hs.nodup_flatMap_itemsOf.append (hheads.filter _) fun a ha hout => ?_
    obtain ⟨e, he, ha⟩ := List.mem_flatMap.1 ha
    have howner := ((hs.mem_itemsOf_iff_owner he).1 ha).2
    simp [withinFunction, howner] at hout
  refine (List.perm_ext_iff_of_nodup hparts hheads).2 fun a => ?_
  rw [List.mem_append, List.mem_flatMap, List.mem_filter]
  constructor
  · rintro (⟨e, he, ha⟩ | ⟨ha, -⟩)
    · exact KeySet.mem_toList_iff.2 ((hs.mem_itemsOf_iff_owner he).1 ha).1
    · exact ha
  · intro ha
    cases howner : s.functionOf? a with
    | none => exact .inr ⟨ha, by simp [withinFunction, howner]⟩
    | some e =>
      have he := mem_entries_of_functionOf? howner
      exact .inl ⟨e, he, (hs.mem_itemsOf_iff_owner he).2 ⟨KeySet.mem_toList_iff.1 ha, howner⟩⟩

end WellFormed

/-- The items of a function are in ascending order. -/
theorem pairwise_itemsOf (e : Address) : (s.itemsOf e).Pairwise (· < ·) :=
  (s.heads.pairwise_keys.imp fun hlt => compareOfLessAndEq_eq_lt.1 hlt).filter _

end Snapshot

/-- The check accepts exactly the well-formed snapshots, however their functions and chunks are
ordered. In an accepted snapshot the owner of an address is the one function that contains it, an
entry point is owned by its own function, and the functions' items, each list ascending, and the
heads in no function make up the heads without a repetition. -/
theorem check_decides_ownership (db : Snapshot) :
    (db.check = .ok () ↔ db.WellFormed) ∧
    (∀ other : Snapshot, other.low = db.low → other.high = db.high → other.extents = db.extents →
      (other.check = .ok () ↔ db.check = .ok ())) ∧
    (db.check = .ok () →
      (∀ a e, db.functionOf? a = some e ↔ e ∈ db.entries ∧ db.functionContains e a = true) ∧
      (∀ e ∈ db.entries, db.functionOf? e = some e) ∧
      (∀ e ∈ db.entries, db.functionItems? e = some (db.itemsOf e) ∧
        (db.itemsOf e).Pairwise (· < ·)) ∧
      (db.entries.flatMap db.itemsOf ++ db.heads.toList.filter fun a => !db.withinFunction a).Perm
        db.heads.toList) := by
  refine ⟨Snapshot.check_eq_ok_iff, ?_, ?_⟩
  · intro other hlow hhigh hextents
    rw [Snapshot.check_eq_ok_iff, Snapshot.check_eq_ok_iff, Snapshot.wellFormed_iff_extents,
      Snapshot.wellFormed_iff_extents, hlow, hhigh, hextents]
  · intro hdb
    have hwf := Snapshot.check_eq_ok_iff.1 hdb
    refine ⟨fun a e => hwf.functionOf?_eq_some_iff_contains, fun e he => hwf.functionOf?_entry he,
      fun e he => ?_, hwf.items_perm⟩
    obtain ⟨f, hf⟩ := Snapshot.exists_function?_of_mem_entries he
    exact ⟨Snapshot.functionItems?_eq hf, Snapshot.pairwise_itemsOf e⟩

/-- Two functions, one of them in two chunks and the other up to the end of the address space. -/
def Snapshot.scattered : Snapshot :=
  { Snapshot.empty 0 0xffffffffffffffff with
    heads := KeySet.ofList [16, 40, 50, 0xfffffffffffffff8]
    functions := [⟨0xfffffffffffffff0, [⟨0xfffffffffffffff0, 0xffffffffffffffff⟩], ∅⟩,
      ⟨16, [⟨48, 64⟩, ⟨16, 32⟩], ∅⟩] }

/-- The functions and chunks of the sample may be given in either order. -/
theorem check_decides_ownership_scattered :
    let sorted := { Snapshot.scattered with
      functions := [⟨16, [⟨16, 32⟩, ⟨48, 64⟩], ∅⟩,
        ⟨0xfffffffffffffff0, [⟨0xfffffffffffffff0, 0xffffffffffffffff⟩], ∅⟩] }
    Snapshot.scattered.check = .ok () ∧ sorted.check = .ok () ∧
      Snapshot.scattered.functionOf? 50 = some 16 ∧
      ([16, 50] ++ [0xfffffffffffffff8] ++ [40] : List Address).Perm
        Snapshot.scattered.heads.toList := by
  intro sorted
  obtain ⟨-, horder, howners⟩ := check_decides_ownership .scattered
  have hcheck : Snapshot.scattered.check = .ok () := by decide
  obtain ⟨howner, -, -, hperm⟩ := howners hcheck
  refine ⟨hcheck, (horder sorted rfl rfl (by decide)).2 hcheck, ?_, ?_⟩
  · exact (howner 50 16).2 (by decide)
  · exact hperm

end TagCache
