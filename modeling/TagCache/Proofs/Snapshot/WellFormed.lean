import TagCache.Snapshot.WellFormed
import TagCache.Proofs.Table

/-!
# Laws of well-formed snapshots

`Snapshot.check` accepts exactly the well-formed snapshots (`Snapshot.check_eq_ok_iff`). In such a
snapshot an address belongs to the function that contains it (`WellFormed.functionOf?_eq_some_iff`),
so an entry point belongs to its own function, and the list of entry points names each function once
(`WellFormed.nodup_entries`).
-/

namespace TagCache

/-! ## Ascending lists of addresses -/

/-- Putting an address in adds it to those that are there. -/
theorem insertAscending_perm (a : Address) (l : List Address) :
    (insertAscending a l).Perm (a :: l) := by
  induction l with
  | nil => exact .refl _
  | cons b l ih =>
    unfold insertAscending
    split
    · exact (ih.cons b).trans (.swap a b l)
    · exact .refl _

/-- Sorting keeps the addresses. -/
theorem ascending_perm (l : List Address) : (ascending l).Perm l := by
  induction l with
  | nil => exact .refl _
  | cons a l ih => exact (insertAscending_perm a (ascending l)).trans (ih.cons a)

/-- Putting an address in keeps the others in order. -/
theorem insertAscending_pairwise (a : Address) {l : List Address} (hl : l.Pairwise (· ≤ ·)) :
    (insertAscending a l).Pairwise (· ≤ ·) := by
  induction l with
  | nil => exact List.pairwise_singleton _ a
  | cons b l ih =>
    obtain ⟨hb, hrest⟩ := List.pairwise_cons.1 hl
    unfold insertAscending
    split
    · next hle =>
      refine List.pairwise_cons.2 ⟨fun c hc => ?_, ih hrest⟩
      rcases List.mem_cons.1 ((insertAscending_perm a l).mem_iff.1 hc) with rfl | hc
      · exact hle
      · exact hb c hc
    · next hlt =>
      have hab : a ≤ b := UInt64.le_of_lt (UInt64.not_le.1 hlt)
      refine List.pairwise_cons.2 ⟨fun c hc => ?_, hl⟩
      rcases List.mem_cons.1 hc with rfl | hc
      · exact hab
      · exact UInt64.le_trans hab (hb c hc)

/-- Sorted addresses are in order. -/
theorem ascending_pairwise (l : List Address) : (ascending l).Pairwise (· ≤ ·) := by
  induction l with
  | nil => exact .nil
  | cons a l ih => exact insertAscending_pairwise a ih

/-! ## Chunks -/

/-- Two chunks that are not empty overlap, as their ends tell, exactly if they share an address. -/
theorem Chunk.overlaps_iff {c d : Chunk} (hc : c.start < c.stop) (hd : d.start < d.stop) :
    c.overlaps d = true ↔ ∃ a, c.contains a = true ∧ d.contains a = true := by
  simp only [overlaps, contains, Bool.and_eq_true, decide_eq_true_eq]
  constructor
  · rintro ⟨h₁, h₂⟩
    rcases UInt64.le_total c.start d.start with h | h
    · exact ⟨d.start, ⟨h, h₂⟩, UInt64.le_refl _, hd⟩
    · exact ⟨c.start, ⟨UInt64.le_refl _, hc⟩, h, h₁⟩
  · rintro ⟨a, ⟨h₁, h₂⟩, h₃, h₄⟩
    exact ⟨UInt64.lt_of_le_of_lt h₁ h₄, UInt64.lt_of_le_of_lt h₃ h₂⟩

/-- Two functions without an empty chunk overlap exactly if they share an address. -/
theorem FunctionInfo.overlaps_iff {f g : FunctionInfo} (hf : ∀ c ∈ f.chunks, c.start < c.stop)
    (hg : ∀ c ∈ g.chunks, c.start < c.stop) :
    f.overlaps g = true ↔ ∃ a, f.contains a = true ∧ g.contains a = true := by
  simp only [overlaps, contains, List.any_eq_true]
  constructor
  · rintro ⟨c, hc, d, hd, h⟩
    obtain ⟨a, ha, hb⟩ := (Chunk.overlaps_iff (hf c hc) (hg d hd)).1 h
    exact ⟨a, ⟨c, hc, ha⟩, d, hd, hb⟩
  · rintro ⟨a, ⟨c, hc, ha⟩, d, hd, hb⟩
    exact ⟨c, hc, d, hd, (Chunk.overlaps_iff (hf c hc) (hg d hd)).2 ⟨a, ha, hb⟩⟩

namespace Snapshot

variable {s : Snapshot}

/-! ## The check -/

/-- The functions pass one by one if their entry points are new and distinct, and each function
has no empty chunk and contains its entry point. -/
theorem checkFunctions_eq_ok_iff {seen : KeySet Address} {fs : List FunctionInfo} :
    checkFunctions seen fs = .ok () ↔
      (∀ f ∈ fs, seen.contains f.entry = false) ∧ (fs.map (·.entry)).Nodup ∧
      (∀ f ∈ fs, ∀ c ∈ f.chunks, c.start < c.stop) ∧ ∀ f ∈ fs, f.contains f.entry = true := by
  induction fs generalizing seen with
  | nil => simp [checkFunctions]
  | cons f fs ih =>
    have hchunks : f.chunks.any (·.isEmpty) = false ↔ ∀ c ∈ f.chunks, c.start < c.stop := by
      simp [Chunk.isEmpty]
    have hseen : (∀ g ∈ fs, (seen.add f.entry).contains g.entry = false) ↔
        f.entry ∉ fs.map (·.entry) ∧ ∀ g ∈ fs, seen.contains g.entry = false := by
      simp only [← Bool.not_eq_true, KeySet.contains_add, List.mem_map, not_exists, not_and]
      grind
    unfold checkFunctions
    split
    · next h => simp [h]
    split
    · next h =>
      simp only [reduceCtorEq, false_iff, List.forall_mem_cons, ← hchunks, h]
      simp
    split
    · next h => simp_all
    · next h₁ h₂ h₃ =>
      simp only [Bool.not_eq_true, Bool.not_eq_false'] at h₁ h₂ h₃
      rw [ih, hseen, List.map_cons, List.nodup_cons, List.forall_mem_cons, List.forall_mem_cons,
        List.forall_mem_cons, ← hchunks]
      simp only [h₁, h₂, h₃, true_and]
      grind

/-- The functions pass in pairs if none overlaps a later one. -/
theorem checkOverlaps_eq_ok_iff {fs : List FunctionInfo} :
    checkOverlaps fs = .ok () ↔ fs.Pairwise fun f g => f.overlaps g = false := by
  induction fs with
  | nil => simp [checkOverlaps]
  | cons f fs ih =>
    rw [List.pairwise_cons, ← ih, checkOverlaps]
    split
    · next g h =>
      have hg := List.find?_some h
      have hmem := List.mem_of_find?_eq_some h
      simp only [reduceCtorEq, false_iff, not_and]
      intro hall
      rw [hall g hmem] at hg
      cases hg
    · next h =>
      have hall : ∀ g ∈ fs, f.overlaps g = false := by simpa using h
      exact (and_iff_right hall).symm

/-- The check accepts exactly the well-formed snapshots. -/
theorem check_eq_ok_iff : s.check = .ok () ↔ s.WellFormed := by
  have hsplit : s.check = .ok () ↔ ¬s.high < s.low ∧ checkFunctions ∅ s.functions = .ok () ∧
      checkOverlaps s.functions = .ok () := by
    unfold check
    by_cases h : s.high < s.low
    · simp [h, bind, Except.bind, throw, throwThe, MonadExceptOf.throw]
    · cases hf : checkFunctions ∅ s.functions <;> simp [h, bind, Except.bind]
  have hdisjoint (hne : ∀ f ∈ s.functions, ∀ c ∈ f.chunks, c.start < c.stop) :
      (s.functions.Pairwise fun f g => f.overlaps g = false) ↔
        s.functions.Pairwise fun f g =>
          ∀ a : Address, ¬(f.contains a = true ∧ g.contains a = true) := by
    refine List.Pairwise.iff_of_mem fun {f g} hf hg => ?_
    rw [← Bool.not_eq_true, FunctionInfo.overlaps_iff (hne f hf) (hne g hg), not_exists]
  rw [hsplit, checkFunctions_eq_ok_iff, checkOverlaps_eq_ok_iff]
  constructor
  · rintro ⟨hb, ⟨-, hd, hne, hm⟩, ho⟩
    exact ⟨UInt64.not_lt.1 hb, hd, hne, hm, (hdisjoint hne).1 ho⟩
  · rintro ⟨hb, hd, hne, hm, ho⟩
    exact ⟨UInt64.not_lt.2 hb, ⟨fun _ _ => rfl, hd, hne, hm⟩, (hdisjoint hne).2 ho⟩

/-! ## Functions and their entry points -/

/-- Two members of a list that are not related although all pairs are, are the same. -/
theorem eq_of_pairwise {α : Type} {R : α → α → Prop} {l : List α} (h : l.Pairwise R) {a b : α}
    (ha : a ∈ l) (hb : b ∈ l) (hab : ¬R a b) (hba : ¬R b a) : a = b := by
  obtain ⟨i, hi, rfl⟩ := List.getElem_of_mem ha
  obtain ⟨j, hj, rfl⟩ := List.getElem_of_mem hb
  rcases Nat.lt_trichotomy i j with hij | hij | hij
  · exact absurd (List.pairwise_iff_getElem.1 h i j hi hj hij) hab
  · subst hij; rfl
  · exact absurd (List.pairwise_iff_getElem.1 h j i hj hi hij) hba

/-- The entry points are those of the functions, in another order. -/
theorem entries_perm : s.entries.Perm (s.functions.map (·.entry)) := ascending_perm _

/-- The entry points are those of the functions. -/
theorem mem_entries_iff {e : Address} : e ∈ s.entries ↔ ∃ f ∈ s.functions, f.entry = e := by
  rw [entries_perm.mem_iff, List.mem_map]

/-- The owner of an address is a function. -/
theorem mem_entries_of_functionOf? {a e : Address} (h : s.functionOf? a = some e) :
    e ∈ s.entries := by
  obtain ⟨f, hf, rfl⟩ := Option.map_eq_some_iff.1 h
  exact mem_entries_iff.2 ⟨f, List.mem_of_find?_eq_some hf, rfl⟩

/-- Every entry point has a function. -/
theorem exists_function?_of_mem_entries {e : Address} (h : e ∈ s.entries) :
    ∃ f, s.function? e = some f := by
  obtain ⟨f, hf, rfl⟩ := mem_entries_iff.1 h
  rw [← Option.isSome_iff_exists, function?, List.find?_isSome]
  exact ⟨f, hf, by simp⟩

/-- An address lies in the function that is found by its entry point. -/
theorem functionContains_eq_true_iff {f a : Address} :
    s.functionContains f a = true ↔ ∃ i, s.function? f = some i ∧ i.contains a = true := by
  rw [functionContains]
  cases s.function? f <;> simp

/-- The heads in a function, ascending. -/
def itemsOf (db : Snapshot) (f : Address) : List Address :=
  db.heads.toList.filter (db.functionContains f)

/-- The items of a function are the heads that it contains. -/
theorem mem_itemsOf_iff {f a : Address} :
    a ∈ s.itemsOf f ↔ s.heads.contains a = true ∧ s.functionContains f a = true := by
  rw [itemsOf, List.mem_filter, KeySet.mem_toList_iff]

/-- No item of a function is listed twice. -/
theorem nodup_itemsOf (f : Address) : (s.itemsOf f).Nodup := (KeySet.nodup_toList _).filter _

/-- A function that is found has its items. -/
theorem functionItems?_eq {f : Address} {i : FunctionInfo} (h : s.function? f = some i) :
    s.functionItems? f = some (s.itemsOf f) := by
  have hcontains : s.functionContains f = i.contains := by
    funext a
    simp [functionContains, h]
  rw [functionItems?, h, itemsOf, hcontains]
  rfl

/-- Whether an address is no entry point. -/
def foreign (s : Snapshot) (e : Address) : Bool := !s.entries.contains e

/-- An address that is not foreign is an entry point. -/
theorem foreign_eq_false_iff {e : Address} : s.foreign e = false ↔ e ∈ s.entries := by
  simp [foreign]

/-- A foreign address is no entry point. -/
theorem foreign_eq_true_iff {e : Address} : s.foreign e = true ↔ e ∉ s.entries := by
  simp [foreign]

namespace WellFormed

variable (hs : s.WellFormed)
include hs

/-- No two functions have the same entry point. -/
theorem nodup_entries : s.entries.Nodup := entries_perm.nodup_iff.2 hs.distinct

/-- Two functions with one entry point are the same. -/
theorem eq_of_entry_eq {f g : FunctionInfo} (hf : f ∈ s.functions) (hg : g ∈ s.functions)
    (h : f.entry = g.entry) : f = g := by
  have hpairwise : s.functions.Pairwise fun f g => f.entry ≠ g.entry :=
    List.pairwise_map.1 hs.distinct
  exact eq_of_pairwise hpairwise hf hg (absurd h) (absurd h.symm)

/-- Two functions with an address in common are the same. -/
theorem eq_of_contains {f g : FunctionInfo} (hf : f ∈ s.functions) (hg : g ∈ s.functions)
    {a : Address} (ha : f.contains a = true) (hb : g.contains a = true) : f = g := by
  exact eq_of_pairwise hs.disjoint hf hg (fun h => h a ⟨ha, hb⟩) fun h => h a ⟨hb, ha⟩

/-- The function with an entry point is found by it. -/
theorem function?_entry {f : FunctionInfo} (hf : f ∈ s.functions) :
    s.function? f.entry = some f := by
  obtain ⟨g, hg⟩ := exists_function?_of_mem_entries (mem_entries_iff.2 ⟨f, hf, rfl⟩)
  have hmem := List.mem_of_find?_eq_some hg
  have hentry : g.entry = f.entry := by simpa using List.find?_some hg
  rw [hg, hs.eq_of_entry_eq hmem hf hentry]

/-- What a function contains can be asked for by its entry point. -/
theorem functionContains_entry {f : FunctionInfo} (hf : f ∈ s.functions) (a : Address) :
    s.functionContains f.entry a = f.contains a := by
  rw [functionContains, hs.function?_entry hf]
  rfl

/-- An address belongs to the function that contains it. -/
theorem functionOf?_of_contains {f : FunctionInfo} (hf : f ∈ s.functions) {a : Address}
    (ha : f.contains a = true) : s.functionOf? a = some f.entry := by
  have hsome : (s.functions.find? (·.contains a)).isSome := by
    rw [List.find?_isSome]
    exact ⟨f, hf, ha⟩
  obtain ⟨g, hg⟩ := Option.isSome_iff_exists.1 hsome
  have hcontains := List.find?_some hg
  have hfg := hs.eq_of_contains (List.mem_of_find?_eq_some hg) hf hcontains ha
  unfold functionOf?
  rw [hg, hfg]
  rfl

/-- An address belongs to the function that contains it. -/
theorem functionOf?_eq_some_iff {a e : Address} :
    s.functionOf? a = some e ↔ ∃ f ∈ s.functions, f.entry = e ∧ f.contains a = true := by
  constructor
  · intro h
    obtain ⟨f, hf, rfl⟩ := Option.map_eq_some_iff.1 h
    have hcontains := List.find?_some hf
    exact ⟨f, List.mem_of_find?_eq_some hf, rfl, hcontains⟩
  · rintro ⟨f, hf, rfl, ha⟩
    exact hs.functionOf?_of_contains hf ha

/-- The addresses that belong to a function are those in it. -/
theorem functionOf?_eq_entry_iff {f : FunctionInfo} (hf : f ∈ s.functions) {a : Address} :
    s.functionOf? a = some f.entry ↔ f.contains a = true := by
  rw [hs.functionOf?_eq_some_iff]
  constructor
  · rintro ⟨g, hg, hgf, ha⟩
    rw [← hs.eq_of_entry_eq hg hf hgf]
    exact ha
  · exact fun ha => ⟨f, hf, rfl, ha⟩

/-- An entry point belongs to its own function. -/
theorem functionOf?_entry {e : Address} (h : e ∈ s.entries) : s.functionOf? e = some e := by
  obtain ⟨f, hf, rfl⟩ := mem_entries_iff.1 h
  exact hs.functionOf?_of_contains hf (hs.entry_mem f hf)

end WellFormed

end Snapshot

end TagCache
