import TagCache.Counts
import TagCache.Proofs.Table

/-!
# Laws of reference counts

A list of addresses with their names, tallied from nothing (`Counts.tallyAll`), counts at each
address its names and for each name the places that carry it, and holds no zero
(`Counts.find?_addresses_tallyAll`, `Counts.find?_names_tallyAll`). Counting references in order and
counting sets of names are both such tallies. Merging two counts adds them up
(`Counts.getD_addresses_merge`, `Counts.getD_names_merge`). Each reference is counted once on either
side, so the totals of both sides are the same whatever is recorded (`Counts.Balanced`).
-/

namespace TagCache

/-! ## Sums over lists with distinct keys -/

section
variable {κ : Type} {β : Type} [DecidableEq κ] (f : κ × β → Nat)

/-- What the elements of a list with a given key add up to. -/
def totalAt (k : κ) : List (κ × β) → Nat
  | [] => 0
  | b :: l => (if k = b.1 then f b else 0) + totalAt k l

/-- A key that is not listed adds nothing. -/
theorem totalAt_of_notMem {l : List (κ × β)} {k : κ} (h : k ∉ l.map (·.1)) :
    totalAt f k l = 0 := by
  induction l with
  | nil => rfl
  | cons b l ih =>
    simp only [List.map_cons, List.mem_cons, not_or] at h
    rw [totalAt, if_neg h.1, ih h.2]

/-- A key that is listed once adds its own share. -/
theorem totalAt_of_mem {l : List (κ × β)} (hl : (l.map (·.1)).Nodup) {b : κ × β} (h : b ∈ l) :
    totalAt f b.1 l = f b := by
  induction l with
  | nil => cases h
  | cons c l ih =>
    rw [List.map_cons, List.nodup_cons] at hl
    rw [totalAt]
    rcases List.mem_cons.1 h with rfl | h
    · rw [if_pos rfl, totalAt_of_notMem f hl.1, Nat.add_zero]
    · have hne : b.1 ≠ c.1 := fun he => hl.1 (he ▸ List.mem_map_of_mem h)
      rw [if_neg hne, ih hl.2 h, Nat.zero_add]

end

/-! ## Counts of a table -/

namespace Table

variable {κ : Type} [Ord κ]

/-- A table without a zero. -/
def Positive (t : Table κ Nat) : Prop := ∀ k, t.find? k ≠ some 0

/-- No counts are positive. -/
theorem Positive.empty : (∅ : Table κ Nat).Positive := by intro k h; cases h

/-- In a table without a zero a key is bound to its count, if that is not zero. -/
theorem Positive.find?_eq_some_iff {t : Table κ Nat} (h : t.Positive) {k : κ} {n : Nat} :
    t.find? k = some n ↔ t.getD k 0 = n ∧ n ≠ 0 := by
  unfold getD
  cases hk : t.find? k with
  | none => simp; omega
  | some m =>
    have : m ≠ 0 := fun h0 => h k (h0 ▸ hk)
    simp only [Option.some.injEq, Option.getD_some]
    constructor
    · rintro rfl; exact ⟨rfl, this⟩
    · exact fun h => h.1

variable [Std.TransOrd κ] [Std.LawfulEqOrd κ]

/-- A count that is raised is positive. -/
theorem Positive.raise {t : Table κ Nat} (h : t.Positive) (k : κ) {n : Nat} (hn : n ≠ 0) :
    (t.raise k n).Positive := by
  intro k'
  unfold Table.raise
  by_cases hk : k' = k
  · subst hk; simp; omega
  · rw [find?_insert_of_ne _ _ hk]; exact h k'

/-- Positive tables raised by each other are positive. -/
theorem Positive.raiseAll {t u : Table κ Nat} (ht : t.Positive) (hu : u.Positive) :
    (t.raiseAll u).Positive := by
  have key : ∀ (l : List (κ × Nat)) (t : Table κ Nat), (∀ b ∈ l, b.2 ≠ 0) → t.Positive →
      (l.foldl (fun t b => t.raise b.1 b.2) t).Positive := by
    intro l
    induction l with
    | nil => intro t _ ht; exact ht
    | cons b l ih =>
      intro t hl ht
      exact ih _ (fun c hc => hl c (List.mem_cons_of_mem _ hc))
        (ht.raise b.1 (hl b List.mem_cons_self))
  exact key u.entries t (fun b hb h0 => hu b.1 (h0 ▸ Table.find?_eq_some_iff.2 hb)) ht

variable [DecidableEq κ]

/-- Raising a key raises its count and no other. -/
theorem getD_raise (t : Table κ Nat) (k k' : κ) (n : Nat) :
    (t.raise k n).getD k' 0 = t.getD k' 0 + if k' = k then n else 0 := by
  unfold raise getD
  by_cases h : k' = k
  · subst h; simp
  · simp [find?_insert_of_ne, h]

/-- Raising keys one after another raises each by the total for it. -/
theorem getD_foldl_raise (l : List (κ × Nat)) (t : Table κ Nat) (k : κ) :
    (l.foldl (fun t b => t.raise b.1 b.2) t).getD k 0
      = t.getD k 0 + totalAt (·.2) k l := by
  induction l generalizing t with
  | nil => rfl
  | cons b l ih => rw [List.foldl_cons, ih, getD_raise, totalAt, Nat.add_assoc]

/-- Raising by a table adds its counts. -/
theorem getD_raiseAll (t u : Table κ Nat) (k : κ) :
    (t.raiseAll u).getD k 0 = t.getD k 0 + u.getD k 0 := by
  unfold raiseAll
  rw [getD_foldl_raise]
  congr 1
  cases h : u.find? k with
  | none =>
    rw [totalAt_of_notMem _ (find?_eq_none_iff.1 h), getD, h]
    rfl
  | some n =>
    rw [totalAt_of_mem (·.2) u.nodup_keys (find?_eq_some_iff.1 h), getD, h]
    rfl

end Table

/-! ## Totals -/

section
variable {κ : Type} [Ord κ]

/-- The sum of the counts of a list of bindings. -/
def Bindings.total (l : List (κ × Nat)) : Nat := (l.map (·.2)).foldr (· + ·) 0

/-- An inserted count comes in place of the one that was there. -/
theorem Bindings.total_insert (k : κ) (n : Nat) (l : List (κ × Nat)) :
    total (insert k n l) + (find? k l).getD 0 = total l + n := by
  induction l with
  | nil => simp [insert, find?, total]
  | cons b l ih =>
    obtain ⟨k', m⟩ := b
    have hcons (k : κ) (n : Nat) (l : List (κ × Nat)) : total ((k, n) :: l) = n + total l := rfl
    unfold insert find?
    cases compare k k' with
    | lt => simp only [hcons, Option.getD_none]; omega
    | eq => simp only [hcons, Option.getD_some]; omega
    | gt => simp only [hcons]; omega

variable [Std.TransOrd κ] [Std.LawfulEqOrd κ]

/-- Raising a key raises the total by as much. -/
theorem Table.total_raise (t : Table κ Nat) (k : κ) (n : Nat) :
    Bindings.total (t.raise k n).entries = Bindings.total t.entries + n := by
  have hinsert := Bindings.total_insert k (t.getD k 0 + n) t.entries
  have hentries : (t.raise k n).entries = Bindings.insert k (t.getD k 0 + n) t.entries := rfl
  have hold : (Bindings.find? k t.entries).getD 0 = t.getD k 0 := rfl
  rw [hentries]
  omega

/-- Raising by a table adds its total. -/
theorem Table.total_raiseAll (t u : Table κ Nat) :
    Bindings.total (t.raiseAll u).entries
      = Bindings.total t.entries + Bindings.total u.entries := by
  unfold raiseAll
  generalize u.entries = l
  induction l generalizing t with
  | nil => rfl
  | cons b l ih =>
    have hcons : Bindings.total (b :: l) = b.2 + Bindings.total l := rfl
    rw [List.foldl_cons, ih, total_raise, hcons, Nat.add_assoc]

end

/-! ## Tallies -/

namespace Counts

/-- Record the names at each address of a list. -/
def tallyAll (c : Counts) (l : List (Address × NameSet)) : Counts :=
  l.foldl (fun c b => c.tally b.1 b.2.toList) c

/-- Counts without a zero. -/
structure Positive (c : Counts) : Prop where
  addresses : c.addresses.Positive
  names : c.names.Positive

/-- No counts are positive. -/
theorem Positive.empty : (∅ : Counts).Positive := ⟨Table.Positive.empty, Table.Positive.empty⟩

/-- Tallying names keeps counts positive. -/
theorem Positive.tally {c : Counts} (h : c.Positive) (a : Address) (names : List String) :
    (c.tally a names).Positive := by
  induction names generalizing c with
  | nil => exact h
  | cons n names ih =>
    exact ih ⟨h.addresses.raise a Nat.one_ne_zero, h.names.raise n Nat.one_ne_zero⟩

/-- Tallying addresses with their names keeps counts positive. -/
theorem Positive.tallyAll {c : Counts} (h : c.Positive) (l : List (Address × NameSet)) :
    (c.tallyAll l).Positive := by
  induction l generalizing c with
  | nil => exact h
  | cons b l ih => exact ih (h.tally b.1 b.2.toList)

/-- Merged counts are positive if both are. -/
theorem Positive.merge {c d : Counts} (hc : c.Positive) (hd : d.Positive) : (c.merge d).Positive :=
  ⟨hc.addresses.raiseAll hd.addresses, hc.names.raiseAll hd.names⟩

/-- Tallying names at an address raises its count by their number. -/
theorem getD_addresses_tally (c : Counts) (a b : Address) (names : List String) :
    (c.tally a names).addresses.getD b 0
      = c.addresses.getD b 0 + if b = a then names.length else 0 := by
  induction names generalizing c with
  | nil => simp [tally]
  | cons n names ih =>
    have hstep : c.tally a (n :: names) = (c.record a n).tally a names := rfl
    rw [hstep, ih]
    unfold record
    rw [Table.getD_raise]
    rw [List.length_cons]
    split <;> omega

/-- Tallying names raises the count of each by how often it stands there. -/
theorem getD_names_tally (c : Counts) (a : Address) (names : List String) (n : String) :
    (c.tally a names).names.getD n 0 = c.names.getD n 0 + names.count n := by
  induction names generalizing c with
  | nil => simp [tally]
  | cons m names ih =>
    have hstep : c.tally a (m :: names) = (c.record a m).tally a names := rfl
    rw [hstep, ih]
    unfold record
    rw [Table.getD_raise, List.count_cons]
    by_cases h : n = m
    · subst h; simp; omega
    · simp [h, Ne.symm h]

/-- Tallying addresses raises the count of each by the number of its names. -/
theorem getD_addresses_tallyAll (c : Counts) (l : List (Address × NameSet)) (a : Address) :
    (c.tallyAll l).addresses.getD a 0
      = c.addresses.getD a 0 + totalAt (·.2.toList.length) a l := by
  induction l generalizing c with
  | nil => rfl
  | cons b l ih =>
    have hstep : c.tallyAll (b :: l) = (c.tally b.1 b.2.toList).tallyAll l := rfl
    rw [hstep, ih, getD_addresses_tally, totalAt, Nat.add_assoc]

/-- A set holds a name once or not at all. -/
theorem count_toList (s : NameSet) (n : String) :
    s.toList.count n = if s.contains n then 1 else 0 := by
  rw [(KeySet.nodup_toList s).count]
  simp only [KeySet.mem_toList_iff]

/-- Tallying addresses raises the count of a name by the number of those that have it. -/
theorem getD_names_tallyAll (c : Counts) (l : List (Address × NameSet)) (n : String) :
    (c.tallyAll l).names.getD n 0
      = c.names.getD n 0 + l.countP fun b => b.2.contains n := by
  induction l generalizing c with
  | nil => rfl
  | cons b l ih =>
    have hstep : c.tallyAll (b :: l) = (c.tally b.1 b.2.toList).tallyAll l := rfl
    rw [hstep, ih, getD_names_tally, count_toList, List.countP_cons]
    omega

/-- A listed address counts its names. -/
theorem getD_addresses_tallyAll_of_mem {l : List (Address × NameSet)} (hl : (l.map (·.1)).Nodup)
    {a : Address} {s : NameSet} (h : (a, s) ∈ l) :
    (tallyAll ∅ l).addresses.getD a 0 = s.size := by
  have hzero : (∅ : Counts).addresses.getD a 0 = 0 := rfl
  rw [getD_addresses_tallyAll, hzero, Nat.zero_add,
    totalAt_of_mem (fun b => b.2.toList.length) hl h, KeySet.length_toList]

/-- Any other address counts nothing. -/
theorem getD_addresses_tallyAll_of_notMem {l : List (Address × NameSet)} {a : Address}
    (h : a ∉ l.map (·.1)) : (tallyAll ∅ l).addresses.getD a 0 = 0 := by
  have hzero : (∅ : Counts).addresses.getD a 0 = 0 := rfl
  rw [getD_addresses_tallyAll, hzero, totalAt_of_notMem _ h]

/-- Each address of a list counts its names, if it has any. -/
theorem find?_addresses_tallyAll {l : List (Address × NameSet)} (hl : (l.map (·.1)).Nodup)
    {a : Address} {n : Nat} :
    (tallyAll ∅ l).addresses.find? a = some n ↔ ∃ s, (a, s) ∈ l ∧ s.size = n ∧ n ≠ 0 := by
  rw [(Positive.empty.tallyAll l).addresses.find?_eq_some_iff]
  constructor
  · rintro ⟨hn, hne⟩
    have ha : a ∈ l.map (·.1) := by
      refine Decidable.byContradiction fun ha => hne ?_
      rw [← hn, getD_addresses_tallyAll_of_notMem ha]
    obtain ⟨⟨b, s⟩, hb, rfl⟩ := List.mem_map.1 ha
    rw [getD_addresses_tallyAll_of_mem hl hb] at hn
    exact ⟨s, hb, hn, hne⟩
  · rintro ⟨s, hs, hn, hne⟩
    rw [getD_addresses_tallyAll_of_mem hl hs]
    exact ⟨hn, hne⟩

/-- Each name counts the places that carry it, if there are any. -/
theorem find?_names_tallyAll {l : List (Address × NameSet)} {k : String} {n : Nat} :
    (tallyAll ∅ l).names.find? k = some n ↔ (l.countP fun b => b.2.contains k) = n ∧ n ≠ 0 := by
  have hzero : (∅ : Counts).names.getD k 0 = 0 := rfl
  rw [(Positive.empty.tallyAll l).names.find?_eq_some_iff, getD_names_tallyAll, hzero, Nat.zero_add]

/-- Merging adds the counts of an address. -/
theorem getD_addresses_merge (c d : Counts) (a : Address) :
    (c.merge d).addresses.getD a 0 = c.addresses.getD a 0 + d.addresses.getD a 0 :=
  Table.getD_raiseAll _ _ _

/-- Merging adds the counts of a name. -/
theorem getD_names_merge (c d : Counts) (k : String) :
    (c.merge d).names.getD k 0 = c.names.getD k 0 + d.names.getD k 0 :=
  Table.getD_raiseAll _ _ _

/-! ## Balanced counts -/

/-- The addresses and the names count the same number of references. -/
def Balanced (c : Counts) : Prop := c.addressTotal = c.nameTotal

namespace Balanced

variable {c d : Counts}

/-- No counts balance. -/
theorem empty : (∅ : Counts).Balanced := rfl

/-- One reference more keeps counts in balance. -/
theorem record (h : c.Balanced) (a : Address) (name : String) : (c.record a name).Balanced := by
  show Bindings.total (c.addresses.raise a 1).entries
    = Bindings.total (c.names.raise name 1).entries
  rw [Table.total_raise, Table.total_raise]
  exact congrArg (· + 1) h

/-- A tally of names at an address keeps counts in balance. -/
theorem tally (h : c.Balanced) (a : Address) (names : List String) :
    (c.tally a names).Balanced := by
  induction names generalizing c with
  | nil => exact h
  | cons n names ih => exact ih (h.record a n)

/-- A tally of addresses with their names keeps counts in balance. -/
theorem tallyAll (h : c.Balanced) (l : List (Address × NameSet)) : (c.tallyAll l).Balanced := by
  induction l generalizing c with
  | nil => exact h
  | cons b l ih => exact ih (h.tally b.1 b.2.toList)

/-- Merged counts balance if both do. -/
theorem merge (hc : c.Balanced) (hd : d.Balanced) : (c.merge d).Balanced := by
  show Bindings.total (c.addresses.raiseAll d.addresses).entries
    = Bindings.total (c.names.raiseAll d.names).entries
  have hc : Bindings.total c.addresses.entries = Bindings.total c.names.entries := hc
  have hd : Bindings.total d.addresses.entries = Bindings.total d.names.entries := hd
  rw [Table.total_raiseAll, Table.total_raiseAll, hc, hd]

end Balanced

end Counts

end TagCache
