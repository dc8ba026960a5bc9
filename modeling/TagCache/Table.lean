/-!
# Tables

A finite map kept as the list of its bindings in ascending key order (`Table`), so that two tables
with the same bindings are equal (`Table.ext_find?`) and every listing is sorted. `Bindings` holds
the operations on the bare list, for places where the list stands inside another data type. One
equation per operation tells what it does to `find?` (`Table.find?_insert`, `Table.find?_erase`).
A set of keys is a table of units (`KeySet`).
-/

namespace TagCache

universe u v
variable {κ : Type u} {ν : Type v}

/-! ## Bindings in key order -/

namespace Bindings

/-- Each key lies strictly below all later keys. -/
def Ascending [Ord κ] (l : List (κ × ν)) : Prop :=
  l.Pairwise fun a b => compare a.1 b.1 = .lt

/-- The value bound to a key. The search ends at the first greater key. -/
def find? [Ord κ] (k : κ) : List (κ × ν) → Option ν
  | [] => none
  | (k', v) :: rest =>
    match compare k k' with
    | .lt => none
    | .eq => some v
    | .gt => find? k rest

/-- Bind a key, replacing an earlier binding of it. -/
def insert [Ord κ] (k : κ) (v : ν) : List (κ × ν) → List (κ × ν)
  | [] => [(k, v)]
  | (k', v') :: rest =>
    match compare k k' with
    | .lt => (k, v) :: (k', v') :: rest
    | .eq => (k, v) :: rest
    | .gt => (k', v') :: insert k v rest

/-- Drop the binding of a key. -/
def erase [Ord κ] (k : κ) : List (κ × ν) → List (κ × ν)
  | [] => []
  | (k', v') :: rest =>
    match compare k k' with
    | .lt => (k', v') :: rest
    | .eq => rest
    | .gt => (k', v') :: erase k rest

section
variable [Ord κ]

theorem mem_of_mem_erase {k : κ} {l : List (κ × ν)} {b : κ × ν} (h : b ∈ erase k l) : b ∈ l := by
  induction l with
  | nil => simp_all [erase]
  | cons a l ih =>
    obtain ⟨k', v'⟩ := a
    unfold erase at h
    split at h <;> simp only [List.mem_cons] at h ⊢
    · exact h
    · exact .inr h
    · exact h.imp_right ih

theorem Ascending.erase {k : κ} {l : List (κ × ν)} (h : Ascending l) : Ascending (erase k l) := by
  induction l with
  | nil => simpa [Bindings.erase] using h
  | cons a l ih =>
    obtain ⟨k', v'⟩ := a
    have ⟨ha, hl⟩ := List.pairwise_cons.1 h
    unfold Bindings.erase
    split
    · exact h
    · exact hl
    · exact List.pairwise_cons.2 ⟨fun b hb => ha b (mem_of_mem_erase hb), ih hl⟩

/-- Nothing below the first key is bound. -/
theorem find?_eq_none_of_lt {k : κ} {l : List (κ × ν)}
    (h : ∀ b ∈ l, compare k b.1 = .lt) : find? k l = none := by
  cases l with
  | nil => rfl
  | cons a l => obtain ⟨k', v'⟩ := a; simp [find?, h (k', v') (by simp)]

/-- A binding of the list after an insertion has the inserted key or is an old one. -/
theorem mem_insert {k : κ} {v : ν} {l : List (κ × ν)} {b : κ × ν} (h : b ∈ insert k v l) :
    b.1 = k ∨ b ∈ l := by
  induction l with
  | nil => simp_all [insert]
  | cons a l ih =>
    obtain ⟨k', v'⟩ := a
    unfold insert at h
    split at h <;> simp only [List.mem_cons] at h ⊢
    · rcases h with rfl | h | h <;> simp_all
    · rcases h with rfl | h <;> simp_all
    · rcases h with rfl | h
      · simp
      · rcases ih h with h | h <;> simp [h]

end

section
variable [Ord κ] [Std.TransOrd κ] [Std.LawfulEqOrd κ]

theorem Ascending.insert {k : κ} {v : ν} {l : List (κ × ν)} (h : Ascending l) :
    Ascending (insert k v l) := by
  induction l with
  | nil => simp [Bindings.insert, Ascending]
  | cons a l ih =>
    obtain ⟨k', v'⟩ := a
    have ⟨ha, hl⟩ := List.pairwise_cons.1 h
    unfold Bindings.insert
    split
    next hlt =>
      refine List.pairwise_cons.2 ⟨fun b hb => ?_, h⟩
      rcases List.mem_cons.1 hb with rfl | hb
      · exact hlt
      · exact Std.TransCmp.lt_trans hlt (ha b hb)
    next heq =>
      have := Std.LawfulEqCmp.eq_of_compare heq
      subst this
      exact List.pairwise_cons.2 ⟨ha, hl⟩
    next hgt =>
      refine List.pairwise_cons.2 ⟨fun b hb => ?_, ih hl⟩
      rcases mem_insert hb with hb | hb
      · rw [hb]; exact Std.OrientedCmp.lt_of_gt hgt
      · exact ha b hb

theorem find?_insert {k : κ} {v : ν} {l : List (κ × ν)} (h : Ascending l) (k' : κ) :
    find? k' (insert k v l) = if compare k' k = .eq then some v else find? k' l := by
  induction l with
  | nil => simp only [insert, find?]; cases compare k' k <;> simp
  | cons a l ih =>
    obtain ⟨k₀, v₀⟩ := a
    have ⟨ha, hl⟩ := List.pairwise_cons.1 h
    unfold insert
    split
    next hlt =>
      rw [find?]
      cases hk : compare k' k with
      | lt => simp [find?, Std.TransCmp.lt_trans hk hlt]
      | eq => simp
      | gt => simp
    next heq =>
      have := Std.LawfulEqCmp.eq_of_compare heq
      subst this
      simp only [find?]; cases compare k' k <;> simp
    next hgt =>
      simp only [find?]
      cases hk : compare k' k₀ with
      | lt =>
        have : compare k' k = .lt := Std.TransCmp.lt_trans hk (Std.OrientedCmp.lt_of_gt hgt)
        simp [this]
      | eq =>
        have := Std.LawfulEqCmp.eq_of_compare hk
        subst this
        simp [Std.OrientedCmp.lt_of_gt hgt]
      | gt => simp [ih hl]

theorem find?_erase {k : κ} {l : List (κ × ν)} (h : Ascending l) (k' : κ) :
    find? k' (erase k l) = if compare k' k = .eq then none else find? k' l := by
  induction l with
  | nil => simp [erase, find?]
  | cons a l ih =>
    obtain ⟨k₀, v₀⟩ := a
    have ⟨ha, hl⟩ := List.pairwise_cons.1 h
    unfold erase
    split
    next hlt =>
      split
      next hk =>
        have := Std.LawfulEqCmp.eq_of_compare hk
        subst this
        simp [find?, hlt]
      next => rfl
    next heq =>
      have := Std.LawfulEqCmp.eq_of_compare heq
      subst this
      simp only [find?]
      cases hk : compare k' k with
      | lt =>
        simpa using find?_eq_none_of_lt fun b hb => Std.TransCmp.lt_trans hk (ha b hb)
      | eq =>
        have := Std.LawfulEqCmp.eq_of_compare hk
        subst this
        simpa using find?_eq_none_of_lt ha
      | gt => simp
    next hgt =>
      simp only [find?]
      cases hk : compare k' k₀ with
      | lt =>
        have : compare k' k = .lt := Std.TransCmp.lt_trans hk (Std.OrientedCmp.lt_of_gt hgt)
        simp [this]
      | eq =>
        have := Std.LawfulEqCmp.eq_of_compare hk
        subst this
        simp [Std.OrientedCmp.lt_of_gt hgt]
      | gt => simp [ih hl]

theorem find?_eq_some_iff {k : κ} {v : ν} {l : List (κ × ν)} (h : Ascending l) :
    find? k l = some v ↔ (k, v) ∈ l := by
  induction l with
  | nil => simp [find?]
  | cons a l ih =>
    obtain ⟨k₀, v₀⟩ := a
    have ⟨ha, hl⟩ := List.pairwise_cons.1 h
    simp only [find?, List.mem_cons, Prod.mk.injEq]
    cases hk : compare k k₀ with
    | lt =>
      have hne : k ≠ k₀ := by rintro rfl; simp at hk
      simp only [reduceCtorEq, hne, false_and, false_or, false_iff]
      intro hm
      have := Std.TransCmp.lt_trans hk (ha _ hm)
      simp at this
    | eq =>
      have := Std.LawfulEqCmp.eq_of_compare hk
      subst this
      have hm : (k, v) ∉ l := fun hm => by simpa using ha _ hm
      simp [hm, eq_comm]
    | gt =>
      have hne : k ≠ k₀ := by rintro rfl; simp at hk
      simp [hne, ih hl]

/-- Two ascending lists with the same look-ups are the same list. -/
theorem ext_find? {l l' : List (κ × ν)} (h : Ascending l) (h' : Ascending l')
    (hf : ∀ k, find? k l = find? k l') : l = l' := by
  have hm : ∀ b : κ × ν, b ∈ l ↔ b ∈ l' := fun b => by
    rw [← find?_eq_some_iff h, ← find?_eq_some_iff h', hf]
  have hnd : ∀ {m : List (κ × ν)}, Ascending m → m.Nodup := fun hm =>
    List.Pairwise.imp (fun hlt he => by subst he; simp at hlt) hm
  refine @List.Perm.eq_of_pairwise (κ × ν) (fun a b => compare a.1 b.1 = .lt) l l' ?_ h h'
    ((List.perm_ext_iff_of_nodup (hnd h) (hnd h')).2 hm)
  intro a b _ _ hab hba
  have := Std.TransCmp.lt_trans hab hba
  simp at this

end

end Bindings

/-! ## Tables -/

/-- A finite map, as its bindings in ascending key order. -/
structure Table (κ : Type u) (ν : Type v) [Ord κ] where
  /-- The bindings, each key below all later ones. -/
  entries : List (κ × ν)
  ascending : Bindings.Ascending entries
deriving DecidableEq

/-- A finite set, as a table that binds its members. -/
abbrev KeySet (κ : Type u) [Ord κ] := Table κ Unit

namespace Table

section
variable [Ord κ]

/-- The table with no binding. -/
def empty : Table κ ν := ⟨[], .nil⟩

instance : EmptyCollection (Table κ ν) := ⟨empty⟩
instance : Inhabited (Table κ ν) := ⟨empty⟩

/-- The value bound to a key. -/
def find? (t : Table κ ν) (k : κ) : Option ν := Bindings.find? k t.entries

/-- Whether a key is bound. -/
def contains (t : Table κ ν) (k : κ) : Bool := (t.find? k).isSome

/-- The keys, ascending. -/
def keys (t : Table κ ν) : List κ := t.entries.map (·.1)

/-- The values, in the order of their keys. -/
def values (t : Table κ ν) : List ν := t.entries.map (·.2)

/-- The number of bindings. -/
def size (t : Table κ ν) : Nat := t.entries.length

/-- Whether no key is bound. -/
def isEmpty (t : Table κ ν) : Bool := t.entries.isEmpty

/-- The bindings that satisfy a test. -/
def filter (p : κ → ν → Bool) (t : Table κ ν) : Table κ ν :=
  ⟨t.entries.filter fun b => p b.1 b.2, t.ascending.filter _⟩

/-- Change every value, in view of its key. -/
def mapValues {ν' : Type v} (f : κ → ν → ν') (t : Table κ ν) : Table κ ν' :=
  ⟨t.entries.map fun b => (b.1, f b.1 b.2), by
    have h := t.ascending
    simp only [Bindings.Ascending] at h ⊢
    exact List.pairwise_map.2 h⟩

end

section
variable [Ord κ] [Std.TransOrd κ] [Std.LawfulEqOrd κ]

/-- Bind a key, replacing an earlier binding of it. -/
def insert (t : Table κ ν) (k : κ) (v : ν) : Table κ ν :=
  ⟨Bindings.insert k v t.entries, t.ascending.insert⟩

/-- Drop the binding of a key. -/
def erase (t : Table κ ν) (k : κ) : Table κ ν :=
  ⟨Bindings.erase k t.entries, t.ascending.erase⟩

/-- The table with the given bindings. Of two bindings of one key the later holds. -/
def ofList (l : List (κ × ν)) : Table κ ν := l.foldl (fun t b => t.insert b.1 b.2) ∅

/-- The first table with the bindings of the second laid over it. -/
def overlay (t u : Table κ ν) : Table κ ν := u.entries.foldl (fun t b => t.insert b.1 b.2) t

/-- The value bound to a key, or a default. -/
def getD (t : Table κ ν) (k : κ) (d : ν) : ν := (t.find? k).getD d

theorem find?_insert (t : Table κ ν) (k k' : κ) (v : ν) :
    (t.insert k v).find? k' = if compare k' k = .eq then some v else t.find? k' :=
  Bindings.find?_insert t.ascending k'

theorem find?_erase (t : Table κ ν) (k k' : κ) :
    (t.erase k).find? k' = if compare k' k = .eq then none else t.find? k' :=
  Bindings.find?_erase t.ascending k'

theorem find?_eq_some_iff {t : Table κ ν} {k : κ} {v : ν} :
    t.find? k = some v ↔ (k, v) ∈ t.entries :=
  Bindings.find?_eq_some_iff t.ascending

/-- Tables with the same look-ups are equal. -/
theorem ext_find? {t u : Table κ ν} (h : ∀ k, t.find? k = u.find? k) : t = u := by
  cases t with | mk l hl => cases u with | mk l' hl' =>
  have : l = l' := Bindings.ext_find? hl hl' h
  subst this; rfl

end

end Table

namespace KeySet

section
variable [Ord κ]

/-- The members, ascending. -/
def toList (s : KeySet κ) : List κ := s.keys

variable [Std.TransOrd κ] [Std.LawfulEqOrd κ]

/-- Add a member. -/
def add (s : KeySet κ) (k : κ) : KeySet κ := s.insert k ()

/-- The set of the listed members. -/
def ofList (l : List κ) : KeySet κ := l.foldl add (∅ : Table κ Unit)

/-- The members of either set. -/
def union (s t : KeySet κ) : KeySet κ := t.toList.foldl add s

/-- The members of the first set that are not in the second, ascending. -/
def diff (s t : KeySet κ) : List κ := s.toList.filter fun k => !t.contains k

end

end KeySet

end TagCache
