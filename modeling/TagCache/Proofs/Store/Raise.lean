import Mathlib.Logic.Function.Iterate
import TagCache.Proofs.Store.Refinement

/-!
# Keys raised in a row

Raising keys of a table one by one, in any order, raises each as often as it is listed
(`Table.find?_foldl_update`, `Table.foldl_update_perm`). So it is with counts
(`Table.find?_raiseKeys`) and with the rows of the index, as long as they stay below the limit of
signed words (`Table.find?_raiseRows`).
-/

namespace TagCache

/-! ## Raised keys -/

namespace StoredCount

/-- The stored count of a key that is raised by one, from zero where it is absent. -/
def raised : Option StoredCount → StoredCount
  | some c => c.next
  | none => .whole 1

/-- Counts of 64 bits are told apart by how they are stored. -/
theorem ofNat_inj {m n : Nat} (hm : m < UInt64.size) (hn : n < UInt64.size)
    (h : ofNat m = ofNat n) : m = n := by
  have htoNat : m % UInt64.size = n % UInt64.size :=
    congrArg UInt64.toNat (StoredCount.whole.inj h)
  rwa [Nat.mod_eq_of_lt hm, Nat.mod_eq_of_lt hn] at htoNat

end StoredCount

namespace Table

section
variable {κ ν : Type} [Ord κ] [Std.TransOrd κ] [Std.LawfulEqOrd κ] [DecidableEq κ]

/-- Where keys are updated one by one, each is updated as often as it is listed. -/
theorem find?_foldl_update (g : Option ν → ν) (keys : List κ) (t : Table κ ν) (k : κ) :
    (keys.foldl (fun t k => t.insert k (g (t.find? k))) t).find? k
      = (fun v => some (g v))^[keys.count k] (t.find? k) := by
  induction keys generalizing t with
  | nil => rfl
  | cons k' keys ih =>
    rw [List.foldl_cons, ih]
    by_cases hk : k = k'
    · subst hk
      rw [find?_insert_self, List.count_cons_self, Function.iterate_succ_apply]
    · rw [find?_insert_of_ne _ _ hk, List.count_cons_of_ne (Ne.symm hk)]

/-- So the order does not matter. -/
theorem foldl_update_perm (g : Option ν → ν) {keys keys' : List κ} (h : keys.Perm keys')
    (t : Table κ ν) : keys.foldl (fun t k => t.insert k (g (t.find? k))) t
      = keys'.foldl (fun t k => t.insert k (g (t.find? k))) t := by
  refine ext_find? fun k => ?_
  rw [find?_foldl_update, find?_foldl_update, h.count_eq]

end

section
variable {κ : Type} [Ord κ] [Std.TransOrd κ] [Std.LawfulEqOrd κ] [DecidableEq κ]

/-- Counts with keys raised by one, as often as they are listed. -/
def raiseKeys (t : Table κ Nat) (keys : List κ) : Table κ Nat :=
  keys.foldl (fun t k => t.raise k 1) t

/-- A key that is raised several times goes up by that number. -/
theorem find?_raiseKeys (t : Table κ Nat) (keys : List κ) (k : κ) :
    (t.raiseKeys keys).find? k
      = if keys.count k = 0 then t.find? k else some (t.getD k 0 + keys.count k) := by
  have hiterate (n : Nat) (v : Option Nat) :
      (fun v : Option Nat => some (v.getD 0 + 1))^[n] v
        = if n = 0 then v else some (v.getD 0 + n) := by
    induction n with
    | zero => rfl
    | succ n ih =>
      rw [Function.iterate_succ_apply', ih]
      split
      · next h => simp [h]
      · simp [Nat.add_assoc]
  exact (find?_foldl_update (fun v => v.getD 0 + 1) keys t k).trans (hiterate _ _)

/-- The order of the keys does not matter to a table of counts. -/
theorem raiseKeys_perm {keys keys' : List κ} (h : keys.Perm keys') (t : Table κ Nat) :
    t.raiseKeys keys = t.raiseKeys keys' :=
  foldl_update_perm (fun v => v.getD 0 + 1) h t

/-- Rows with keys raised. -/
def raiseRows (t : Table κ StoredCount) (keys : List κ) : Table κ StoredCount :=
  keys.foldl (fun t k => StoreM.raise k t) t

omit [DecidableEq κ] in
/-- Raising a key of the index changes the row of the key. -/
theorem raise_eq (t : Table κ StoredCount) (k : κ) :
    StoreM.raise k t = t.insert k (StoredCount.raised (t.find? k)) := by
  unfold StoreM.raise StoredCount.raised
  cases t.find? k <;> rfl

omit [DecidableEq κ] in
/-- Raising keys one after another changes the row of each. -/
theorem raiseRows_eq (t : Table κ StoredCount) (keys : List κ) : t.raiseRows keys
    = keys.foldl (fun t k => t.insert k (StoredCount.raised (t.find? k))) t := by
  unfold raiseRows
  simp only [raise_eq]

/-- The order of the keys does not matter to the rows either. -/
theorem raiseRows_perm {keys keys' : List κ} (h : keys.Perm keys') (t : Table κ StoredCount) :
    t.raiseRows keys = t.raiseRows keys' := by
  rw [raiseRows_eq, raiseRows_eq, foldl_update_perm _ h]

/-- The row of a key that is not raised stays. -/
theorem find?_raiseRows_of_notMem (t : Table κ StoredCount) {keys : List κ} {k : κ}
    (h : keys.count k = 0) : (t.raiseRows keys).find? k = t.find? k := by
  rw [raiseRows_eq, find?_foldl_update, h]
  rfl

/-- The row of a key stores a count, zero where it is absent. -/
def Stores (t : Table κ StoredCount) (k : κ) (m : Nat) : Prop :=
  (t.find? k).getD (.ofNat 0) = .ofNat m

/-- A row that stays below the limit of signed words is raised as its count is. -/
theorem find?_raiseRows (t : Table κ StoredCount) {keys : List κ} {k : κ} {m : Nat}
    (hm : t.Stores k m) (hcount : keys.count k ≠ 0)
    (hlimit : m + keys.count k < 0x8000000000000000) :
    (t.raiseRows keys).find? k = some (.ofNat (m + keys.count k)) := by
  have hsize : UInt64.size = 18446744073709551616 := rfl
  unfold Stores at hm
  -- only the first raise can meet a missing row, and none meets the greatest word
  have hiterate (n : Nat) (hn : m + (n + 1) < 0x8000000000000000) :
      (fun v => some (StoredCount.raised v))^[n + 1] (t.find? k)
        = some (.ofNat (m + (n + 1))) := by
    induction n with
    | zero =>
      refine congrArg some ?_
      cases hf : t.find? k with
      | none =>
        rw [hf] at hm
        have hzero := StoredCount.ofNat_inj (by decide) (by omega) hm
        rw [← hzero]
        rfl
      | some v =>
        rw [hf] at hm
        obtain rfl : v = .ofNat m := hm
        exact StoredCount.next_ofNat (by omega) (by omega)
    | succ n ih =>
      rw [Function.iterate_succ_apply', ih (by omega)]
      refine congrArg some ?_
      exact StoredCount.next_ofNat (by omega) (by omega)
  obtain ⟨n, hn⟩ := Nat.exists_eq_succ_of_ne_zero hcount
  rw [raiseRows_eq, find?_foldl_update, hn]
  rw [hn] at hlimit
  exact hiterate n hlimit

end

end Table

end TagCache
