import TagCache.Proofs.Entry.Update
import TagCache.Proofs.Store

/-!
# The ledger

What the store is for, apart from how anything is stored: counts for each function that has an
entry, and counts for the globals index (`Ledger`). A call of the store (`StoreCall`) has a meaning
here that mentions no document, no row and no signed word (`Ledger.step`): counts are laid over
tables, a reference is recorded, keys are dropped. The calls that a ledger admits
(`Ledger.Admits`) are those that give counts of 64 bits and raise no count that is at its limit;
they keep the ledger's own counts within 64 bits (`Ledger.Fits.step`).
-/

namespace TagCache

/-! ## Calls -/

/-- A call of the store. -/
inductive StoreCall where
  | change (m : Mutation)
  /-- Delete everything stored for a partition. -/
  | deleteAll (p : Partition)
deriving DecidableEq

/-- What a call gives back: the number of deleted entries if it is a deletion, and nothing if it is
a change. -/
abbrev Reply := Except Failure (Option Nat)

/-- The replies to calls in order, and the state after them. A call that fails stops nothing. -/
def replayCalls {σ : Type} (step : StoreCall → σ → Reply × σ) : List StoreCall → σ → List Reply × σ
  | [], s => ([], s)
  | call :: calls, s =>
    let r := step call s
    let rest := replayCalls step calls r.2
    (r.1 :: rest.1, rest.2)

/-- Make a call of the store. -/
def StoreCall.run : StoreCall → Store → Reply × Store
  | .change m, s =>
    let r := m.apply s
    (r.1.map fun _ => none, r.2)
  | .deleteAll p, s =>
    let r := StoreM.deleteAll p s
    (r.1.map some, r.2)

/-! ## Ledgers -/

/-- The counts of the partitions. -/
structure Ledger where
  /-- The counts of each function that has an entry. -/
  functions : Table Address Counts
  globals : Counts
deriving DecidableEq

namespace Ledger

/-- No entry at all. -/
def empty : Ledger := ⟨∅, ∅⟩

instance : EmptyCollection Ledger := ⟨empty⟩
instance : Inhabited Ledger := ⟨empty⟩

/-- The counts of a partition, if it has an entry. The globals index has one if it has a key. -/
def counts? (l : Ledger) : Partition → Option Counts
  | .contents f => l.functions.find? f
  | .globals => if l.globals.isEmpty then none else some l.globals

/-- The counts of a partition, none where it has no entry. -/
def counts (l : Ledger) : Partition → Counts
  | .contents f => l.functions.getD f ∅
  | .globals => l.globals

/-- Give a partition counts. A function that has no entry gets one. -/
def update (l : Ledger) (p : Partition) (c : Counts) : Ledger :=
  match p with
  | .contents f => { l with functions := l.functions.insert f c }
  | .globals => { l with globals := c }

/-- Whether a key is there. -/
def has (l : Ledger) : CacheKey → Bool
  | .contents f => l.functions.contains f
  | .global (.name k) => l.globals.names.contains k
  | .global (.address a) => l.globals.addresses.contains a

/-- Drop a key. -/
def erase (l : Ledger) : CacheKey → Ledger
  | .contents f => { l with functions := l.functions.erase f }
  | .global (.name k) => { l with globals := ⟨l.globals.addresses, l.globals.names.erase k⟩ }
  | .global (.address a) => { l with globals := ⟨l.globals.addresses.erase a, l.globals.names⟩ }

/-- Drop a key that has to be there. -/
def remove (l : Ledger) (k : CacheKey) : Reply × Ledger :=
  if l.has k then (.ok none, l.erase k) else (.error (.entryMissing k), l)

/-- Carry out a change. -/
def change (l : Ledger) : Mutation → Reply × Ledger
  | .setNames p t =>
    let c := l.counts p
    (.ok none, l.update p ⟨c.addresses, c.names.overlay t⟩)
  | .setAddresses p t =>
    let c := l.counts p
    (.ok none, l.update p ⟨c.addresses.overlay t, c.names⟩)
  | .increment p a name => (.ok none, l.update p ((l.counts p).record a name))
  | .removeContents f => l.remove (.contents f)
  | .removeGlobal k => l.remove (.global k)

/-- Make a call. -/
def step : StoreCall → Ledger → Reply × Ledger
  | .change m, l => l.change m
  | .deleteAll (.contents f), l =>
    (.ok (some (if l.has (.contents f) then 1 else 0)), l.erase (.contents f))
  | .deleteAll .globals, l =>
    (.ok (some (l.globals.names.size + l.globals.addresses.size)), { l with globals := ∅ })

/-- The ledger after changes in order. -/
def changed (l : Ledger) (ms : List Mutation) : Ledger := ms.foldl (fun l m => (l.change m).2) l

/-! ## Updates -/

/-- A partition has the counts that it was given. -/
theorem counts_update_self (l : Ledger) (p : Partition) (c : Counts) :
    (l.update p c).counts p = c := by
  cases p with
  | contents f => simp [update, counts, Table.getD]
  | globals => rfl

/-- An update of one partition leaves the counts of the others. -/
theorem counts_update_of_ne (l : Ledger) {p q : Partition} (h : q ≠ p) (c : Counts) :
    (l.update p c).counts q = l.counts q := by
  cases p <;> cases q <;> simp_all [update, counts, Table.getD, Table.find?_insert_of_ne]

/-- The counts of an entry that is there are those of the partition. -/
theorem counts_eq_of_counts? {l : Ledger} {p : Partition} {c : Counts} (h : l.counts? p = some c) :
    l.counts p = c := by
  cases p with
  | contents f =>
    have hf : l.functions.find? f = some c := h
    rw [counts, Table.getD, hf]
    rfl
  | globals =>
    have h : (if l.globals.isEmpty then none else some l.globals) = some c := h
    split at h
    · cases h
    · exact Option.some.inj h

/-- Of two updates of one partition the later one stays. -/
theorem update_update (l : Ledger) (p : Partition) (c d : Counts) :
    (l.update p c).update p d = l.update p d := by
  cases p with
  | contents f => simp [update]
  | globals => rfl

/-- Changes in a row are made one group after the other. -/
theorem changed_append (l : Ledger) (ms ms' : List Mutation) :
    l.changed (ms ++ ms') = (l.changed ms).changed ms' := List.foldl_append

/-- A build lays both tables of its counts over those of the partition. -/
theorem changed_build (l : Ledger) (p : Partition) (c : Counts) :
    l.changed [.setNames p c.names, .setAddresses p c.addresses]
      = l.update p ⟨(l.counts p).addresses.overlay c.addresses,
          (l.counts p).names.overlay c.names⟩ := by
  simp only [changed, List.foldl_cons, List.foldl_nil, change, counts_update_self, update_update]

end Ledger

/-! ## Admitted calls -/

/-- A count of a partition that can be raised by one. In the index it is stored as a signed word,
which has a smaller limit. -/
def Partition.Raises (p : Partition) (n : Nat) : Prop :=
  n ≠ 0xffffffffffffffff ∧ (p = .globals → n ≠ 0x7fffffffffffffff)

instance (p : Partition) (n : Nat) : Decidable (p.Raises n) := inferInstanceAs (Decidable (_ ∧ _))

/-- Counts with one reference more still fit, if both of its counts can be raised. -/
theorem Counts.Fits.record {c : Counts} (h : c.Fits) {p : Partition} {a : Address} {name : String}
    (hname : p.Raises (c.names.getD name 0)) (haddress : p.Raises (c.addresses.getD a 0)) :
    (c.record a name).Fits := by
  have hword {n : Nat} (hn : n < UInt64.size) (hraise : p.Raises n) : n + 1 < UInt64.size := by
    have hne := hraise.1
    have hsize : UInt64.size = 0xffffffffffffffff + 1 := rfl
    omega
  have hnames : c.names.Words := h.names
  have haddresses : c.addresses.Words := h.addresses
  exact ⟨haddresses.insert a (hword (haddresses.getD a) haddress),
    hnames.insert name (hword (hnames.getD name) hname)⟩

namespace Ledger

/-- The calls that give counts of 64 bits and raise no count that is at its limit. -/
def Admits (l : Ledger) : StoreCall → Prop
  | .change (.setNames _ t) => t.Words
  | .change (.setAddresses _ t) => t.Words
  | .change (.increment p a name) =>
    p.Raises ((l.counts p).names.getD name 0) ∧ p.Raises ((l.counts p).addresses.getD a 0)
  | .change (.removeContents _) => True
  | .change (.removeGlobal _) => True
  | .deleteAll _ => True

instance decidableAdmits (l : Ledger) : (call : StoreCall) → Decidable (l.Admits call)
  | .change (.setNames _ t) => inferInstanceAs (Decidable t.Words)
  | .change (.setAddresses _ t) => inferInstanceAs (Decidable t.Words)
  | .change (.increment _ _ _) => inferInstanceAs (Decidable (_ ∧ _))
  | .change (.removeContents _) => inferInstanceAs (Decidable True)
  | .change (.removeGlobal _) => inferInstanceAs (Decidable True)
  | .deleteAll _ => inferInstanceAs (Decidable True)

/-- The calls in order are admitted, each where it is made. -/
def AdmitsAll : Ledger → List StoreCall → Prop
  | _, [] => True
  | l, call :: calls => l.Admits call ∧ AdmitsAll (step call l).2 calls

instance decidableAdmitsAll :
    (l : Ledger) → (calls : List StoreCall) → Decidable (l.AdmitsAll calls)
  | _, [] => inferInstanceAs (Decidable True)
  | l, call :: calls =>
    have := decidableAdmitsAll (step call l).2 calls
    inferInstanceAs (Decidable (_ ∧ _))

/-! ## What the calls keep -/

/-- All counts are 64-bit words. -/
structure Fits (l : Ledger) : Prop where
  functions : ∀ f c, l.functions.find? f = some c → c.Fits
  globals : l.globals.Fits

variable {l : Ledger}

/-- The counts of no entry fit. -/
theorem Fits.empty : (∅ : Ledger).Fits := by
  refine ⟨fun f c h => ?_, Counts.Fits.empty⟩
  cases h

/-- In a ledger that fits, the counts of every partition do. -/
theorem Fits.counts (h : l.Fits) (p : Partition) : (l.counts p).Fits := by
  cases p with
  | contents f =>
    show ((l.functions.find? f).getD ∅).Fits
    cases hf : l.functions.find? f with
    | none => exact Counts.Fits.empty
    | some c => exact h.functions f c hf
  | globals => exact h.globals

/-- Giving a partition counts that fit keeps the ledger fitting. -/
theorem Fits.update (h : l.Fits) (p : Partition) {c : Counts} (hc : c.Fits) :
    (l.update p c).Fits := by
  cases p with
  | contents f =>
    refine ⟨fun g d hg => ?_, h.globals⟩
    have hg : (l.functions.insert f c).find? g = some d := hg
    by_cases hgf : g = f
    · subst hgf
      rw [Table.find?_insert_self] at hg
      cases hg
      exact hc
    · rw [Table.find?_insert_of_ne _ _ hgf] at hg
      exact h.functions g d hg
  | globals => exact ⟨h.functions, hc⟩

/-- Dropping a key keeps the ledger fitting. -/
theorem Fits.erase (h : l.Fits) (k : CacheKey) : (l.erase k).Fits := by
  have hnames : l.globals.names.Words := h.globals.names
  have haddresses : l.globals.addresses.Words := h.globals.addresses
  cases k with
  | contents f =>
    refine ⟨fun g d hg => ?_, h.globals⟩
    have hg : (l.functions.erase f).find? g = some d := hg
    by_cases hgf : g = f
    · subst hgf
      rw [Table.find?_erase_self] at hg
      cases hg
    · rw [Table.find?_erase_of_ne _ hgf] at hg
      exact h.functions g d hg
  | global k =>
    cases k with
    | name k => exact ⟨h.functions, haddresses, hnames.erase k⟩
    | address a => exact ⟨h.functions, haddresses.erase a, hnames⟩

/-- So does dropping a key that has to be there, whether it is or not. -/
theorem Fits.remove (h : l.Fits) (k : CacheKey) : (l.remove k).2.Fits := by
  unfold Ledger.remove
  split
  · exact h.erase k
  · exact h

/-- An admitted call leaves counts of 64 bits. -/
theorem Fits.step (h : l.Fits) {call : StoreCall} (hadmits : l.Admits call) :
    (step call l).2.Fits := by
  cases call with
  | change m =>
    cases m with
    | setNames p t =>
      have hnames : (l.counts p).names.Words := (h.counts p).names
      exact h.update p ⟨(h.counts p).addresses, hnames.overlay hadmits⟩
    | setAddresses p t =>
      have haddresses : (l.counts p).addresses.Words := (h.counts p).addresses
      exact h.update p ⟨haddresses.overlay hadmits, (h.counts p).names⟩
    | increment p a name => exact h.update p ((h.counts p).record hadmits.1 hadmits.2)
    | removeContents f => exact h.remove (.contents f)
    | removeGlobal k => exact h.remove (.global k)
  | deleteAll p =>
    cases p with
    | contents f => exact h.erase (.contents f)
    | globals => exact ⟨h.functions, Counts.Fits.empty⟩

end Ledger

end TagCache
