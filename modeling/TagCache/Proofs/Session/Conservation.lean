import TagCache.Proofs.Session.Implicit
import TagCache.Proofs.Store.Refinement

/-!
# Conservation of counts

A cache that is only rebuilt in full, added to and erased (`Upkeep`) is a ledger whose counts
balance: every reference in it is counted once with an address and once with a name. Each operation
has a meaning on ledgers, which balances whatever the snapshot is (`Upkeep.balanced_ledger`), and
does to the store of a ledger what it means, as long as no count gets too large for a signed word
(`Upkeep.run_store`). Neither the snapshots need be well-formed nor need they have anything to do
with each other. That a rebuild erases first is what keeps the balance, since laying counts over
others would count some references on one side only.
-/

namespace TagCache

open Session

/-! ## Counts below the limit of signed words -/

section
variable {κ : Type} [Ord κ]

/-- No count reaches `2 ^ 63`. -/
def Table.Below (t : Table κ Nat) : Prop := ∀ b ∈ t.entries, b.2 < 0x8000000000000000

instance (t : Table κ Nat) : Decidable t.Below := inferInstanceAs (Decidable (∀ b ∈ _, _))

variable [Std.TransOrd κ] [Std.LawfulEqOrd κ]

/-- A count of a table below the limit is below it. -/
theorem Table.Below.lt {t : Table κ Nat} (h : t.Below) {k : κ} {n : Nat} (hk : t.find? k = some n) :
    n < 0x8000000000000000 := h (k, n) (Table.find?_eq_some_iff.1 hk)

/-- Counts below the limit of the index fit 64 bits. -/
theorem Table.Below.words {t : Table κ Nat} (h : t.Below) : t.Words := fun _ _ hk =>
  Nat.lt_trans (h.lt hk) (by decide)

/-- A count that was raised was below the limit before, with room for one. -/
theorem Table.Below.of_raise {t : Table κ Nat} {k : κ} (h : (t.raise k 1).Below) :
    t.Below ∧ t.getD k 0 + 1 < 0x8000000000000000 := by
  have hself : (t.raise k 1).find? k = some (t.getD k 0 + 1) := Table.find?_insert_self _ _ _
  refine ⟨fun b hb => ?_, h.lt hself⟩
  obtain ⟨k', n⟩ := b
  have hfind := Table.find?_eq_some_iff.2 hb
  by_cases hk : k' = k
  · subst hk
    have hlt := h.lt hself
    rw [Table.getD, hfind, Option.getD_some] at hlt
    exact Nat.lt_of_succ_lt hlt
  · have hother : (t.raise k 1).find? k' = some n := by
      rw [Table.raise, Table.find?_insert_of_ne _ _ hk, hfind]
    exact h.lt hother

end

/-- No count reaches `2 ^ 63`. -/
structure Counts.Below (c : Counts) : Prop where
  addresses : c.addresses.Below
  names : c.names.Below

instance (c : Counts) : Decidable c.Below :=
  decidable_of_iff (c.addresses.Below ∧ c.names.Below) ⟨fun h => ⟨h.1, h.2⟩, fun h => ⟨h.1, h.2⟩⟩

namespace Counts.Below

variable {c : Counts}

/-- No counts are below the limit. -/
theorem empty : (∅ : Counts).Below where
  addresses b hb := by cases hb
  names b hb := by cases hb

/-- Counts below the limit fit. -/
theorem fits (h : c.Below) : c.Fits := ⟨h.addresses.words, h.names.words⟩

/-- Counts that are below the limit with one reference more are so without it. -/
theorem of_record {a : Address} {name : String} (h : (c.record a name).Below) : c.Below :=
  have haddresses : (c.addresses.raise a 1).Below := h.addresses
  have hnames : (c.names.raise name 1).Below := h.names
  ⟨haddresses.of_raise.1, hnames.of_raise.1⟩

/-- Counts that may be raised without reaching the limit may be raised. -/
theorem raises {a : Address} {name : String} (h : (c.record a name).Below) (p : Partition) :
    p.Raises (c.names.getD name 0) ∧ p.Raises (c.addresses.getD a 0) := by
  have haddresses : (c.addresses.raise a 1).Below := h.addresses
  have hnames : (c.names.raise name 1).Below := h.names
  have ha := haddresses.of_raise.2
  have hn := hnames.of_raise.2
  exact ⟨⟨by omega, fun _ => by omega⟩, ⟨by omega, fun _ => by omega⟩⟩

end Counts.Below

namespace Ledger

/-- No count of a partition reaches `2 ^ 63`. -/
def Below (l : Ledger) : Prop := ∀ p, (l.counts p).Below

/-- A ledger is below the limit if every partition is. -/
theorem below_iff {l : Ledger} :
    l.Below ↔ (∀ b ∈ l.functions.entries, b.2.Below) ∧ l.globals.Below := by
  constructor
  · refine fun h => ⟨fun b hb => ?_, h .globals⟩
    have hcounts : l.counts (.contents b.1) = b.2 :=
      counts_eq_of_counts? (Table.find?_eq_some_iff.2 hb)
    exact hcounts ▸ h (.contents b.1)
  · rintro ⟨hfunctions, hglobals⟩ p
    cases p with
    | globals => exact hglobals
    | contents f =>
      rw [counts, Table.getD]
      cases hf : l.functions.find? f with
      | none => exact .empty
      | some c => exact hfunctions (f, c) (Table.find?_eq_some_iff.1 hf)

instance (l : Ledger) : Decidable l.Below := decidable_of_iff _ below_iff.symm

variable {l : Ledger} {p : Partition} {c : Counts}

/-- A ledger below the limit fits. -/
theorem Below.fits (h : l.Below) : l.Fits := by
  refine ⟨fun f c hf => ?_, (h .globals).fits⟩
  have hcounts : l.counts (.contents f) = c := counts_eq_of_counts? hf
  exact hcounts ▸ (h (.contents f)).fits

/-- A ledger that is below the limit after an update was so before, if the partition was. -/
theorem Below.of_update (h : (l.update p c).Below) (hp : (l.counts p).Below) : l.Below := by
  intro q
  by_cases hq : q = p
  · exact hq ▸ hp
  · exact counts_update_of_ne l hq c ▸ h q

/-! ## What the operations mean -/

/-- The ledger without the entries of functions. -/
def dropped (l : Ledger) (fs : List Address) : Ledger :=
  { l with functions := fs.foldl Table.erase l.functions }

/-- The ledger after a full erasure. -/
def cleared (db : Snapshot) (l : Ledger) : Ledger := { l.dropped db.entries with globals := ∅ }

/-- The ledger with references recorded. -/
def recorded (l : Ledger) (refs : List Reference) : Ledger :=
  refs.foldl (fun l r => l.update r.1 ((l.counts r.1).record r.2.1 r.2.2)) l

/-- The ledger with functions built. -/
def built (db : Snapshot) (l : Ledger) (fs : List Address) : Ledger :=
  fs.foldl (fun l f => l.update (.contents f) (db.contentsCounts f)) l

/-- The ledger after a full rebuild. Each function that owns an entry point is built; the entry
point need not be its own. -/
def rebuilt (db : Snapshot) (l : Ledger) : Ledger :=
  ((l.cleared db).built db (db.entries.filterMap db.functionOf?)).update .globals db.globalsCounts

variable {db : Snapshot}

/-- Dropped functions have no counts, and the others have those that they had. -/
theorem counts_dropped (l : Ledger) (fs : List Address) (f : Address) :
    (l.dropped fs).counts (.contents f) = if f ∈ fs then ∅ else l.counts (.contents f) := by
  show ((fs.foldl Table.erase l.functions).find? f).getD ∅ = _
  rw [Table.foldl_erase, Table.find?_filter_key]
  by_cases hf : f ∈ fs
  · simp [hf]
  · simp [hf, counts, Table.getD]

/-- Functions that were built have their references, and the others have what they had. -/
theorem counts_built (l : Ledger) (fs : List Address) (f : Address) :
    (l.built db fs).counts (.contents f)
      = if f ∈ fs then db.contentsCounts f else l.counts (.contents f) := by
  unfold built
  induction fs generalizing l with
  | nil => simp
  | cons g fs ih =>
    rw [List.foldl_cons, ih]
    by_cases hg : f = g
    · subst hg
      simp [counts_update_self]
    · have hne : Partition.contents f ≠ .contents g := fun he => hg (Partition.contents.inj he)
      simp [hg, counts_update_of_ne l hne]

/-- Building functions leaves the index. -/
theorem globals_built (l : Ledger) (fs : List Address) : (l.built db fs).globals = l.globals := by
  induction fs generalizing l with
  | nil => rfl
  | cons f fs ih => exact ih _

/-- Dropping functions keeps a ledger fitting. -/
theorem Fits.dropped (h : l.Fits) (fs : List Address) : (l.dropped fs).Fits := by
  induction fs generalizing l with
  | nil => exact h
  | cons f fs ih => exact ih (h.erase (.contents f))

/-- What is recorded at last bounds what was before. -/
theorem Below.of_recorded (refs : List Reference)
    (h : (l.recorded refs).Below) : l.Below := by
  induction refs generalizing l with
  | nil => exact h
  | cons r refs ih =>
    have hstep := ih h
    have hself := hstep r.1
    rw [counts_update_self] at hself
    exact hstep.of_update hself.of_record

/-! ## Balance -/

/-- The counts of every partition balance. -/
def Balanced (l : Ledger) : Prop := ∀ p, (l.counts p).Balanced

namespace Balanced

/-- A ledger stays balanced if a partition is given counts that balance. -/
theorem update (h : l.Balanced) (p : Partition) (hc : c.Balanced) : (l.update p c).Balanced := by
  intro q
  by_cases hq : q = p
  · subst hq
    rw [counts_update_self]
    exact hc
  · rw [counts_update_of_ne l hq]
    exact h q

/-- A ledger stays balanced if functions are dropped. -/
theorem dropped (h : l.Balanced) (fs : List Address) : (l.dropped fs).Balanced := by
  intro p
  cases p with
  | globals => exact h .globals
  | contents f =>
    rw [counts_dropped]
    split
    · exact .empty
    · exact h (.contents f)

/-- A ledger stays balanced if it is cleared. -/
theorem cleared (h : l.Balanced) (db : Snapshot) : (l.cleared db).Balanced := by
  intro p
  cases p with
  | globals => exact .empty
  | contents f => exact h.dropped db.entries (.contents f)

/-- A ledger stays balanced if references are added to it. -/
theorem recorded (h : l.Balanced) (refs : List Reference) :
    (l.recorded refs).Balanced := by
  induction refs generalizing l with
  | nil => exact h
  | cons r refs ih => exact ih (h.update r.1 ((h r.1).record r.2.1 r.2.2))

/-- A ledger stays balanced if functions are built. -/
theorem built (h : l.Balanced) (db : Snapshot) (fs : List Address) : (l.built db fs).Balanced := by
  induction fs generalizing l with
  | nil => exact h
  | cons f fs ih => exact ih (h.update (.contents f) (Counts.Balanced.empty.tallyAll _))

/-- A ledger stays balanced if it is rebuilt. -/
theorem rebuilt (h : l.Balanced) (db : Snapshot) : (l.rebuilt db).Balanced :=
  ((h.cleared db).built db _).update .globals
    ((Counts.Balanced.empty.tallyAll _).merge (Counts.Balanced.empty.tallyAll _))

end Balanced

/-! ## What the operations do -/

/-- Dropping functions from a ledger erases their documents from its store. -/
theorem store_dropped (l : Ledger) (fs : List Address) :
    (l.dropped fs).store = Store.fresh.withTables (fs.foldl Table.erase l.documents)
      l.globals.names.stored l.globals.addresses.stored := by
  induction fs generalizing l with
  | nil => rfl
  | cons f fs ih =>
    have hdocuments : (l.erase (.contents f)).documents = l.documents.erase f :=
      Table.mapValues_erase _ l.functions f
    rw [List.foldl_cons, ← hdocuments]
    exact ih (l.erase (.contents f))

/-- The erasure leads from the store of a ledger to that of the cleared one. -/
theorem reaches_erase (l : Ledger) (db : Snapshot) :
    ∃ removed, Reaches (Session.erase db) l.store removed (l.cleared db).store := by
  have hstore : (l.cleared db).store = l.store.cleared db := by
    show Store.fresh.withTables (l.dropped db.entries).documents ∅ ∅ = _
    have hdocuments := congrArg Store.contents (store_dropped l db.entries)
    have hdocuments : (l.dropped db.entries).documents = db.entries.foldl Table.erase l.documents :=
      Option.some.inj hdocuments
    rw [hdocuments, Table.foldl_erase]
    rfl
  rw [hstore]
  exact ⟨_, Session.reaches_erase Store.fresh l.documents _ _ db⟩

/-- A function is built where it has no entry or the one that a build gives it. -/
theorem reaches_contents (hl : l.Fits) {a f : Address} (howner : db.functionOf? a = some f)
    (hcounts : l.counts (.contents f) = ∅ ∨ l.counts (.contents f) = db.contentsCounts f) :
    Reaches (contents db a) l.store (db.contentsCounts f)
      (l.update (.contents f) (db.contentsCounts f)).store := by
  have hplain := Entry.plain_ofCounts (.contents f) (hl.counts (.contents f))
  have hrun := Session.reaches_contents (s := Store.fresh) (n := l.globals.names.stored)
    (t := l.globals.addresses.stored) howner (startEntry_documents hl f) hplain
  have hlaid : (Entry.ofCounts (.contents f) (l.counts (.contents f))).laid (db.contentsCounts f)
      = .ofCounts (.contents f) (db.contentsCounts f) := by
    rcases hcounts with h | h
    · rw [h, Entry.laid, Entry.setNames_ofCounts, Entry.setAddresses_ofCounts]
      exact congrArg (Entry.ofCounts (.contents f))
        (congr (congrArg Counts.mk (Table.overlay_empty_left _)) (Table.overlay_empty_left _))
    · rw [h, Entry.laid_ofCounts]
  have hdocuments : (l.update (.contents f) (db.contentsCounts f)).documents
      = l.documents.insert f (Entry.ofCounts (.contents f) (db.contentsCounts f)).text :=
    Table.mapValues_insert _ l.functions f _
  rw [hlaid, ← hdocuments] at hrun
  exact hrun

/-- So are all functions in order, also where several entry points have one owner, which is then
built more than once. -/
theorem reaches_allContents (total position : Nat) {fs : List Address} (hl : l.Fits)
    (hfits : ∀ f ∈ fs.filterMap db.functionOf?, (db.contentsCounts f).Fits)
    (hcounts : ∀ f ∈ db.entries,
      l.counts (.contents f) = ∅ ∨ l.counts (.contents f) = db.contentsCounts f) :
    Reaches (allContents db total position fs) l.store ()
      (l.built db (fs.filterMap db.functionOf?)).store := by
  induction fs generalizing l position with
  | nil => exact .pure
  | cons e fs ih =>
    cases howner : db.functionOf? e with
    | none =>
      rw [List.filterMap_cons_none howner] at hfits ⊢
      exact (Reaches.writeLine _).bind
        ((reaches_contents_outside howner).discard.bind (ih _ hl hfits hcounts))
    | some f =>
      rw [List.filterMap_cons_some howner] at hfits ⊢
      have hf := Snapshot.mem_entries_of_functionOf? howner
      have hl' := hl.update (.contents f) (hfits f List.mem_cons_self)
      have hrest := ih (position + 1) hl' (fun g hg => hfits g (List.mem_cons_of_mem _ hg)) ?_
      · exact (Reaches.writeLine _).bind
          ((reaches_contents hl howner (hcounts f hf)).discard.bind hrest)
      · intro g hg
        by_cases hgf : g = f
        · subst hgf
          exact .inr (counts_update_self l _ _)
        · have hne : Partition.contents g ≠ .contents f := fun he => hgf (Partition.contents.inj he)
          rw [counts_update_of_ne l hne]
          exact hcounts g hg

/-- Building an empty index leads to the store of the ledger with the counts of the index. -/
theorem reaches_globals (hglobals : l.globals = ∅) :
    Reaches (Session.globals db) l.store db.globalsCounts
      (l.update .globals db.globalsCounts).store := by
  have hrun : Reaches (Session.globals db) l.store db.globalsCounts _ := Session.reaches_globals
  rw [overlay_stored, overlay_stored, hglobals] at hrun
  have hnames : (∅ : Counts).names.overlay db.globalsCounts.names = db.globalsCounts.names :=
    Table.overlay_empty_left _
  have haddresses : (∅ : Counts).addresses.overlay db.globalsCounts.addresses
      = db.globalsCounts.addresses := Table.overlay_empty_left _
  rw [hnames, haddresses] at hrun
  exact hrun

/-- A whole rebuild leads to the store of the rebuilt ledger, if that is below the limit. -/
theorem reaches_everything (hl : l.Fits) (hbelow : (l.rebuilt db).Below) :
    Reaches (everything db) l.store () (l.rebuilt db).store := by
  obtain ⟨removed, herase⟩ := reaches_erase l db
  have hcleared : (l.cleared db).Fits := ⟨(hl.dropped db.entries).functions, Counts.Fits.empty⟩
  have hempty (f : Address) (hf : f ∈ db.entries) : (l.cleared db).counts (.contents f) = ∅ := by
    have hcounts := counts_dropped l db.entries f
    rw [if_pos hf] at hcounts
    exact hcounts
  have hfits : ∀ f ∈ db.entries.filterMap db.functionOf?, (db.contentsCounts f).Fits := by
    intro f hf
    have hcounts : (l.rebuilt db).counts (.contents f) = db.contentsCounts f := by
      rw [rebuilt, counts_update_of_ne _ (by simp), counts_built, if_pos hf]
    exact hcounts ▸ (hbelow (.contents f)).fits
  have hglobals : ((l.cleared db).built db (db.entries.filterMap db.functionOf?)).globals = ∅ :=
    globals_built _ _
  exact herase.discard.bind <| (reaches_allContents _ _ hcleared hfits
    fun f hf => .inl (hempty f hf)).bind <| (Reaches.writeLine _).bind
      (reaches_globals hglobals).discard

/-- Adding references leads to the store of the ledger with them, if that is below the limit. -/
theorem reaches_addReferences {refs : List Reference}
    (h : (l.recorded refs).Below) :
    Reaches (addReferences refs) l.store refs.length (l.recorded refs).store := by
  induction refs generalizing l with
  | nil => exact .pure
  | cons r refs ih =>
    have hstep : (l.update r.1 ((l.counts r.1).record r.2.1 r.2.2)).Below :=
      Below.of_recorded refs h
    have hself := hstep r.1
    rw [counts_update_self] at hself
    obtain ⟨hname, haddress⟩ := hself.raises r.1
    have happly := apply_increment (hstep.of_update hself.of_record).fits hname haddress
    rw [List.length_cons, Nat.add_comm]
    exact (Reaches.mutate happly).bind ((ih h).bind .pure)

end Ledger

/-! ## Histories -/

/-- The calls that rebuild in full, add to and erase a cache. -/
inductive Upkeep where
  | everything
  | erase
  | customNames
  | extraComments
  | eraseContents (pulls : Nat)

namespace Upkeep

/-- The call of the cache. -/
def call : Upkeep → Call
  | .everything => .operate .everything
  | .erase => .operate .erase
  | .customNames => .operate .customNames
  | .extraComments => .operate .extraComments
  | .eraseContents pulls => .eraseContents pulls

/-- What the call means on a ledger. -/
def ledger (db : Snapshot) (l : Ledger) : Upkeep → Ledger
  | .everything => l.rebuilt db
  | .erase => l.cleared db
  | .customNames => l.recorded (Operation.references db .customNames)
  | .extraComments => l.recorded (Operation.references db .extraComments)
  | .eraseContents pulls => l.dropped (db.entries.take pulls)

/-- The store after calls in order, each under its own snapshot and an output that takes every
line. -/
def replay (s : Store) (history : List (Snapshot × Upkeep)) : Store :=
  history.foldl (fun s u => u.2.call.run u.1 s none) s

/-- The ledger after those calls. -/
def account (l : Ledger) (history : List (Snapshot × Upkeep)) : Ledger :=
  history.foldl (fun l u => u.2.ledger u.1 l) l

variable {db : Snapshot} {l : Ledger}

/-- No step of the upkeep brings a ledger out of balance. -/
theorem balanced_ledger (h : l.Balanced) (u : Upkeep) : (u.ledger db l).Balanced := by
  cases u with
  | everything => exact h.rebuilt db
  | erase => exact h.cleared db
  | customNames | extraComments => exact h.recorded _
  | eraseContents pulls => exact h.dropped _

/-- Nor does a whole history, though the snapshot may change between its steps. -/
theorem balanced_account (h : l.Balanced) (history : List (Snapshot × Upkeep)) :
    (account l history).Balanced := by
  induction history generalizing l with
  | nil => exact h
  | cons u history ih => exact ih (balanced_ledger h u.2)

/-- A call does to the store of a ledger what it means, if no count gets too large. -/
theorem run_store (hl : l.Below) (u : Upkeep) (h : (u.ledger db l).Below) :
    u.call.run db l.store none = (u.ledger db l).store := by
  cases u with
  | everything =>
    have hrun : Reaches (Operation.run db .everything) l.store _ (l.rebuilt db).store :=
      (Ledger.reaches_everything hl.fits h).bind .pure
    exact hrun.store
  | erase =>
    obtain ⟨removed, herase⟩ := Ledger.reaches_erase l db
    have hrun : Reaches (Operation.run db .erase) l.store _ (l.cleared db).store :=
      herase.bind .pure
    exact hrun.store
  | customNames =>
    obtain ⟨summary, hrun⟩ :=
      Operation.Adds.customNames.exists_reaches_run (Ledger.reaches_addReferences h)
    exact hrun.store
  | extraComments =>
    obtain ⟨summary, hrun⟩ :=
      Operation.Adds.extraComments.exists_reaches_run (Ledger.reaches_addReferences h)
    exact hrun.store
  | eraseContents pulls =>
    have hpull := Erasure.store_pull _ Table.erase
      (reaches_removal_contents Store.fresh · l.globals.names.stored l.globals.addresses.stored)
      pulls db.entries.length db.entries l.documents 0 #[]
    rw [← Ledger.store_dropped] at hpull
    exact hpull

/-- From the store of a ledger on, it keeps the ledger. -/
theorem replay_store {history : List (Snapshot × Upkeep)}
    (h : ∀ k ≤ history.length, (account l (history.take k)).Below) :
    (account l history).Below ∧ replay l.store history = (account l history).store := by
  induction history generalizing l with
  | nil => exact ⟨h 0 (Nat.le_refl 0), rfl⟩
  | cons u history ih =>
    have hl : l.Below := h 0 (Nat.zero_le _)
    have hstep : (u.2.ledger u.1 l).Below := h 1 (Nat.succ_le_succ (Nat.zero_le _))
    have hrun := run_store hl u.2 hstep
    obtain ⟨hbelow, hrest⟩ := ih fun k hk => h (k + 1) (Nat.succ_le_succ hk)
    refine ⟨hbelow, ?_⟩
    rw [← hrun] at hrest
    exact hrest

end Upkeep

/-- From an empty store on, whatever the snapshots are, everything that is stored can be read, and
the counts of the addresses of each partition add up to those of its names. The store reads as the
ledger that the calls stand for, in which no count may have reached `2 ^ 63` after any of them. -/
theorem counts_conserved (history : List (Snapshot × Upkeep))
    (h : ∀ k ≤ history.length, (Upkeep.account ∅ (history.take k)).Below) :
    let s := Upkeep.replay .fresh history
    s.Shows (Upkeep.account ∅ history) ∧
      ∀ p, s.read p = .ok none ∨ ∃ c, s.Holds p c ∧ c.addressTotal = c.nameTotal := by
  intro s
  have hfresh : Store.fresh = (∅ : Ledger).store := rfl
  obtain ⟨hbelow, hreplay⟩ := Upkeep.replay_store h
  -- the store is that of a ledger, so it is enough that ledgers stay balanced
  have hs : s = (Upkeep.account ∅ history).store := by
    rw [← hreplay, ← hfresh]
  have hshows := Ledger.shows_store hbelow.fits
  rw [hs]
  refine ⟨hshows, fun p => ?_⟩
  cases hp : (Upkeep.account ∅ history).counts? p with
  | none => exact .inl (hshows.absent p hp)
  | some c =>
    have hempty : (∅ : Ledger).Balanced := fun p => by cases p <;> exact .empty
    have hcounts := Ledger.counts_eq_of_counts? hp
    exact .inr ⟨c, hshows.present p c hp,
      hcounts ▸ Upkeep.balanced_account hempty history p⟩

/-- Calls under changing snapshots. The second one does not know the function at 40, whose entry it
leaves behind. -/
def Upkeep.changing : List (Snapshot × Upkeep) :=
  [(.commented, .everything), (.commented, .extraComments), (.small, .everything),
    (.commented, .customNames), (.small, .eraseContents 1)]

/-- The counts are conserved in a history in which the snapshot changes. -/
theorem counts_conserved_changing :
    (∀ k ≤ Upkeep.changing.length, (Upkeep.account ∅ (Upkeep.changing.take k)).Below) ∧
    let s := Upkeep.replay .fresh Upkeep.changing
    s.Shows (Upkeep.account ∅ Upkeep.changing) ∧
      ∀ p, s.read p = .ok none ∨ ∃ c, s.Holds p c ∧ c.addressTotal = c.nameTotal :=
  have h : ∀ k ≤ Upkeep.changing.length,
      (Upkeep.account ∅ (Upkeep.changing.take k)).Below := by decide +kernel
  ⟨h, counts_conserved Upkeep.changing h⟩

end TagCache
