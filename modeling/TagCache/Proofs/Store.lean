import TagCache.Proofs.Entry
import TagCache.Store.Basic

/-!
# Laws of the store

What each change does to a store with its three cache tables (`Store.withTables`), as one equation
per change. A change that fails leaves the store as it was (`Mutation.atomic_apply`). Whatever the
store holds and however a change ends, it leaves every document other than that of its own function
alone, and drops or creates no table (`Mutation.apply_sameOutside`).
-/

namespace TagCache

/-! ## Actions -/

namespace StoreM

variable {α β : Type}

/-- A failure ends a row of actions on the store that it left. -/
theorem bind_apply (x : StoreM α) (f : α → StoreM β) (s : Store) :
    (x >>= f) s = match x s with
      | (.ok a, s') => f a s'
      | (.error e, s') => (.error e, s') := by
  show (match x s with | (r, s') => ExceptT.bindCont f r s') = _
  rcases x s with ⟨_ | _, _⟩ <;> rfl

/-- The handler goes on from the store in which the failure left the action. -/
theorem tryCatch_apply (x : StoreM α) (h : Failure → StoreM α) (s : Store) :
    tryCatch x h s = match x s with
      | (.ok a, s') => (.ok a, s')
      | (.error e, s') => h e s' := by
  show ExceptT.tryCatch x h s = _
  unfold ExceptT.tryCatch ExceptT.mk
  simp only [bind, StateT.bind]
  rcases x s with ⟨_ | _, _⟩ <;> rfl

/-- A question leaves the store. -/
@[simp] theorem asks_apply (g : Store → Except Failure α) (s : Store) : asks g s = (g s, s) := by
  show asks.liftExcept (g s) s = _
  cases g s <;> rfl

end StoreM

/-! ## Stores with their tables -/

namespace Store

/-- The store with the given cache tables. -/
def withTables (s : Store) (c : Table Address String) (n : Table String StoredCount)
    (a : Table Address StoredCount) : Store :=
  { s with contents := some c, names := some n, addresses := some a }

/-- The three cache tables are there. -/
structure HasTables (s : Store) : Prop where
  contents : s.contents.isSome
  names : s.names.isSome
  addresses : s.addresses.isSome

/-- A store that has its tables is some store with three given ones. -/
theorem HasTables.exists_eq {s : Store} (h : s.HasTables) :
    ∃ (r : Store) (c : _) (n : _) (a : _), s = r.withTables c n a := by
  obtain ⟨c, hc⟩ := Option.isSome_iff_exists.1 h.contents
  obtain ⟨n, hn⟩ := Option.isSome_iff_exists.1 h.names
  obtain ⟨a, ha⟩ := Option.isSome_iff_exists.1 h.addresses
  refine ⟨s, c, n, a, ?_⟩
  cases s
  simp_all [withTables]

/-- The document stored for a function. -/
def document? (s : Store) (f : Address) : Option String := s.contents.bind (·.find? f)

/-- The count of a name in the index. -/
def nameCount? (s : Store) (k : String) : Option StoredCount := s.names.bind (·.find? k)

/-- The count of an address in the index. -/
def addressCount? (s : Store) (a : Address) : Option StoredCount := s.addresses.bind (·.find? a)

/-- The store has counts of a partition: an entry is stored for it, which decodes to them. -/
def Holds (s : Store) (p : Partition) (c : Counts) : Prop :=
  ∃ e, s.read p = .ok (some e) ∧ e.counts = .ok c

section
variable {s : Store} {c : Table Address String} {f : Address}

/-- Reading a function's entry parses the document of its row, if there is one. -/
theorem readContents_eq (hc : s.contents = some c) :
    s.readContents f = match c.find? f with
      | none => .ok none
      | some text => (Entry.parse (.contents f) text).map some := by
  have hread : s.readContents f = match c.find? f with
      | none => .ok none
      | some text => (Entry.parse (.contents f) text).bind fun e => .ok (some e) := by
    unfold readContents
    rw [hc]
    rfl
  rw [hread]
  cases c.find? f with
  | none => rfl
  | some text => cases Entry.parse (.contents f) text <;> rfl

/-- A function with a document has the entry that its text parses to, or the fault of that. -/
theorem readContents_of_document? {text : String} (h : s.document? f = some text) :
    s.readContents f = (Entry.parse (.contents f) text).map some := by
  obtain ⟨c, hc, hf⟩ := Option.bind_eq_some_iff.1 h
  rw [readContents_eq hc, hf]

/-- The text of counts reads back as their entry. -/
theorem readContents_of_counts {counts : Counts} (hcounts : counts.Fits)
    (h : s.document? f = some (Entry.ofCounts (.contents f) counts).text) :
    s.readContents f = .ok (some (.ofCounts (.contents f) counts)) := by
  rw [readContents_of_document? h, Entry.parse_ofCounts _ hcounts]
  rfl

end

end Store

/-! ## Rows of the index -/

section
variable {κ : Type} [Ord κ] [Std.TransOrd κ] [Std.LawfulEqOrd κ]

/-- The rows that store counts. -/
def Table.stored (t : Table κ Nat) : Table κ StoredCount := t.mapValues fun _ n => .ofNat n

/-- Laying counts over stored rows stores the counts laid over each other. -/
theorem overlay_stored (t u : Table κ Nat) : StoreM.overlay u t.stored = (t.overlay u).stored :=
  (Table.mapValues_overlay (fun _ n => StoredCount.ofNat n) t u).symm

/-- The rows read back as the counts, cut to 64 bits. -/
theorem wholeCounts_stored (t : Table κ Nat) :
    Store.wholeCounts t.stored = .ok (t.mapValues fun _ n => n % UInt64.size) := by
  have hall : t.stored.values.all (·.toNat?.isSome) = true := by
    rw [List.all_eq_true]
    intro c hc
    obtain ⟨b, hb, rfl⟩ := List.mem_map.1 hc
    obtain ⟨b', -, rfl⟩ := List.mem_map.1 hb
    rfl
  have hback : (t.stored.mapValues fun _ c => c.toNat?.getD 0)
      = t.mapValues fun _ n => n % UInt64.size := by
    refine Table.ext_find? fun k => ?_
    rw [Table.find?_mapValues, Table.stored, Table.find?_mapValues, Table.find?_mapValues,
      Option.map_map]
    rfl
  unfold Store.wholeCounts
  rw [if_pos hall, hback]
  rfl

end

/-- The index is read from the counts of its rows. -/
theorem Store.readGlobals_of_wholeCounts {s : Store} {n : Table String StoredCount}
    {a : Table Address StoredCount} {c : Counts} (hn : s.names = some n)
    (ha : s.addresses = some a) (hnames : wholeCounts n = .ok c.names)
    (haddresses : wholeCounts a = .ok c.addresses) :
    s.readGlobals = .ok (if c.isEmpty then none else some (.ofCounts .globals c)) := by
  unfold readGlobals
  rw [hn, ha]
  show (do
    let names ← wholeCounts n
    let addresses ← wholeCounts a
    let counts : Counts := ⟨addresses, names⟩
    return if counts.isEmpty then none else some (Entry.ofCounts .globals counts)) = _
  rw [hnames, haddresses]
  rfl

/-! ## What a change does -/

/-- The entry that an update of a function's document starts from. -/
def startEntry (c : Table Address String) (f : Address) : Except Failure Entry :=
  match c.find? f with
  | none => .ok (.empty (.contents f))
  | some text => Entry.parse (.contents f) text

namespace Store

/-- The entry that an update of a function's document starts from, if the table is there. -/
def start (s : Store) (f : Address) : Except Failure Entry :=
  (Option.orFail .storage s.contents).bind (startEntry · f)

/-- The store with an entry as a function's document. -/
def put (s : Store) (f : Address) (e : Entry) : Store :=
  { s with contents := s.contents.map (·.insert f e.text) }

/-- An update starts from the entry that is read, or from an empty one. -/
theorem getD_readContents (s : Store) (f : Address) :
    (s.readContents f).map (·.getD (.empty (.contents f))) = s.start f := by
  cases hc : s.contents with
  | none =>
    unfold readContents start
    rw [hc]
    rfl
  | some c =>
    have hstart : s.start f = startEntry c f := by
      rw [start, hc]
      rfl
    rw [readContents_eq hc, hstart]
    unfold startEntry
    cases c.find? f with
    | none => rfl
    | some text =>
      show ((Entry.parse (.contents f) text).map some).map _ = Entry.parse (.contents f) text
      cases Entry.parse (.contents f) text <;> rfl

/-- A store in which an update can start has the table of documents. -/
theorem exists_contents_of_start {s : Store} {f : Address} {e : Entry} (h : s.start f = .ok e) :
    ∃ c, s.contents = some c ∧ startEntry c f = .ok e := by
  unfold start at h
  cases hc : s.contents with
  | none =>
    rw [hc] at h
    cases h
  | some c =>
    rw [hc] at h
    exact ⟨c, rfl, h⟩

end Store

section
variable {s : Store} {c : Table Address String} {n : Table String StoredCount}
  {a : Table Address StoredCount} {f : Address} {e : Entry}

/-- An update puts the new entry in place of the one that it starts from. -/
theorem updateContents_of_start (update : Entry → Except Malformation Entry) {e' : Entry}
    (he : s.start f = .ok e) (hu : update e = .ok e') :
    StoreM.updateContents f update s = (.ok (), s.put f e') := by
  obtain ⟨c, hc, -⟩ := Store.exists_contents_of_start he
  rw [← Store.getD_readContents] at he
  unfold StoreM.updateContents
  rw [StoreM.bind_apply, StoreM.asks_apply]
  cases hr : s.readContents f with
  | error _ => rw [hr] at he; cases he
  | ok r =>
    rw [hr] at he
    have hr' : r.getD (.empty (.contents f)) = e := Except.ok.inj he
    simp only [hr', hu]
    rw [StoreM.writeContents, StoreM.bind_apply, StoreM.asks_apply, Store.put, hc]
    rfl

/-- It fails where it has nothing to start from. -/
theorem updateContents_of_error (update : Entry → Except Malformation Entry) {x : Failure}
    (hx : s.start f = .error x) : StoreM.updateContents f update s = (.error x, s) := by
  rw [← Store.getD_readContents] at hx
  unfold StoreM.updateContents
  rw [StoreM.bind_apply, StoreM.asks_apply]
  cases hr : s.readContents f with
  | error y =>
    rw [hr] at hx
    cases hx
    rfl
  | ok r =>
    rw [hr] at hx
    cases hx

/-- It fails where the update does. -/
theorem updateContents_of_malformed (update : Entry → Except Malformation Entry)
    {reason : Malformation} (he : s.start f = .ok e) (hu : update e = .error reason) :
    StoreM.updateContents f update s = (.error (.malformedEntry (.contents f) reason), s) := by
  rw [← Store.getD_readContents] at he
  unfold StoreM.updateContents
  rw [StoreM.bind_apply, StoreM.asks_apply]
  cases hr : s.readContents f with
  | error _ => rw [hr] at he; cases he
  | ok r =>
    rw [hr] at he
    have hr' : r.getD (.empty (.contents f)) = e := Except.ok.inj he
    simp only [hr', hu]
    rfl

/-- An update of a function's document changes one row of its table. -/
theorem updateContents_withTables (update : Entry → Except Malformation Entry) {e' : Entry}
    (he : startEntry c f = .ok e) (hu : update e = .ok e') :
    StoreM.updateContents f update (s.withTables c n a)
      = (.ok (), s.withTables (c.insert f e'.text) n a) :=
  updateContents_of_start (s := s.withTables c n a) update he hu

/-- Setting names rewrites the entry that the update starts from. -/
theorem apply_setNames_of_start (t : NameTable) (he : s.start f = .ok e) :
    (Mutation.setNames (.contents f) t).apply s = (.ok (), s.put f (e.setNames t)) :=
  updateContents_of_start (fun e => .ok (e.setNames t)) he rfl

/-- Setting addresses rewrites the entry that the update starts from. -/
theorem apply_setAddresses_of_start (t : AddressTable) (he : s.start f = .ok e) :
    (Mutation.setAddresses (.contents f) t).apply s = (.ok (), s.put f (e.setAddresses t)) :=
  updateContents_of_start (fun e => .ok (e.setAddresses t)) he rfl

/-- Setting names in the index lays them over the rows of the names. -/
theorem apply_setNames_globals (t : NameTable) :
    (Mutation.setNames .globals t).apply (s.withTables c n a)
      = (.ok (), s.withTables c (StoreM.overlay t n) a) := rfl

/-- Setting addresses in the index lays them over the rows of the addresses. -/
theorem apply_setAddresses_globals (t : AddressTable) :
    (Mutation.setAddresses .globals t).apply (s.withTables c n a)
      = (.ok (), s.withTables c n (StoreM.overlay t a)) := rfl

/-- Adding a reference to a function rewrites one row with the raised entry. -/
theorem apply_increment_contents (b : Address) (name : String) {e' : Entry}
    (he : startEntry c f = .ok e) (hu : e.increment b name = .ok e') :
    (Mutation.increment (.contents f) b name).apply (s.withTables c n a)
      = (.ok (), s.withTables (c.insert f e'.text) n a) :=
  updateContents_withTables (fun e => e.increment b name) he hu

/-- Adding a reference to the index raises one row of each of its tables. -/
theorem apply_increment_globals (b : Address) (name : String) :
    (Mutation.increment .globals b name).apply (s.withTables c n a)
      = (.ok (), s.withTables c (StoreM.raise name n) (StoreM.raise b a)) := rfl

/-- A document is removed if its row is there, and missed otherwise. -/
theorem apply_removeContents :
    (Mutation.removeContents f).apply (s.withTables c n a)
      = if c.contains f then (.ok (), s.withTables (c.erase f) n a)
        else (.error (.entryMissing (.contents f)), s.withTables c n a) := by
  show (if c.contains f then _ else _ : StoreM Unit) (s.withTables c n a) = _
  split <;> rfl

/-- A name is removed from the index if its row is there, and missed otherwise. -/
theorem apply_removeGlobal_name (k : String) :
    (Mutation.removeGlobal (.name k)).apply (s.withTables c n a)
      = if n.contains k then (.ok (), s.withTables c (n.erase k) a)
        else (.error (.entryMissing (.global (.name k))), s.withTables c n a) := by
  show (if n.contains k then _ else _ : StoreM Unit) (s.withTables c n a) = _
  split <;> rfl

/-- An address is removed from the index if its row is there, and missed otherwise. -/
theorem apply_removeGlobal_address (k : Address) :
    (Mutation.removeGlobal (.address k)).apply (s.withTables c n a)
      = if a.contains k then (.ok (), s.withTables c n (a.erase k))
        else (.error (.entryMissing (.global (.address k))), s.withTables c n a) := by
  show (if a.contains k then _ else _ : StoreM Unit) (s.withTables c n a) = _
  split <;> rfl

end

/-! ## Changes that fail -/

namespace StoreM

/-- The action leaves the store as it was wherever it fails. -/
def Atomic {α : Type} (x : StoreM α) : Prop := ∀ s e s', x s = (.error e, s') → s' = s

namespace Atomic

variable {α β : Type}

/-- A failure by itself changes nothing. -/
theorem throw (e : Failure) : Atomic (throw e : StoreM α) := by
  intro s e' s' h
  exact (Prod.mk.inj h).2.symm

/-- A change that cannot fail is atomic. -/
theorem modify (f : Store → Store) : Atomic (modify f : StoreM Unit) := by
  intro s e s' h
  cases h

/-- What fails after a question fails on the same store. -/
theorem asks_bind {g : Store → Except Failure α} {f : α → StoreM β} (hf : ∀ a, Atomic (f a)) :
    Atomic (StoreM.asks g >>= f) := by
  intro s e s' h
  rw [bind_apply, asks_apply] at h
  cases hg : g s with
  | error e' =>
    rw [hg] at h
    exact (Prod.mk.inj h).2.symm
  | ok a =>
    rw [hg] at h
    exact hf a s e s' h

/-- A transaction is rolled back where it fails. -/
theorem transaction (x : StoreM α) : Atomic (StoreM.transaction x) := by
  intro s e s' h
  unfold StoreM.transaction at h
  split at h
  · cases h
  · exact (Prod.mk.inj h).2.symm

/-- An update fails before it writes, or writes one row. -/
theorem updateContents (f : Address) (update : Entry → Except Malformation Entry) :
    Atomic (updateContents f update) := by
  refine asks_bind fun r => ?_
  dsimp only
  split
  · exact asks_bind fun _ => modify _
  · exact throw _

/-- Removing a document fails before it writes, or drops one row. -/
theorem removeContents (f : Address) : Atomic (removeContents f) := by
  refine asks_bind fun c => ?_
  split
  · exact modify _
  · exact throw _

/-- Removing a key of the index fails before it writes, or drops one row. -/
theorem removeGlobal (k : GlobalKey) : Atomic (removeGlobal k) := by
  unfold StoreM.removeGlobal
  cases k with
  | name k =>
    refine asks_bind fun names => ?_
    split
    · exact asks_bind fun _ => modify _
    · exact throw _
  | address k =>
    refine asks_bind fun addresses => ?_
    split
    · exact asks_bind fun _ => modify _
    · exact throw _

end Atomic

end StoreM

/-- A change that fails leaves the store as it was. -/
theorem Mutation.atomic_apply (m : Mutation) : StoreM.Atomic m.apply := by
  cases m with
  | setNames p t =>
    cases p with
    | contents f => exact .updateContents f fun e => .ok (e.setNames t)
    | globals => exact .asks_bind fun _ => .modify _
  | setAddresses p t =>
    cases p with
    | contents f => exact .updateContents f fun e => .ok (e.setAddresses t)
    | globals => exact .asks_bind fun _ => .modify _
  | increment p a n =>
    cases p with
    | contents f => exact .updateContents f fun e => e.increment a n
    | globals => exact .transaction _
  | removeContents f => exact .removeContents f
  | removeGlobal k => exact .removeGlobal k

/-! ## What a change leaves alone -/

namespace Store

/-- The stores have the same tables, the same history, and the same documents of the functions that
satisfy a test. -/
structure SameOutside (p : Address → Bool) (s s' : Store) : Prop where
  version : s'.version = s.version
  runs : s'.runs = s.runs
  contents : s'.contents.map (·.filter fun k _ => p k) = s.contents.map (·.filter fun k _ => p k)
  names : s'.names.isSome = s.names.isSome
  addresses : s'.addresses.isSome = s.addresses.isSome

namespace SameOutside

variable {p : Address → Bool} {s s' s'' : Store}

/-- A store is the same as itself everywhere. -/
theorem refl (s : Store) : SameOutside p s s := ⟨rfl, rfl, rfl, rfl, rfl⟩

/-- What two changes in a row leave alone is the same after both. -/
theorem trans (h : SameOutside p s s') (h' : SameOutside p s' s'') : SameOutside p s s'' :=
  ⟨h'.version.trans h.version, h'.runs.trans h.runs, h'.contents.trans h.contents,
    h'.names.trans h.names, h'.addresses.trans h.addresses⟩

/-- Documents may change where the test fails. -/
theorem ofContents {c c' : Table Address String} (hc : s.contents = some c)
    (h : ∀ k, p k = true → c'.find? k = c.find? k) :
    SameOutside p s { s with contents := some c' } := by
  refine ⟨rfl, rfl, ?_, rfl, rfl⟩
  rw [hc]
  refine congrArg some (Table.ext_find? fun k => ?_)
  rw [Table.find?_filter_key, Table.find?_filter_key]
  cases hk : p k with
  | false => rfl
  | true => exact h k hk

/-- A document outside what may change is the same. -/
theorem document?_eq {f : Address} (h : SameOutside p s s') (hf : p f = true) :
    s'.document? f = s.document? f := by
  have hkept (s : Store) : s.document? f
      = (s.contents.map (·.filter fun k _ => p k)).bind (·.find? f) := by
    unfold document?
    cases s.contents with
    | none => rfl
    | some c => exact ((Table.find?_filter_key p c f).trans (if_pos hf)).symm
  rw [hkept, hkept, h.contents]

end SameOutside

/-- The tables of the cache are still there. -/
theorem HasTables.of_sameOutside {p : Address → Bool} {s s' : Store} (hs : s.HasTables)
    (h : SameOutside p s s') : s'.HasTables := by
  refine ⟨?_, h.names ▸ hs.names, h.addresses ▸ hs.addresses⟩
  have hcontents := congrArg Option.isSome h.contents
  rw [Option.isSome_map, Option.isSome_map] at hcontents
  rw [hcontents]
  exact hs.contents

end Store

namespace StoreM

variable {p : Address → Bool}

/-- The action leaves the documents alone whose functions satisfy the test. -/
def Leaves (p : Address → Bool) {α : Type} (x : StoreM α) : Prop :=
  ∀ s, Store.SameOutside p s (x s).2

namespace Leaves

variable {α β : Type}

/-- What every action of a row leaves alone, the row does. -/
theorem bind {x : StoreM α} {f : α → StoreM β} (hx : Leaves p x) (hf : ∀ a, Leaves p (f a)) :
    Leaves p (x >>= f) := by
  intro s
  have hstep := hx s
  rw [bind_apply]
  generalize x s = r at hstep
  rcases r with ⟨e | a, s'⟩
  · exact hstep
  · exact hstep.trans (hf a s')

/-- A question changes nothing. -/
theorem asks (g : Store → Except Failure α) : Leaves p (asks g) := by
  intro s
  rw [asks_apply]
  exact .refl s

/-- Giving a value changes nothing. -/
theorem pure (a : α) : Leaves p (Pure.pure a : StoreM α) := fun s => .refl s

/-- A failure changes nothing by itself. -/
theorem throw (e : Failure) : Leaves p (throw e : StoreM α) := fun s => .refl s

/-- What an action and its handler leave alone is left alone where a failure is caught. -/
theorem tryCatch {x : StoreM α} {handler : Failure → StoreM α} (hx : Leaves p x)
    (hhandler : ∀ e, Leaves p (handler e)) : Leaves p (MonadExcept.tryCatch x handler) := by
  intro s
  have hstep := hx s
  have hrun : MonadExcept.tryCatch x handler s = _ := tryCatch_apply x handler s
  rw [hrun]
  generalize x s = r at hstep
  rcases r with ⟨e | a, s'⟩
  · exact hstep.trans (hhandler e s')
  · exact hstep

/-- What an action leaves alone for every element is left alone by all of them in a row. -/
theorem forM {f : α → StoreM Unit} (hf : ∀ a, Leaves p (f a)) (l : List α) :
    Leaves p (l.forM f) := by
  induction l with
  | nil => exact pure ()
  | cons a l ih => exact (hf a).bind fun _ => ih

/-- A transaction leaves alone what its action does, rolled back or not. -/
theorem transaction {x : StoreM α} (hx : Leaves p x) : Leaves p (StoreM.transaction x) := by
  intro s
  have hstep := hx s
  unfold StoreM.transaction
  generalize x s = r at hstep ⊢
  rcases r with ⟨e | a, s'⟩
  · exact .refl s
  · exact hstep

variable {f : Address}

/-- Writing a document leaves those of the other functions. -/
theorem writeContents (hf : p f = false) (e : Entry) : Leaves p (writeContents f e) := by
  intro s
  unfold StoreM.writeContents
  rw [bind_apply, asks_apply]
  cases hc : s.contents with
  | none => exact .refl s
  | some c =>
    refine .ofContents hc fun k hk => Table.find?_insert_of_ne _ _ ?_
    rintro rfl
    rw [hf] at hk
    cases hk

/-- An update of a document leaves those of the other functions. -/
theorem updateContents (hf : p f = false) (update : Entry → Except Malformation Entry) :
    Leaves p (updateContents f update) := by
  unfold StoreM.updateContents
  refine (asks _).bind fun r => ?_
  dsimp only
  split
  · exact writeContents hf _
  · exact throw _

/-- Removing a document leaves those of the other functions. -/
theorem removeContents (hf : p f = false) : Leaves p (removeContents f) := by
  intro s
  unfold StoreM.removeContents
  rw [bind_apply, asks_apply]
  cases hc : s.contents with
  | none => exact .refl s
  | some c =>
    show Store.SameOutside p s ((if c.contains f then _ else _ : StoreM Unit) s).2
    split
    · refine .ofContents hc fun k hk => Table.find?_erase_of_ne _ ?_
      rintro rfl
      rw [hf] at hk
      cases hk
    · exact .refl s

/-- Changes of the names in the index leave all documents. -/
theorem updateNames (change : Table String StoredCount → Table String StoredCount) :
    Leaves p (updateNames change) := by
  intro s
  unfold StoreM.updateNames
  rw [bind_apply, asks_apply]
  cases hn : s.names with
  | none => exact .refl s
  | some n => exact ⟨rfl, rfl, rfl, by rw [hn]; rfl, rfl⟩

/-- Changes of the addresses in the index leave all documents. -/
theorem updateAddresses (change : Table Address StoredCount → Table Address StoredCount) :
    Leaves p (updateAddresses change) := by
  intro s
  unfold StoreM.updateAddresses
  rw [bind_apply, asks_apply]
  cases ha : s.addresses with
  | none => exact .refl s
  | some a => exact ⟨rfl, rfl, rfl, rfl, by rw [ha]; rfl⟩

/-- Removing a key of the index leaves all documents. -/
theorem removeGlobal (k : GlobalKey) : Leaves p (removeGlobal k) := by
  unfold StoreM.removeGlobal
  cases k with
  | name k =>
    refine (asks _).bind fun names => ?_
    split
    · exact updateNames _
    · exact throw _
  | address k =>
    refine (asks _).bind fun addresses => ?_
    split
    · exact updateAddresses _
    · exact throw _

/-- Deleting a partition leaves the documents of the other functions. -/
theorem deleteAll {q : Partition} (h : ∀ f, q = .contents f → p f = false) :
    Leaves p (deleteAll q) := by
  cases q with
  | contents f =>
    refine tryCatch ((removeContents (h f rfl)).bind fun _ => pure 1) fun e => ?_
    split
    · exact pure 0
    · exact throw _
  | globals => exact (asks _).bind fun keys => (forM removeGlobal keys).bind fun _ => pure _

end Leaves

end StoreM

namespace Mutation

/-- The function whose document a change is about. -/
def function? : Mutation → Option Address
  | .setNames (.contents f) _ | .setAddresses (.contents f) _ | .increment (.contents f) _ _
  | .removeContents f => some f
  | _ => none

/-- A change leaves every document other than that of its function alone. -/
theorem apply_sameOutside {p : Address → Bool} {m : Mutation}
    (hm : ∀ f, m.function? = some f → p f = false) (s : Store) :
    Store.SameOutside p s (m.apply s).2 := by
  suffices h : StoreM.Leaves p m.apply from h s
  cases m with
  | setNames q t =>
    cases q with
    | contents f => exact .updateContents (hm f rfl) _
    | globals => exact .updateNames _
  | setAddresses q t =>
    cases q with
    | contents f => exact .updateContents (hm f rfl) _
    | globals => exact .updateAddresses _
  | increment q a n =>
    cases q with
    | contents f => exact .updateContents (hm f rfl) _
    | globals => exact .transaction ((StoreM.Leaves.updateNames _).bind fun _ => .updateAddresses _)
  | removeContents f => exact .removeContents (hm f rfl)
  | removeGlobal k => exact .removeGlobal k

end Mutation

end TagCache
