import TagCache.Proofs.Entry.Update
import TagCache.Proofs.Session.Run
import TagCache.Proofs.Session.Tally
import TagCache.Proofs.Store

/-!
# Building under an output without a limit

What each building operation returns and leaves, on a store with its three cache tables. Building a
function lays its counts over its document (`Session.reaches_contents`); this fails only on a
document that cannot be read, and none is left behind (`Session.exists_reaches_all`). On a table
without the function's document the result is the document of its counts (`Snapshot.document`), and
where that is stored already nothing changes (`Session.reaches_contents_of_built`).
-/

namespace TagCache

/-! ## Documents -/

/-- The entry with counts laid over both of its tables. -/
def Entry.laid (e : Entry) (c : Counts) : Entry := (e.setNames c.names).setAddresses c.addresses

/-- Laying counts over the entry that they make changes nothing. -/
theorem Entry.laid_ofCounts (p : Partition) (c : Counts) :
    (Entry.ofCounts p c).laid c = .ofCounts p c := by
  unfold laid
  rw [setNames_ofCounts, setAddresses_ofCounts, Table.overlay_self, Table.overlay_self]

/-- An entry that reads back as it is stays so under counts that fit. -/
theorem Entry.Plain.laid {e : Entry} (h : e.Plain) {c : Counts} (hc : c.Fits) : (e.laid c).Plain :=
  (h.setNames hc.names).setAddresses hc.addresses

/-- An update of a function's document starts from an entry of that function. -/
theorem partition_startEntry {c : Table Address String} {f : Address} {e : Entry}
    (h : startEntry c f = .ok e) : e.partition = .contents f := by
  unfold startEntry at h
  split at h
  · cases h; rfl
  · unfold Entry.parse at h
    split at h
    · cases h
    · cases h; rfl
    · cases h

/-- The entry that was written is the one that is read. -/
theorem startEntry_insert (c : Table Address String) {f : Address} {e : Entry} (h : e.Plain)
    (hp : e.partition = .contents f) : startEntry (c.insert f e.text) f = .ok e := by
  unfold startEntry
  rw [Table.find?_insert_self, ← hp]
  exact Entry.parse_text h

/-- What was put as a function's document is read for it. -/
theorem Store.start_put {s : Store} {f : Address} {e : Entry} (he : s.start f = .ok e)
    (e' : Entry) : (s.put f e').start f = Entry.parse (.contents f) e'.text := by
  obtain ⟨c, hc, -⟩ := exists_contents_of_start he
  unfold put start
  rw [hc]
  show startEntry (c.insert f e'.text) f = _
  unfold startEntry
  rw [Table.find?_insert_self]

/-- After a document was written, an update starts from its entry. -/
theorem Store.start_put_self {s : Store} {f : Address} {e e' : Entry} (he : s.start f = .ok e)
    (h : e'.Plain) (hp : e'.partition = .contents f) : (s.put f e').start f = .ok e' := by
  rw [start_put he, ← hp, Entry.parse_text h]

/-- In a store, too, an update starts from an entry of its function. -/
theorem Store.partition_start {s : Store} {f : Address} {e : Entry} (h : s.start f = .ok e) :
    e.partition = .contents f := by
  obtain ⟨c, -, he⟩ := exists_contents_of_start h
  exact partition_startEntry he

/-- Of two documents written for one function the later one stays. -/
theorem Store.put_put (s : Store) (f : Address) (e e' : Entry) :
    (s.put f e).put f e' = s.put f e' := by
  unfold put
  simp [Function.comp_def]

/-- Where an update starts depends on the one row alone. -/
theorem startEntry_of_find?_eq {c c' : Table Address String} {f : Address}
    (h : c'.find? f = c.find? f) : startEntry c' f = startEntry c f := by
  unfold startEntry
  rw [h]

/-- Writing a document does not change where an update of another function starts. -/
theorem Store.start_put_of_ne (s : Store) {f g : Address} (h : g ≠ f) (e : Entry) :
    (s.put f e).start g = s.start g := by
  unfold start put
  cases s.contents with
  | none => rfl
  | some c => exact startEntry_of_find?_eq (Table.find?_insert_of_ne c _ h)

/-- The function's document is absent, or it can be read and written again. -/
def Legible (c : Table Address String) (f : Address) : Prop :=
  ∃ e, startEntry c f = .ok e ∧ e.Plain

/-- A function without a document is legible. -/
theorem legible_of_find?_eq_none {c : Table Address String} {f : Address} (h : c.find? f = none) :
    Legible c f := by
  refine ⟨.empty (.contents f), ?_, Entry.plain_empty _⟩
  unfold startEntry
  rw [h]

namespace Snapshot

/-- The document that a rebuild gives a function. -/
def document (db : Snapshot) (f : Address) : Entry := .ofCounts (.contents f) (db.contentsCounts f)

/-- The document that a rebuild gives a function reads back as it is. -/
theorem plain_document {db : Snapshot} (hdb : db.TagsFit) (f : Address) : (db.document f).Plain :=
  Entry.plain_ofCounts _ (fits_contentsCounts hdb f)

/-- The document that a rebuild gives a function is read as the entry that made it. -/
theorem parse_document {db : Snapshot} (hdb : db.TagsFit) (f : Address) :
    Entry.parse (.contents f) (db.document f).text = .ok (db.document f) :=
  Entry.parse_ofCounts _ (fits_contentsCounts hdb f)

end Snapshot

namespace Session

variable {db : Snapshot} {s : Store} {c : Table Address String} {n : Table String StoredCount}
  {t : Table Address StoredCount} {a f : Address}

/-! ## Counting -/

/-- Counting the tags at addresses gives their tally. -/
theorem reaches_countTags (l : List Address) :
    Reaches (countTags db l) s (.tallyAll ∅ (db.tagged l)) s := by
  unfold countTags countReferences
  generalize (∅ : Counts) = c
  induction l generalizing c with
  | nil => exact .pure
  | cons a l ih =>
    have hstep : Reaches (do visit a; return c.tally a (← pure (db.tagsAt a)).toList) s
        (c.tally a (db.tagsAt a).toList) s := (Reaches.visit a).bind (Reaches.pure.bind .pure)
    rw [List.foldlM_cons]
    exact hstep.bind (ih _)

/-- Counting a function gives the references from its addresses. -/
theorem reaches_countContents {i : FunctionInfo} (h : db.function? f = some i) :
    Reaches (countContents db f) s (db.contentsCounts f) s := by
  have hitems : Option.orFail (.functionNotFound f) (db.functionItems? f) = .ok (db.itemsOf f) := by
    rw [Snapshot.functionItems?_eq h]
    rfl
  exact (Reaches.ofExcept hitems).bind (reaches_countTags _)

/-- Counting the tags of functions adds their tally to the counts. -/
theorem reaches_countFunctionTags (total position : Nat) (counts : Counts) {fs : List Address}
    (hfs : ∀ f ∈ fs, f ∈ db.entries) :
    Reaches (countFunctionTags db total position counts fs) s
      (counts.tallyAll (db.functionTags fs)) s := by
  induction fs generalizing position counts with
  | nil => exact .pure
  | cons f fs ih =>
    obtain ⟨i, hi⟩ := Snapshot.exists_function?_of_mem_entries (hfs f List.mem_cons_self)
    have htags : Option.orFail (.functionNotFound f) (db.functionTags? f)
        = .ok ((db.functionTags? f).getD ∅) := by
      rw [Snapshot.functionTags?, hi]
      rfl
    exact (Reaches.visit f).bind ((Reaches.ofExcept htags).bind ((Reaches.writeLine _).bind
      (ih _ _ fun f hf => hfs f (List.mem_cons_of_mem _ hf))))

/-- Counting the index gives the references of functions and of the addresses outside them. -/
theorem reaches_countGlobals : Reaches (countGlobals db) s db.globalsCounts s :=
  (reaches_countFunctionTags _ _ _ fun _ h => h).bind <| (Reaches.writeLine _).bind <|
    (reaches_countTags _).bind <| (Reaches.writeLine _).bind <| (Reaches.writeLine _).bind <|
      (Reaches.writeLine _).bind .pure

/-! ## Building one function -/

/-- An address outside functions builds nothing. -/
theorem reaches_contents_outside (h : db.functionOf? a = none) :
    Reaches (contents db a) s ∅ s := by
  unfold contents
  rw [h]
  exact (Reaches.log _ _).bind .pure

/-- Building lays the counts of the function over its document. The document is read twice: the
second time it is the one with the names. -/
theorem reaches_contents_of_start (h : db.functionOf? a = some f) {e : Entry}
    (he : s.start f = .ok e) (hplain : e.Plain) :
    Reaches (contents db a) s (db.contentsCounts f)
      (s.put f (e.laid (db.contentsCounts f))) := by
  obtain ⟨i, hi⟩ := Snapshot.exists_function?_of_mem_entries (Snapshot.mem_entries_of_functionOf? h)
  have hnames : (e.setNames (db.contentsCounts f).names).Plain :=
    hplain.setNames fun k m hk => Snapshot.names_contentsCounts_lt hk
  have hpartition := Store.partition_start he
  have hsecond := Store.start_put_self he hnames hpartition
  have hfirst := apply_setNames_of_start (db.contentsCounts f).names he
  have hlast := apply_setAddresses_of_start (db.contentsCounts f).addresses hsecond
  rw [Store.put_put] at hlast
  unfold contents
  rw [h]
  refine (Reaches.log _ _).bind <| (reaches_countContents hi).bind <| (Reaches.visit a).bind <|
    (Reaches.log _ _).bind <| (Reaches.mutate hfirst).bind <| (Reaches.log _ _).bind <| ?_
  rw [Snapshot.filter_contentsCounts]
  exact (Reaches.mutate hlast).bind .pure

/-- Building a function lays its references over the entry that is stored for it. -/
theorem reaches_contents (h : db.functionOf? a = some f) {e : Entry} (he : startEntry c f = .ok e)
    (hplain : e.Plain) :
    Reaches (contents db a) (s.withTables c n t) (db.contentsCounts f)
      (s.withTables (c.insert f (e.laid (db.contentsCounts f)).text) n t) :=
  reaches_contents_of_start (s := s.withTables c n t) h he hplain

/-- A function without an entry gets the document of a rebuild. -/
theorem reaches_contents_of_absent (h : db.functionOf? a = some f) (hc : c.find? f = none) :
    Reaches (contents db a) (s.withTables c n t) (db.contentsCounts f)
      (s.withTables (c.insert f (db.document f).text) n t) := by
  refine reaches_contents h ?_ (Entry.plain_empty (.contents f))
  unfold startEntry
  rw [hc]

/-- Building a function over the document of its counts changes nothing. -/
theorem reaches_contents_of_built (hdb : db.TagsFit) (h : db.functionOf? a = some f)
    (hc : c.find? f = some (db.document f).text) :
    Reaches (contents db a) (s.withTables c n t) (db.contentsCounts f) (s.withTables c n t) := by
  have hplain := Snapshot.plain_document hdb f
  have hstart : startEntry c f = .ok (db.document f) := by
    unfold startEntry
    rw [hc]
    exact Snapshot.parse_document hdb f
  have hlaid : (db.document f).laid (db.contentsCounts f) = db.document f := Entry.laid_ofCounts _ _
  have hrun := reaches_contents (s := s) (n := n) (t := t) h hstart hplain
  rwa [hlaid, Table.insert_eq_self hc] at hrun

/-! ## Building the index -/

/-- Building the index lays its references over the rows that are there. -/
theorem reaches_globals :
    Reaches (globals db) (s.withTables c n t) db.globalsCounts
      (s.withTables c (StoreM.overlay db.globalsCounts.names n)
        (StoreM.overlay db.globalsCounts.addresses t)) :=
  reaches_countGlobals.bind <| (Reaches.writeLine _).bind <|
    (Reaches.mutate (apply_setNames_globals _)).bind <| (Reaches.writeLine _).bind <|
      (Reaches.mutate (apply_setAddresses_globals _)).bind .pure

/-! ## Building over legible documents

Without a well-formed snapshot several entry points may share an owner, whose document is then laid
over more than once, so what is carried along is that every document can be read.
-/

/-- Building any address succeeds where the documents of the functions are legible, and they stay
so. -/
theorem exists_reaches_contents (hdb : db.TagsFit) (hc : ∀ f ∈ db.entries, Legible c f)
    (a : Address) :
    ∃ counts c', Reaches (contents db a) (s.withTables c n t) counts (s.withTables c' n t) ∧
      ∀ f ∈ db.entries, Legible c' f := by
  cases h : db.functionOf? a with
  | none => exact ⟨∅, c, reaches_contents_outside h, hc⟩
  | some f =>
    obtain ⟨e, he, hplain⟩ := hc f (Snapshot.mem_entries_of_functionOf? h)
    refine ⟨_, _, reaches_contents h he hplain, fun g hg => ?_⟩
    have hlaid := hplain.laid (Snapshot.fits_contentsCounts hdb f)
    by_cases hgf : g = f
    · subst hgf
      have hpartition := partition_startEntry he
      exact ⟨_, startEntry_insert c hlaid hpartition, hlaid⟩
    · obtain ⟨e', he', hplain'⟩ := hc g hg
      refine ⟨e', ?_, hplain'⟩
      rw [startEntry_of_find?_eq (Table.find?_insert_of_ne _ _ hgf), he']

/-- Building functions one after another succeeds where their documents are legible, and they stay
so. -/
theorem exists_reaches_allContents (hdb : db.TagsFit) (total position : Nat) (fs : List Address)
    (hc : ∀ f ∈ db.entries, Legible c f) :
    ∃ c', Reaches (allContents db total position fs) (s.withTables c n t) () (s.withTables c' n t) ∧
      ∀ f ∈ db.entries, Legible c' f := by
  induction fs generalizing position c with
  | nil => exact ⟨c, .pure, hc⟩
  | cons f fs ih =>
    obtain ⟨counts, c', hrun, hc'⟩ := exists_reaches_contents (s := s) (n := n) (t := t) hdb hc f
    obtain ⟨c'', hrest, hc''⟩ := ih (position + 1) hc'
    exact ⟨c'', (Reaches.writeLine _).bind (hrun.discard.bind hrest), hc''⟩

/-- Building everything succeeds if every document can be read. -/
theorem exists_reaches_all (hdb : db.TagsFit) (hc : ∀ f ∈ db.entries, Legible c f) :
    ∃ c' n' t', Reaches (all db) (s.withTables c n t) () (s.withTables c' n' t') := by
  obtain ⟨c', hrun, -⟩ :=
    exists_reaches_allContents (s := s) (n := n) (t := t) hdb db.entries.length 1 db.entries hc
  exact ⟨_, _, _, hrun.bind ((Reaches.writeLine _).bind reaches_globals.discard)⟩

end Session

end TagCache
