import TagCache.Proofs.Session.Implicit
import TagCache.Proofs.Store.Partition
import TagCache.Proofs.Store.Raise

/-!
# References that are added one by one

Adding references is a walk over the store alone (`Store.adding`), under whatever output
(`Session.exists_outcome_addReferences`). Where the touched documents have their tables in written
form, the walk goes to its end (`Store.exists_added`), and what it leaves is known from the store
before and the references alone (`Store.Added`). Walks follow each other (`Store.Added.trans`), and
the order of references makes no difference to what is left (`Store.Added.eq_of_perm`): a table
depends on how often each key is raised, and the other fields of a document on how often it was read
and written.
-/

namespace TagCache

open Session

/-- References in another order are in another order for each partition. -/
theorem referencesTo_perm (p : Partition) {refs refs' : List Reference} (h : refs.Perm refs') :
    (referencesTo p refs).Perm (referencesTo p refs') := (h.filter _).map _

/-! ## Recorded references -/

namespace Counts

/-- References that follow each other are recorded one group after the other. -/
theorem recordAll_append (c : Counts) (refs more : List (Address × String)) :
    c.recordAll (refs ++ more) = (c.recordAll refs).recordAll more := List.foldl_append

/-- Recording references raises the keys of both tables. -/
theorem recordAll_eq (c : Counts) (refs : List (Address × String)) :
    c.recordAll refs
      = ⟨c.addresses.raiseKeys (refs.map (·.1)), c.names.raiseKeys (refs.map (·.2))⟩ := by
  induction refs generalizing c with
  | nil => rfl
  | cons r refs ih => exact ih (c.record r.1 r.2)

/-- The order of references does not matter to the counts. -/
theorem recordAll_perm (c : Counts) {refs refs' : List (Address × String)}
    (h : refs.Perm refs') : c.recordAll refs = c.recordAll refs' := by
  rw [recordAll_eq, recordAll_eq, Table.raiseKeys_perm (h.map _), Table.raiseKeys_perm (h.map _)]

end Counts

namespace Entry

variable {e : Entry} {c : Counts}

/-- One reference more raises the counts that an entry tabulates, where they have room. -/
theorem raised_eq_withCounts (h : e.Tabulates c) {a : Address} {name : String}
    (hspare : Spare c a name) : e.raised c a name = e.withCounts (c.record a name) :=
  Except.ok.inj ((increment_of_counts h.counts hspare).symm.trans (h.increment hspare))

/-- Reading an entry again does not touch the counts that it is given. -/
theorem iterate_reread_withCounts (e : Entry) (c : Counts) (n : Nat) :
    reread^[n] (e.withCounts c) = (reread^[n] e).withCounts c := by
  induction n with
  | zero => rfl
  | succ n ih =>
    rw [Function.iterate_succ_apply', Function.iterate_succ_apply', ih, reread_withCounts]

/-- An entry that is read again is of the same partition. -/
theorem partition_iterate_reread (e : Entry) (n : Nat) :
    (reread^[n] e).partition = e.partition := by
  induction n with
  | zero => rfl
  | succ n ih =>
    rw [Function.iterate_succ_apply']
    exact ih

/-- What an entry with these counts is written as when references are added to it. It is read again
before each but the first. -/
def recorded (e : Entry) (c : Counts) (refs : List (Address × String)) : Entry :=
  (reread^[refs.length - 1] e).withCounts (c.recordAll refs)

/-- Once read again, an entry with references tabulates the counts with them. -/
theorem tabulates_recorded (e : Entry) (c : Counts) (refs : List (Address × String)) :
    (e.recorded c refs).reread.Tabulates (c.recordAll refs) :=
  (tabulates_withCounts _ _).reread

/-- An entry with references is of the same partition. -/
theorem partition_recorded (e : Entry) (c : Counts) (refs : List (Address × String)) :
    (e.recorded c refs).partition = e.partition := partition_iterate_reread e _

/-- References can be added to an entry in two parts. -/
theorem recorded_append (e : Entry) (c : Counts) {refs more : List (Address × String)}
    (hrefs : refs ≠ []) (hmore : more ≠ []) :
    (e.recorded c refs).reread.recorded (c.recordAll refs) more = e.recorded c (refs ++ more) := by
  have hlength : more.length - 1 + (refs.length - 1 + 1) = (refs ++ more).length - 1 := by
    have hrefs := List.length_pos_iff.2 hrefs
    have hmore := List.length_pos_iff.2 hmore
    rw [List.length_append]
    omega
  unfold recorded
  rw [reread_withCounts, ← Function.iterate_succ_apply' reread, iterate_reread_withCounts,
    withCounts_withCounts, ← Function.iterate_add_apply, hlength, Counts.recordAll_append]

/-- The order of references does not matter to the entry. -/
theorem recorded_perm (e : Entry) (c : Counts) {refs refs' : List (Address × String)}
    (h : refs.Perm refs') : e.recorded c refs = e.recorded c refs' := by
  unfold recorded
  rw [h.length_eq, c.recordAll_perm h]

end Entry

/-! ## The walk -/

namespace Store

/-- Add references one by one. The first failure ends it. -/
def adding (s : Store) : List Reference → Except Failure Unit × Store
  | [] => (.ok (), s)
  | r :: refs =>
    match (Mutation.increment r.1 r.2.1 r.2.2).apply s with
    | (.ok (), s') => s'.adding refs
    | (.error x, s') => (.error x, s')

/-- What is added behind references is added to the store with them. -/
theorem adding_append {s s' : Store} {refs : List Reference} (h : s.adding refs = (.ok (), s'))
    (more : List Reference) : s.adding (refs ++ more) = s'.adding more := by
  induction refs generalizing s with
  | nil =>
    cases h
    rfl
  | cons r refs ih =>
    rw [List.cons_append, adding]
    rw [adding] at h
    split at h
    · exact ih h
    · cases h

end Store

/-- Adding references walks over the store, and writes nothing to the output. -/
theorem Session.exists_outcome_addReferences (refs : List Reference) (s : Store)
    (room : Option Nat) (before : Array Event) :
    ∃ events, outcome (addReferences refs) ⟨s, room, before⟩
      = ((s.adding refs).1.map fun _ => refs.length, ⟨(s.adding refs).2, room, events⟩) := by
  induction refs generalizing s before with
  | nil => exact ⟨before, rfl⟩
  | cons r refs ih =>
    rw [addReferences, outcome_bind, outcome_mutate, Store.adding]
    rcases (Mutation.increment r.1 r.2.1 r.2.2).apply s with ⟨x | ⟨⟩, s'⟩
    · exact ⟨before, rfl⟩
    · obtain ⟨events, h⟩ :=
        ih s' (before.push (.stored (.increment r.1 r.2.1 r.2.2)))
      refine ⟨events, ?_⟩
      simp only [SessionState.note]
      rw [outcome_bind, h]
      cases (s'.adding refs).1 with
      | error x => rfl
      | ok u =>
        show (Except.ok (1 + refs.length), _) = _
        rw [Nat.add_comm]
        rfl

namespace Store

/-! ## Steps -/

section
variable {s : Store} {f : Address} {e : Entry}

/-- An update starts from what the document parses to. -/
theorem start_of_document? {text : String} (h : s.document? f = some text) :
    s.start f = Entry.parse (.contents f) text := by
  obtain ⟨c, hc, hf⟩ := Option.bind_eq_some_iff.1 h
  unfold start
  rw [hc]
  show startEntry c f = _
  rw [startEntry, hf]

/-- An update of a function without a document starts from an empty entry. -/
theorem start_of_document?_eq_none (hs : s.contents.isSome) (h : s.document? f = none) :
    s.start f = .ok (.empty (.contents f)) := by
  obtain ⟨c, hc⟩ := Option.isSome_iff_exists.1 hs
  unfold document? at h
  rw [hc] at h
  unfold start
  rw [hc]
  show startEntry c f = _
  have hf : c.find? f = none := h
  rw [startEntry, hf]

/-- A written entry is read again for its own function. -/
theorem start_of_writable (h : s.document? f = some e.text) (he : e.Writable)
    (hp : e.partition = .contents f) : s.start f = .ok e.reread := by
  rw [start_of_document? h, ← hp, Entry.parse_text_of_writable he]

/-- Where the documents are the same, an update starts from the same entry. -/
theorem SameAt.start_eq {s' : Store} (h : s.SameAt s' (.contents f)) :
    s'.start f = s.start f := by
  have hread : s'.readContents f = s.readContents f := h.read_eq
  rw [← getD_readContents, ← getD_readContents, hread]

/-- Stores that are the same at a function have the same document for it. -/
theorem SameAt.document?_eq {s' : Store} (h : s.SameAt s' (.contents f)) :
    s'.document? f = s.document? f := by
  have hjoin (s : Store) : s.document? f = (s.contents.map (·.find? f)).join := by
    unfold document?
    cases s.contents <;> rfl
  rw [hjoin, hjoin]
  exact congrArg Option.join h

/-- A reference that is added to the index raises one row of each table. -/
theorem apply_increment_globals_of_tables {n : Table String StoredCount}
    {t : Table Address StoredCount} (hn : s.names = some n) (ht : s.addresses = some t)
    (a : Address) (name : String) : (Mutation.increment .globals a name).apply s
      = (.ok (), { s with names := some (StoreM.raise name n),
                          addresses := some (StoreM.raise a t) }) := by
  obtain ⟨version, c, names, addresses, runs⟩ := s
  obtain rfl : names = some n := hn
  obtain rfl : addresses = some t := ht
  rfl

end

/-! ## What is left -/

/-- What adding references leaves of a store: rows of the index that were raised, one after the
other, and the documents of the functions with the references recorded. -/
structure Added (s : Store) (refs : List Reference) (s' : Store) : Prop where
  version : s'.version = s.version
  runs : s'.runs = s.runs
  names : s'.names = s.names.map (·.raiseRows ((referencesTo .globals refs).map (·.2)))
  addresses : s'.addresses = s.addresses.map (·.raiseRows ((referencesTo .globals refs).map (·.1)))
  contents : s'.contents.isSome = s.contents.isSome
  same : ∀ f, referencesTo (.contents f) refs = [] → s.SameAt s' (.contents f)
  document : ∀ f, referencesTo (.contents f) refs ≠ [] → ∃ e c, s.start f = .ok e ∧
    e.Tabulates c ∧ (e.recorded c (referencesTo (.contents f) refs)).Writable ∧
    s'.document? f = some (e.recorded c (referencesTo (.contents f) refs)).text

/-- References can be added: a document that they are counted in has its tables in written form and
counts with room for them, and an index that they are counted in has its tables. -/
structure Absorbs (s : Store) (refs : List Reference) : Prop where
  contents : ∀ f, referencesTo (.contents f) refs ≠ [] → ∃ e c, s.start f = .ok e ∧
    e.Tabulates c ∧ (c.recordAll (referencesTo (.contents f) refs)).Fits
  globals : referencesTo .globals refs ≠ [] → s.names.isSome ∧ s.addresses.isSome

variable {s s' s'' : Store} {refs more : List Reference} {f : Address}

/-- A document with references recorded is read with their counts. -/
theorem Added.exists_start (h : s.Added refs s') (hf : referencesTo (.contents f) refs ≠ []) :
    ∃ e c, s.start f = .ok e ∧ e.Tabulates c ∧
      s'.start f = .ok (e.recorded c (referencesTo (.contents f) refs)).reread := by
  obtain ⟨e, c, hstart, htables, hwritable, hdocument⟩ := h.document f hf
  have hpartition := (e.partition_recorded c (referencesTo (.contents f) refs)).trans
    (partition_start hstart)
  exact ⟨e, c, hstart, htables, start_of_writable hdocument hwritable hpartition⟩

/-- No references leave the store as it is. -/
theorem Added.refl (s : Store) : s.Added [] s where
  version := rfl
  runs := rfl
  names := by cases s.names <;> rfl
  addresses := by cases s.addresses <;> rfl
  contents := rfl
  same f _ := .refl s _
  document f hf := absurd rfl hf

/-- References that are added in two parts are added as one list. -/
theorem Added.trans (h : s.Added refs s') (h' : s'.Added more s'') :
    s.Added (refs ++ more) s'' where
  version := h'.version.trans h.version
  runs := h'.runs.trans h.runs
  names := by
    rw [h'.names, h.names, Option.map_map, referencesTo_append, List.map_append]
    refine congrArg (fun g => s.names.map g) (funext fun t => ?_)
    exact List.foldl_append.symm
  addresses := by
    rw [h'.addresses, h.addresses, Option.map_map, referencesTo_append, List.map_append]
    refine congrArg (fun g => s.addresses.map g) (funext fun t => ?_)
    exact List.foldl_append.symm
  contents := h'.contents.trans h.contents
  same f hf := by
    rw [referencesTo_append, List.append_eq_nil_iff] at hf
    exact (h.same f hf.1).trans (h'.same f hf.2)
  document f hf := by
    rw [referencesTo_append] at hf ⊢
    by_cases hmore : referencesTo (.contents f) more = []
    · rw [hmore, List.append_nil] at hf ⊢
      obtain ⟨e, c, hstart, htables, hwritable, hdocument⟩ := h.document f hf
      exact ⟨e, c, hstart, htables, hwritable, (h'.same f hmore).document?_eq.trans hdocument⟩
    · obtain ⟨e', c', hstart', htables', hdocument'⟩ := h'.document f hmore
      by_cases hrefs : referencesTo (.contents f) refs = []
      · rw [hrefs, List.nil_append]
        rw [(h.same f hrefs).start_eq] at hstart'
        exact ⟨e', c', hstart', htables', hdocument'⟩
      · -- the second walk starts from what the first one wrote, read again
        obtain ⟨e, c, hstart, htables, hagain⟩ := h.exists_start hrefs
        obtain rfl := Except.ok.inj (hstart'.symm.trans hagain)
        have hcounts := (Entry.tabulates_recorded e c (referencesTo (.contents f) refs)).counts
        obtain rfl := Except.ok.inj (htables'.counts.symm.trans hcounts)
        rw [Entry.recorded_append e c hrefs hmore] at hdocument'
        exact ⟨e, c, hstart, htables, hdocument'⟩

/-! ## The steps of the walk -/

/-- A reference to the index is added by raising its rows. -/
theorem added_globals {n : Table String StoredCount} {t : Table Address StoredCount}
    (hn : s.names = some n) (ht : s.addresses = some t) (a : Address) (name : String) :
    s.Added [(.globals, a, name)] { s with names := some (StoreM.raise name n),
                                           addresses := some (StoreM.raise a t) } where
  version := rfl
  runs := rfl
  names := by
    rw [hn, referencesTo_self]
    rfl
  addresses := by
    rw [ht, referencesTo_self]
    rfl
  contents := rfl
  same f _ := rfl
  document f hf := absurd (referencesTo_of_ne (by simp) _) hf

/-- A reference to a function is added by writing its document with the counts raised. -/
theorem added_contents {e : Entry} {c : Counts} (hstart : s.start f = .ok e)
    (htables : e.Tabulates c) {a : Address} {name : String} (hfits : (c.record a name).Fits) :
    s.Added [(.contents f, a, name)] (s.put f (e.withCounts (c.record a name))) where
  version := rfl
  runs := rfl
  names := by
    rw [referencesTo_of_ne (by simp)]
    cases hn : s.names <;> simp [put, hn, Table.raiseRows]
  addresses := by
    rw [referencesTo_of_ne (by simp)]
    cases hn : s.addresses <;> simp [put, hn, Table.raiseRows]
  contents := by simp [put]
  same g hg := by
    refine sameAt_put s (fun hgf => ?_) _
    obtain rfl := Partition.contents.inj hgf
    rw [referencesTo_self] at hg
    cases hg
  document g hg := by
    by_cases hgf : g = f
    · subst hgf
      obtain ⟨contents, hcontents, -⟩ := exists_contents_of_start hstart
      have hwritable := (writable_start hstart).raised hfits.spare
      rw [Entry.raised_eq_withCounts htables hfits.spare] at hwritable
      rw [referencesTo_self]
      refine ⟨e, c, hstart, htables, hwritable, ?_⟩
      rw [document?_put s (by rw [hcontents]; rfl), if_pos rfl]
      rfl
    · have hne : Partition.contents f ≠ .contents g :=
        fun he => hgf (Partition.contents.inj he).symm
      exact absurd (referencesTo_of_ne hne _) hg

/-- One reference that can be added is added. -/
theorem exists_added_one {r : Reference} (h : s.Absorbs [r]) :
    ∃ s', (Mutation.increment r.1 r.2.1 r.2.2).apply s = (.ok (), s') ∧ s.Added [r] s' := by
  obtain ⟨p, a, name⟩ := r
  cases p with
  | globals =>
    obtain ⟨hnames, haddresses⟩ := h.globals (by simp)
    obtain ⟨n, hn⟩ := Option.isSome_iff_exists.1 hnames
    obtain ⟨t, ht⟩ := Option.isSome_iff_exists.1 haddresses
    exact ⟨_, apply_increment_globals_of_tables hn ht a name, added_globals hn ht a name⟩
  | contents f =>
    obtain ⟨e, c, hstart, htables, hfits⟩ := h.contents f (by simp)
    rw [referencesTo_self] at hfits
    exact ⟨_, updateContents_of_start (fun e => e.increment a name) hstart
      (htables.increment hfits.spare), added_contents hstart htables hfits⟩

/-- A store that absorbs references absorbs the first of them. -/
theorem Absorbs.of_append (h : s.Absorbs (refs ++ more)) : s.Absorbs refs where
  contents f hf := by
    have hboth : referencesTo (.contents f) (refs ++ more) ≠ [] := by
      rw [referencesTo_append]
      exact List.append_ne_nil_of_left_ne_nil hf _
    obtain ⟨e, c, hstart, htables, hfits⟩ := h.contents f hboth
    rw [referencesTo_append, Counts.recordAll_append] at hfits
    exact ⟨e, c, hstart, htables, hfits.of_recordAll⟩
  globals hg := by
    refine h.globals ?_
    rw [referencesTo_append]
    exact List.append_ne_nil_of_left_ne_nil hg _

/-- What can be added after other references can be added after the walk over those. -/
theorem Absorbs.of_added (h : s.Absorbs (refs ++ more)) (hadded : s.Added refs s') :
    s'.Absorbs more where
  contents f hf := by
    have hboth : referencesTo (.contents f) (refs ++ more) ≠ [] := by
      rw [referencesTo_append]
      exact List.append_ne_nil_of_right_ne_nil _ hf
    obtain ⟨e, c, hstart, htables, hfits⟩ := h.contents f hboth
    rw [referencesTo_append, Counts.recordAll_append] at hfits
    by_cases hrefs : referencesTo (.contents f) refs = []
    · rw [hrefs] at hfits
      exact ⟨e, c, (hadded.same f hrefs).start_eq.trans hstart, htables, hfits⟩
    · obtain ⟨e', c', hstart', htables', hagain⟩ := hadded.exists_start hrefs
      obtain rfl := Except.ok.inj (hstart.symm.trans hstart')
      obtain rfl := Except.ok.inj (htables.counts.symm.trans htables'.counts)
      exact ⟨_, _, hagain, Entry.tabulates_recorded _ _ _, hfits⟩
  globals hg := by
    have hboth : referencesTo .globals (refs ++ more) ≠ [] := by
      rw [referencesTo_append]
      exact List.append_ne_nil_of_right_ne_nil _ hg
    rw [hadded.names, hadded.addresses, Option.isSome_map, Option.isSome_map]
    exact h.globals hboth

/-- References that can be added are added. -/
theorem exists_added (h : s.Absorbs refs) :
    ∃ s', s.adding refs = (.ok (), s') ∧ s.Added refs s' := by
  induction refs generalizing s with
  | nil => exact ⟨s, rfl, .refl s⟩
  | cons r refs ih =>
    have hsplit : r :: refs = [r] ++ refs := rfl
    rw [hsplit] at h
    obtain ⟨s₁, happly, hfirst⟩ := exists_added_one h.of_append
    obtain ⟨s₂, hrest, hadded⟩ := ih (h.of_added hfirst)
    refine ⟨s₂, ?_, hfirst.trans hadded⟩
    rw [adding, happly]
    exact hrest

/-- In whatever order references are added, they leave the same documents. -/
theorem Added.document?_eq_of_perm (h : s.Added refs s') (h' : s.Added more s'')
    (hperm : refs.Perm more) (f : Address) : s'.document? f = s''.document? f := by
  have hrefs := referencesTo_perm (.contents f) hperm
  by_cases hnil : referencesTo (.contents f) refs = []
  · have hnil' : referencesTo (.contents f) more = [] := by
      rw [hnil] at hrefs
      exact hrefs.nil_eq.symm
    rw [(h.same f hnil).document?_eq, (h'.same f hnil').document?_eq]
  · have hnil' : referencesTo (.contents f) more ≠ [] := by
      intro hmore
      rw [hmore] at hrefs
      exact hnil hrefs.eq_nil
    obtain ⟨e, c, hstart, htables, -, hdocument⟩ := h.document f hnil
    obtain ⟨e', c', hstart', htables', -, hdocument'⟩ := h'.document f hnil'
    obtain rfl := Except.ok.inj (hstart.symm.trans hstart')
    obtain rfl := Except.ok.inj (htables.counts.symm.trans htables'.counts)
    rw [hdocument, hdocument', Entry.recorded_perm e c hrefs]

/-- The same documents are those of one table, if the stores have one. -/
theorem contents_eq_of_document? (hsome : s'.contents.isSome = s''.contents.isSome)
    (hdocument : ∀ f, s'.document? f = s''.document? f) : s'.contents = s''.contents := by
  cases hc : s'.contents with
  | none =>
    rw [hc] at hsome
    exact (Option.isNone_iff_eq_none.1 (Option.isSome_eq_false_iff.1 hsome.symm)).symm
  | some c =>
    rw [hc] at hsome
    obtain ⟨c', hc'⟩ := Option.isSome_iff_exists.1 hsome.symm
    rw [hc']
    refine congrArg some (Table.ext_find? fun f => ?_)
    have hf := hdocument f
    unfold document? at hf
    rw [hc, hc'] at hf
    exact hf

/-- So they leave the same store. -/
theorem Added.eq_of_perm (h : s.Added refs s') (h' : s.Added more s'') (hperm : refs.Perm more) :
    s' = s'' := by
  have hglobals := referencesTo_perm .globals hperm
  have hnames : s'.names = s''.names := by
    rw [h.names, h'.names]
    exact congrArg (fun g => s.names.map g) (funext (Table.raiseRows_perm (hglobals.map _)))
  have haddresses : s'.addresses = s''.addresses := by
    rw [h.addresses, h'.addresses]
    exact congrArg (fun g => s.addresses.map g) (funext (Table.raiseRows_perm (hglobals.map _)))
  have hcontents := contents_eq_of_document? (h.contents.trans h'.contents.symm)
    (h.document?_eq_of_perm h' hperm)
  have hversion := h.version.trans h'.version.symm
  have hruns := h.runs.trans h'.runs.symm
  cases s'
  cases s''
  simp_all

end Store

/-! ## Implicit tags -/

namespace ImplicitTags

/-- Adding implicit tags is a walk over the store. -/
theorem exists_outcome_run (t : ImplicitTags) (db : Snapshot) (s : Store) (room : Option Nat)
    (before : Array Event) :
    ∃ events, outcome (t.run db) ⟨s, room, before⟩
      = ((s.adding (t.references db)).1.map fun _ => (t.references db).length,
          ⟨(s.adding (t.references db)).2, room, events⟩) := by
  have hlogged (text : Nat → String) : ∃ events, outcome (do
        let added ← addReferences (t.references db)
        log .debug (text added)
        return added) ⟨s, room, before⟩
      = ((s.adding (t.references db)).1.map fun _ => (t.references db).length,
          ⟨(s.adding (t.references db)).2, room, events⟩) := by
    obtain ⟨events, h⟩ := exists_outcome_addReferences (t.references db) s room before
    rw [outcome_bind, h]
    cases (s.adding (t.references db)).1 with
    | error x => exact ⟨events, rfl⟩
    | ok u => exact ⟨_, rfl⟩
  cases t with
  | customNames =>
    rw [references_customNames] at hlogged ⊢
    exact hlogged _
  | extraComments =>
    rw [references_extraComments] at hlogged ⊢
    exact hlogged _

end ImplicitTags

end TagCache
