import TagCache.Proofs.Session.Increment

/-!
# Documents that block implicit tags

A document that is no object of decodable tables blocks every reference that is counted in it:
adding one fails, and leaves the store as it was (`Store.adding_of_blocks`). A reference that is not
blocked is added, and blocks and frees no other (`Store.adding_of_free`), since an increment finds a
document that decodes and leaves one. So adding implicit tags fails exactly if a head is blocked
that has some (`ImplicitTags.Blocked`), and it fails at the first such head: what it leaves is what
is left where only the heads below that one are there (`implicit_tags_stop_at_blocked`).
-/

namespace TagCache

open Session

namespace Store

/-- A function's document is no object, or has a table that does not decode. -/
def Undecodable (s : Store) (f : Address) : Prop :=
  ∃ text, s.document? f = some text ∧ ∀ e, Entry.parse (.contents f) text = .ok e → ¬e.Decodes

/-- A reference is counted in a document that does not decode. -/
def Blocks (s : Store) (r : Reference) : Prop := ∃ f, r.1 = .contents f ∧ s.Undecodable f

/-- No count of a function passes the greatest word when references are added one by one. -/
def Unsaturated : Store → List Reference → Prop
  | _, [] => True
  | s, r :: refs =>
    (∀ f e c, r.1 = .contents f → s.start f = .ok e → e.counts = .ok c →
      Entry.Spare c r.2.1 r.2.2) ∧
    ∀ s', (Mutation.increment r.1 r.2.1 r.2.2).apply s = (.ok (), s') → s'.Unsaturated refs

variable {s s' s'' : Store} {f : Address} {r : Reference} {refs more : List Reference}

/-! ## Documents that decode -/

/-- A document is undecodable if an update that can start finds no counts. -/
theorem undecodable_iff (hs : s.contents.isSome) :
    s.Undecodable f ↔ ∀ e, s.start f = .ok e → ¬e.Decodes := by
  cases hf : s.document? f with
  | none =>
    have hstart := start_of_document?_eq_none hs hf
    constructor
    · rintro ⟨text, htext, -⟩
      rw [hf] at htext
      cases htext
    · exact fun h => absurd ⟨∅, Entry.counts_empty _⟩ (h _ hstart)
  | some text =>
    rw [start_of_document? hf]
    constructor
    · rintro ⟨text', htext, h⟩
      rw [hf] at htext
      cases htext
      exact h
    · exact fun h => ⟨text, hf, h⟩

/-- Where a document can be decoded, an update starts from counts. -/
theorem exists_start_of_not_undecodable (hs : s.contents.isSome) (h : ¬s.Undecodable f) :
    ∃ e c, s.start f = .ok e ∧ e.counts = .ok c := by
  rw [undecodable_iff hs] at h
  push Not at h
  obtain ⟨e, hstart, c, hcounts⟩ := h
  exact ⟨e, c, hstart, hcounts⟩

/-! ## What a walk keeps -/

/-- The same documents do not decode, and they were not touched. -/
structure Keeps (s s' : Store) : Prop where
  tables : s'.HasTables
  undecodable : ∀ f, s'.Undecodable f ↔ s.Undecodable f
  document : ∀ f, s.Undecodable f → s'.document? f = s.document? f

/-- A store keeps what it has. -/
theorem Keeps.refl (hs : s.HasTables) : s.Keeps s := ⟨hs, fun _ => .rfl, fun _ _ => rfl⟩

/-- What is kept in two steps is kept in both. -/
theorem Keeps.trans (h : s.Keeps s') (h' : s'.Keeps s'') : s.Keeps s'' where
  tables := h'.tables
  undecodable f := (h'.undecodable f).trans (h.undecodable f)
  document f hf := (h'.document f ((h.undecodable f).2 hf)).trans (h.document f hf)

/-- Stores that keep the same documents block the same references. -/
theorem Keeps.blocks_iff (h : s.Keeps s') : s'.Blocks r ↔ s.Blocks r := by
  unfold Blocks
  simp only [h.undecodable]

/-- A document that decodes may be replaced by one that does. -/
theorem keeps_put (hs : s.HasTables) {e e' : Entry} (he : s.start f = .ok e) (hdecodes : e.Decodes)
    (hwritable : e'.Writable) (hdecodes' : e'.Decodes) (hp : e'.partition = .contents f) :
    s.Keeps (s.put f e') := by
  have hput : (s.put f e').HasTables := ⟨by simpa [put] using hs.contents, hs.names, hs.addresses⟩
  have hself : ¬s.Undecodable f := by
    rw [undecodable_iff hs.contents]
    exact fun h => h e he hdecodes
  have hother {g : Address} (hg : g ≠ f) : s.SameAt (s.put f e') (.contents g) :=
    sameAt_put s (fun he => hg (Partition.contents.inj he)) e'
  refine ⟨hput, fun g => ?_, fun g hg => ?_⟩
  · rw [undecodable_iff hput.contents, undecodable_iff hs.contents]
    by_cases hg : g = f
    · subst hg
      have hagain : (s.put g e').start g = .ok e'.reread := by
        rw [start_put he, ← hp, Entry.parse_text_of_writable hwritable]
      exact iff_of_false (fun h => h _ hagain hdecodes'.reread) fun h => h e he hdecodes
    · rw [(hother hg).start_eq]
  · exact (hother fun he => hself (he ▸ hg)).document?_eq

/-! ## The walk -/

/-- A reference that is not blocked is added. -/
theorem exists_apply_of_free (hs : s.HasTables) (hfree : ¬s.Blocks r)
    (hspare : ∀ f e c, r.1 = .contents f → s.start f = .ok e → e.counts = .ok c →
      Entry.Spare c r.2.1 r.2.2) :
    ∃ s', (Mutation.increment r.1 r.2.1 r.2.2).apply s = (.ok (), s') ∧ s.Keeps s' := by
  obtain ⟨p, a, name⟩ := r
  cases p with
  | globals =>
    obtain ⟨n, hn⟩ := Option.isSome_iff_exists.1 hs.names
    obtain ⟨t, ht⟩ := Option.isSome_iff_exists.1 hs.addresses
    exact ⟨_, apply_increment_globals_of_tables hn ht a name, ⟨hs.contents, rfl, rfl⟩,
      fun _ => .rfl, fun _ _ => rfl⟩
  | contents f =>
    obtain ⟨e, c, hstart, hcounts⟩ :=
      exists_start_of_not_undecodable hs.contents fun h => hfree ⟨f, rfl, h⟩
    have hspare := hspare f e c rfl hstart hcounts
    have hwritable := writable_start hstart
    have hdecodes : e.Decodes := ⟨c, hcounts⟩
    have hpartition : e.partition = .contents f := partition_start hstart
    refine ⟨_, updateContents_of_start (fun e => e.increment a name) hstart
      (Entry.increment_of_counts hcounts hspare), ?_⟩
    exact keeps_put hs hstart hdecodes (hwritable.raised hspare)
      (hdecodes.raised hwritable c a name) hpartition

/-- References that are not blocked are added, whatever comes after them. -/
theorem adding_of_free (hs : s.HasTables) (hfree : ∀ r ∈ refs, ¬s.Blocks r)
    (h : s.Unsaturated (refs ++ more)) :
    ∃ s', s.adding refs = (.ok (), s') ∧ s.Keeps s' ∧ s'.Unsaturated more := by
  induction refs generalizing s with
  | nil => exact ⟨s, rfl, .refl hs, h⟩
  | cons r refs ih =>
    obtain ⟨s₁, happly, hkeeps⟩ := exists_apply_of_free hs (hfree r List.mem_cons_self) h.1
    have hrest : ∀ r ∈ refs, ¬s₁.Blocks r := by
      intro r hr
      rw [hkeeps.blocks_iff]
      exact hfree r (List.mem_cons_of_mem _ hr)
    obtain ⟨s₂, hadding, hkeeps', hmore⟩ := ih hkeeps.tables hrest (h.2 s₁ happly)
    refine ⟨s₂, ?_, hkeeps.trans hkeeps', hmore⟩
    rw [adding, happly]
    exact hadding

/-- A blocked reference ends the walk where it is. -/
theorem adding_of_blocks (hs : s.HasTables) (h : s.Blocks r) (more : List Reference) :
    ∃ x, s.adding (r :: more) = (.error x, s) := by
  obtain ⟨p, a, name⟩ := r
  obtain ⟨f, hp, hf⟩ := h
  obtain rfl : p = .contents f := hp
  rw [undecodable_iff hs.contents] at hf
  have happly : ∃ x, (Mutation.increment (.contents f) a name).apply s = (.error x, s) := by
    cases hstart : s.start f with
    | error x => exact ⟨x, updateContents_of_error (fun e => e.increment a name) hstart⟩
    | ok e =>
      cases hincrement : e.increment a name with
      | error reason =>
        exact ⟨_, updateContents_of_malformed (fun e => e.increment a name) hstart hincrement⟩
      | ok e' => exact absurd (Entry.decodes_of_increment hincrement) (hf e hstart)
  obtain ⟨x, happly⟩ := happly
  refine ⟨x, ?_⟩
  rw [adding, happly]

end Store

/-! ## Heads that are blocked -/

/-- The snapshot without the heads from an address on. -/
def Snapshot.below (db : Snapshot) (a : Address) : Snapshot :=
  { db with heads := db.heads.filter fun b _ => b < a }

namespace Snapshot

variable (db : Snapshot) {a : Address}

/-- The snapshot below an address has the bounded heads below it. -/
theorem boundedHeads_below (a : Address) :
    (db.below a).boundedHeads = db.boundedHeads.filter (· < a) := by
  have hkeys : (db.below a).heads.toList = db.heads.toList.filter (· < a) := by
    simp [below, KeySet.toList, Table.keys, Table.filter, List.filter_map, Function.comp_def]
  unfold boundedHeads headsIn
  rw [hkeys, List.filter_filter, List.filter_filter]
  refine List.filter_congr fun b _ => ?_
  rw [Bool.and_comm]
  rfl

/-- The heads below a head come before it. -/
theorem exists_boundedHeads_eq (ha : a ∈ db.boundedHeads) :
    ∃ rest, db.boundedHeads = (db.below a).boundedHeads ++ a :: rest := by
  have hsorted : db.boundedHeads.Pairwise (· < ·) :=
    (db.heads.pairwise_keys.imp fun hlt => compareOfLessAndEq_eq_lt.1 hlt).filter _
  obtain ⟨before, rest, hsplit⟩ := List.append_of_mem ha
  refine ⟨rest, ?_⟩
  rw [hsplit] at hsorted
  obtain ⟨-, hrest, hbefore⟩ := List.pairwise_append.1 hsorted
  have hlow : before.filter (· < a) = before :=
    List.filter_eq_self.2 fun b hb => decide_eq_true (hbefore b hb a List.mem_cons_self)
  have hhigh : (a :: rest).filter (· < a) = [] := by
    refine List.filter_eq_nil_iff.2 fun b hb => ?_
    rcases List.mem_cons.1 hb with rfl | hb
    · simp
    · simpa using UInt64.le_of_lt ((List.pairwise_cons.1 hrest).1 b hb)
  rw [boundedHeads_below, hsplit, List.filter_append, hlow, hhigh, List.append_nil]

end Snapshot

namespace ImplicitTags

variable {db : Snapshot} {s : Store} {t : ImplicitTags} {a : Address}

/-- A head within the bounds has implicit tags, and they are counted in a document that does not
decode. -/
def Blocked (db : Snapshot) (s : Store) (t : ImplicitTags) (a : Address) : Prop :=
  a ∈ db.boundedHeads ∧ t.total db a ≠ 0 ∧
    ∃ f, implicitPartition db a = .contents f ∧ s.Undecodable f

/-- A blocked reference comes from a blocked head. -/
theorem blocked_of_blocks (ha : a ∈ db.boundedHeads) {r : Reference}
    (hr : r ∈ t.referencesAt db a) (h : s.Blocks r) : t.Blocked db s a := by
  obtain ⟨k, hk, rfl⟩ := List.mem_map.1 hr
  refine ⟨ha, ?_, h⟩
  rw [← length_tags]
  exact Nat.pos_iff_ne_zero.1 (List.length_pos_of_mem hk)

/-- A blocked head has a blocked reference first. -/
theorem Blocked.exists_referencesAt_eq (h : t.Blocked db s a) :
    ∃ r more, t.referencesAt db a = r :: more ∧ s.Blocks r := by
  obtain ⟨-, htotal, hblocks⟩ := h
  rw [← length_tags] at htotal
  obtain ⟨k, ks, hks⟩ := List.exists_cons_of_length_pos (Nat.pos_iff_ne_zero.2 htotal)
  refine ⟨(implicitPartition db a, a, k), ks.map fun k => (implicitPartition db a, a, k), ?_,
    hblocks⟩
  rw [referencesAt, hks]
  rfl

/-- The references up to a head are those of the heads below it, followed by its own. -/
theorem exists_references_eq (t : ImplicitTags) (ha : a ∈ db.boundedHeads) :
    ∃ rest, t.references db = t.references (db.below a) ++ (t.referencesAt db a ++ rest) := by
  have hsame (b : Address) : t.referencesAt (db.below a) b = t.referencesAt db b := by
    cases t <;> rfl
  obtain ⟨rest, hsplit⟩ := db.exists_boundedHeads_eq ha
  refine ⟨rest.flatMap fun b => t.referencesAt db b, ?_⟩
  unfold references
  rw [hsplit, List.flatMap_append, List.flatMap_cons]
  simp only [hsame]

/-- At the first blocked head the walk ends, where it has come from the heads below. -/
theorem Blocked.exists_adding (hs : s.HasTables) (h : t.Blocked db s a)
    (hleast : ∀ b, t.Blocked db s b → a ≤ b) (hcounts : s.Unsaturated (t.references db)) :
    ∃ s' x, s.adding (t.references (db.below a)) = (.ok (), s') ∧ s.Keeps s' ∧
      s.adding (t.references db) = (.error x, s') := by
  obtain ⟨rest, hsplit⟩ := t.exists_references_eq h.1
  obtain ⟨r, more, hreferences, hblocks⟩ := h.exists_referencesAt_eq
  -- a blocked reference of a lower head would make that head the first
  have hfree : ∀ r ∈ t.references (db.below a), ¬s.Blocks r := by
    intro r hr hblocks
    obtain ⟨b, hb, hr⟩ := List.mem_flatMap.1 hr
    rw [Snapshot.boundedHeads_below, List.mem_filter] at hb
    have hr : r ∈ t.referencesAt db b := by cases t <;> exact hr
    have hle := hleast b (blocked_of_blocks hb.1 hr hblocks)
    exact absurd (of_decide_eq_true hb.2) (UInt64.not_lt.2 hle)
  rw [hsplit] at hcounts ⊢
  obtain ⟨s', hwalk, hkeeps, -⟩ := Store.adding_of_free hs hfree hcounts
  obtain ⟨x, hend⟩ :=
    Store.adding_of_blocks hkeeps.tables (hkeeps.blocks_iff.2 hblocks) (more ++ rest)
  refine ⟨s', x, hwalk, hkeeps, ?_⟩
  rw [Store.adding_append hwalk, hreferences]
  exact hend

/-- Without a blocked head the walk goes to its end. -/
theorem exists_adding_of_free (hs : s.HasTables) (hfree : ∀ a, ¬t.Blocked db s a)
    (hcounts : s.Unsaturated (t.references db)) :
    ∃ s', s.adding (t.references db) = (.ok (), s') := by
  have hrefs : ∀ r ∈ t.references db, ¬s.Blocks r := by
    intro r hr hblocks
    obtain ⟨b, hb, hr⟩ := List.mem_flatMap.1 hr
    exact hfree b (blocked_of_blocks hb hr hblocks)
  rw [← List.append_nil (t.references db)] at hcounts
  obtain ⟨s', hwalk, -⟩ := Store.adding_of_free hs hrefs hcounts
  exact ⟨s', hwalk⟩

/-- Of blocked heads there is a first one. -/
theorem Blocked.exists_least (h : t.Blocked db s a) :
    ∃ b, t.Blocked db s b ∧ ∀ c, t.Blocked db s c → b ≤ c := by
  obtain ⟨b, hb, hleast⟩ := (measure UInt64.toNat).wf.has_min {a | t.Blocked db s a} ⟨a, h⟩
  exact ⟨b, hb, fun c hc => UInt64.le_iff_toNat_le.2 (Nat.not_lt.1 (hleast c hc))⟩

end ImplicitTags

/-- Adding implicit tags fails exactly if a head that has some is blocked. Then it has added those
of the heads below the first such head, which succeeds where there are no other heads, and no more,
and the documents that do not decode are as they were. No count of a function may pass the greatest
word. -/
theorem implicit_tags_stop_at_blocked (db : Snapshot) {s : Store} (hs : s.HasTables)
    (t : ImplicitTags) (hcounts : s.Unsaturated (t.references db)) (room : Option Nat) :
    let r := outcome (t.run db) (.start s room)
    ((∃ x, r.1 = .error x) ↔ ∃ a, t.Blocked db s a) ∧
    ∀ a, t.Blocked db s a → (∀ b, t.Blocked db s b → a ≤ b) →
      (∃ n events, outcome (t.run (db.below a)) (.start s room)
        = (.ok n, ⟨r.2.store, room, events⟩)) ∧
      ∀ f, s.Undecodable f → r.2.store.document? f = s.document? f := by
  obtain ⟨events, hrun⟩ := t.exists_outcome_run db s room #[]
  have hrun : outcome (t.run db) (.start s room) = _ := hrun
  intro r
  have hr : r = _ := hrun
  -- the walk ends at the least blocked head, and so far it is the walk below that head
  have hfails (a : Address) (ha : t.Blocked db s a) (hleast : ∀ b, t.Blocked db s b → a ≤ b) :
      (∃ x, r.1 = .error x) ∧
      (∃ n events, outcome (t.run (db.below a)) (.start s room)
        = (.ok n, ⟨r.2.store, room, events⟩)) ∧
      ∀ f, s.Undecodable f → r.2.store.document? f = s.document? f := by
    obtain ⟨s', x, hbelow, hkeeps, hwalk⟩ := ha.exists_adding hs hleast hcounts
    obtain ⟨events', hrun'⟩ := t.exists_outcome_run (db.below a) s room #[]
    rw [hbelow] at hrun'
    rw [hr, hwalk]
    exact ⟨⟨x, rfl⟩, ⟨_, events', hrun'⟩, hkeeps.document⟩
  refine ⟨⟨fun ⟨x, hx⟩ => ?_, fun ⟨a, ha⟩ => ?_⟩, fun a ha hleast => (hfails a ha hleast).2⟩
  · by_contra hnone
    obtain ⟨s', hwalk⟩ := ImplicitTags.exists_adding_of_free hs (not_exists.1 hnone) hcounts
    rw [hr, hwalk] at hx
    cases hx
  · obtain ⟨b, hb, hleast⟩ := ha.exists_least
    exact (hfails b hb hleast).1

/-- A snapshot with a named head in each of two functions, and one outside. -/
def Snapshot.namedHeads : Snapshot :=
  (((((Snapshot.empty 0 64).withFunction 16 16 32).withFunction 40 40 48).withCustomName
    20).withCustomName 44).withCustomName 56

/-- A store with a document for the second of them that is no object. -/
def Store.broken : Store := Store.fresh.withTables (Table.ofList [(40, "broken")]) ∅ ∅

/-- The sample has room for all references. -/
theorem Store.unsaturated_broken :
    Store.broken.Unsaturated (ImplicitTags.references .namedHeads .customNames) := by
  have hreferences : ImplicitTags.references .namedHeads .customNames
      = [(.contents 16, 20, nameTag), (.contents 40, 44, nameTag), (.globals, 56, nameTag)] := by
    decide
  have hempty : Store.broken.start 16 = .ok (.ofCounts (.contents 16) ∅) := rfl
  have hbroken : Store.broken.start 40 = .error .json := rfl
  rw [hreferences]
  refine ⟨fun f e c hf he hc => ?_, fun s' hs' => ?_⟩
  · obtain rfl := Partition.contents.inj hf
    obtain rfl := Except.ok.inj (hempty.symm.trans he)
    rw [Entry.counts_ofCounts] at hc
    obtain rfl := Except.ok.inj hc
    exact ⟨by decide, by decide⟩
  · have hput : s' = Store.broken.put 16
        (.ofCounts (.contents 16) ((∅ : Counts).record 20 nameTag)) := by
      have hspare : Entry.Spare ∅ 20 nameTag := by decide
      have happly := updateContents_of_start (fun e => e.increment 20 nameTag) hempty
        (Entry.increment_ofCounts (.contents 16) hspare)
      exact ((Prod.mk.inj (happly.symm.trans hs')).2).symm
    have hstart : s'.start 40 = .error .json := by
      rw [hput, start_put_of_ne _ (by decide), hbroken]
    refine ⟨fun f e c hf he => ?_, fun s'' _ => ⟨fun f e c hf => ?_, fun _ _ => trivial⟩⟩
    · obtain rfl := Partition.contents.inj hf
      rw [hstart] at he
      cases he
    · cases hf

/-- The builder stops at the broken document of the sample, with the references below it added. -/
theorem implicit_tags_stop_at_blocked_broken :
    Store.broken.HasTables ∧
    Store.broken.Unsaturated (ImplicitTags.references .namedHeads .customNames) ∧
    let r := outcome (customNames .namedHeads) (.start .broken none)
    (∃ x, r.1 = .error x) ∧
    (∃ n events, outcome (customNames (Snapshot.namedHeads.below 44)) (.start .broken none)
      = (.ok n, ⟨r.2.store, none, events⟩)) ∧ r.2.store.document? 40 = some "broken" := by
  have hs : Store.broken.HasTables := ⟨rfl, rfl, rfl⟩
  obtain ⟨hfails, hfirst⟩ := implicit_tags_stop_at_blocked .namedHeads hs .customNames
    Store.unsaturated_broken none
  have hundecodable : Store.broken.Undecodable 40 := by
    refine ⟨"broken", rfl, fun e he => ?_⟩
    have hparse : Entry.parse (.contents 40) "broken" = .error .json := rfl
    rw [hparse] at he
    cases he
  have hblocked : ImplicitTags.Blocked .namedHeads .broken .customNames 44 :=
    ⟨by decide, by decide, 40, by decide, hundecodable⟩
  have hleast (b : Address) (hb : ImplicitTags.Blocked .namedHeads .broken .customNames b) :
      44 ≤ b := by
    obtain ⟨hhead, htotal, f, hf, text, htext, -⟩ := hb
    have hheads : Snapshot.namedHeads.boundedHeads = [16, 20, 40, 44, 56] := by decide
    rw [hheads] at hhead
    simp only [List.mem_cons, List.not_mem_nil, or_false] at hhead
    rcases hhead with rfl | rfl | rfl | rfl | rfl
    · exact absurd rfl htotal
    · obtain rfl : f = 16 := (Partition.contents.inj hf).symm
      cases htext
    · exact absurd rfl htotal
    · exact UInt64.le_refl _
    · exact by decide
  obtain ⟨hbelow, hdocument⟩ := hfirst 44 hblocked hleast
  exact ⟨hs, Store.unsaturated_broken, hfails.2 ⟨44, hblocked⟩, hbelow, hdocument 40 hundecodable⟩

end TagCache
