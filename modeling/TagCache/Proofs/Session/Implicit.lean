import TagCache.Proofs.Entry.Update
import TagCache.Proofs.Session.Soundness

/-!
# Implicit tags and verification

Adding the references of custom names and extra comment lines after a rebuild raises the counts of
functions past those of their tags. What a function's document then holds are the counts of the
rebuild with those references recorded (`Snapshot.Recorded`); each addition keeps this
(`Session.exists_reaches_addReferences`). None is counted with a function at its entry point, where
alone the check may leave tags out, so one such reference is enough for the check to fail
(`Snapshot.not_explains_countsWith`): it accepts exactly the functions that got none
(`verification_accepts_additions_iff`).
-/

namespace TagCache

/-! ## Counts with references recorded -/

namespace Counts

/-- Record references in order. -/
def recordAll (c : Counts) (refs : List (Address × String)) : Counts :=
  refs.foldl (fun c r => c.record r.1 r.2) c

/-- Recording references raises an address by how many of them are at it. -/
theorem getD_addresses_recordAll (c : Counts) (refs : List (Address × String)) (a : Address) :
    (c.recordAll refs).addresses.getD a 0
      = c.addresses.getD a 0 + refs.countP fun r => a = r.1 := by
  induction refs generalizing c with
  | nil => rfl
  | cons r refs ih =>
    have hstep : (c.record r.1 r.2).addresses.getD a 0
        = c.addresses.getD a 0 + if a = r.1 then 1 else 0 := Table.getD_raise _ _ _ _
    have hcons : c.recordAll (r :: refs) = (c.record r.1 r.2).recordAll refs := rfl
    rw [hcons, ih, hstep, List.countP_cons]
    simp only [decide_eq_true_eq]
    omega

/-- Counts that fit with references recorded fit without them. -/
theorem Fits.of_recordAll {c : Counts} {refs : List (Address × String)}
    (h : (c.recordAll refs).Fits) : c.Fits := by
  induction refs generalizing c with
  | nil => exact h
  | cons r refs ih => exact Fits.of_record (ih h)

end Counts

/-- A reference to add: where it is counted, its address, and its name. -/
abbrev Reference := Partition × Address × String

/-- The references that are counted in a partition. -/
def referencesTo (p : Partition) (refs : List Reference) : List (Address × String) :=
  (refs.filter fun r => r.1 = p).map (·.2)

/-- The references to a partition are those that name it. -/
theorem mem_referencesTo_iff {p : Partition} {refs : List Reference} {r : Address × String} :
    r ∈ referencesTo p refs ↔ (p, r) ∈ refs := by
  unfold referencesTo
  rw [List.mem_map]
  constructor
  · rintro ⟨⟨q, r⟩, hmem, rfl⟩
    obtain ⟨hmem, hq⟩ := List.mem_filter.1 hmem
    have hq : q = p := of_decide_eq_true hq
    rw [← hq]
    exact hmem
  · intro h
    exact ⟨(p, r), List.mem_filter.2 ⟨h, decide_eq_true rfl⟩, rfl⟩

/-- References that follow each other do so for each partition. -/
theorem referencesTo_append (p : Partition) (refs more : List Reference) :
    referencesTo p (refs ++ more) = referencesTo p refs ++ referencesTo p more := by
  unfold referencesTo
  rw [List.filter_append, List.map_append]

/-- A reference to a partition is one of its references. -/
@[simp] theorem referencesTo_self (p : Partition) (r : Address × String) :
    referencesTo p [(p, r)] = [r] := by
  simp [referencesTo]

/-- A reference to another partition is none of them. -/
theorem referencesTo_of_ne {p q : Partition} (h : q ≠ p) (r : Address × String) :
    referencesTo p [(q, r)] = [] := by
  simp [referencesTo, h]

namespace Snapshot

/-- The counts of a function after a rebuild and further references. -/
def countsWith (db : Snapshot) (refs : List Reference) (f : Address) :
    Counts :=
  (db.contentsCounts f).recordAll (referencesTo (.contents f) refs)

variable {db : Snapshot} {f : Address} {refs : List Reference}

/-- Further references are recorded in the counts of their function. -/
theorem countsWith_append (more : List Reference) :
    db.countsWith (refs ++ more) f
      = (db.countsWith refs f).recordAll (referencesTo (.contents f) more) := by
  unfold countsWith Counts.recordAll
  rw [referencesTo_append, List.foldl_append]

/-- Counts that fit with further references fit without them. -/
theorem fits_countsWith_of_append {more : List Reference}
    (h : (db.countsWith (refs ++ more) f).Fits) : (db.countsWith refs f).Fits := by
  rw [countsWith_append] at h
  exact h.of_recordAll

/-- A reference that is not counted with a function leaves its counts alone. -/
theorem countsWith_append_of_ne {p : Partition} (hp : p ≠ .contents f) (a : Address)
    (name : String) : db.countsWith (refs ++ [(p, a, name)]) f = db.countsWith refs f := by
  rw [countsWith_append, referencesTo_of_ne hp]
  rfl

/-- One reference more to a function is recorded in its counts. -/
theorem countsWith_append_self (a : Address) (name : String) :
    db.countsWith (refs ++ [(.contents f, a, name)]) f
      = (db.countsWith refs f).record a name := by
  rw [countsWith_append, referencesTo_self]
  rfl

/-- Each function has the document of its counts with the references recorded. -/
def Recorded (db : Snapshot) (refs : List Reference)
    (c : Table Address String) : Prop :=
  ∀ f ∈ db.entries, c.find? f = some (Entry.ofCounts (.contents f) (db.countsWith refs f)).text

end Snapshot

/-! ## Adding references -/

namespace Session

variable {db : Snapshot} {refs : List Reference}
  {s : Store} {c : Table Address String} {n : Table String StoredCount}
  {t : Table Address StoredCount}

/-- One more reference is recorded with its function, if it has one. -/
theorem exists_reaches_increment (hc : db.Recorded refs c) {p : Partition} {a : Address}
    {name : String} (hfit : ∀ f ∈ db.entries, (db.countsWith (refs ++ [(p, a, name)]) f).Fits)
    (hp : ∀ f, p = .contents f → f ∈ db.entries) :
    ∃ c' n' t', Reaches (mutate (.increment p a name)) (s.withTables c n t) ()
      (s.withTables c' n' t') ∧ db.Recorded (refs ++ [(p, a, name)]) c' := by
  cases p with
  | globals =>
    refine ⟨_, _, _, Reaches.mutate (apply_increment_globals a name), fun f hf => ?_⟩
    rw [Snapshot.countsWith_append_of_ne (by simp)]
    exact hc f hf
  | contents f =>
    have hf := hp f rfl
    have hfits : ((db.countsWith refs f).record a name).Fits := by
      rw [← Snapshot.countsWith_append_self]
      exact hfit f hf
    have hstart : startEntry c f
        = .ok (Entry.ofCounts (.contents f) (db.countsWith refs f)) := by
      unfold startEntry
      rw [hc f hf]
      exact Entry.parse_ofCounts _ hfits.of_record
    refine ⟨_, _, _, Reaches.mutate
      (apply_increment_contents a name hstart (Entry.increment_ofCounts _ hfits.spare)), ?_⟩
    intro g hg
    by_cases hgf : g = f
    · subst hgf
      rw [Table.find?_insert_self, Snapshot.countsWith_append_self]
    · have hne : Partition.contents f ≠ .contents g :=
        fun he => hgf (Partition.contents.inj he).symm
      rw [Table.find?_insert_of_ne _ _ hgf, Snapshot.countsWith_append_of_ne hne]
      exact hc g hg

/-- References are recorded one by one. -/
theorem exists_reaches_addReferences {more : List Reference}
    (hc : db.Recorded refs c) (hfit : ∀ f ∈ db.entries, (db.countsWith (refs ++ more) f).Fits)
    (hmore : ∀ r ∈ more, ∀ f, r.1 = .contents f → f ∈ db.entries) :
    ∃ c' n' t', Reaches (addReferences more) (s.withTables c n t) more.length
      (s.withTables c' n' t') ∧ db.Recorded (refs ++ more) c' := by
  induction more generalizing refs c n t with
  | nil =>
    rw [List.append_nil]
    exact ⟨c, n, t, .pure, hc⟩
  | cons r more ih =>
    obtain ⟨p, a, name⟩ := r
    have hsplit : refs ++ (p, a, name) :: more = (refs ++ [(p, a, name)]) ++ more := by simp
    rw [hsplit] at hfit ⊢
    have hfirst : ∀ f ∈ db.entries, (db.countsWith (refs ++ [(p, a, name)]) f).Fits :=
      fun f hf => Snapshot.fits_countsWith_of_append (hfit f hf)
    obtain ⟨c₁, n₁, t₁, hstep, hc₁⟩ := exists_reaches_increment (s := s) (n := n) (t := t) hc hfirst
      (hmore _ List.mem_cons_self)
    obtain ⟨c₂, n₂, t₂, hrest, hc₂⟩ :=
      ih hc₁ hfit fun r hr => hmore r (List.mem_cons_of_mem _ hr)
    refine ⟨c₂, n₂, t₂, ?_, hc₂⟩
    rw [List.length_cons, Nat.add_comm]
    exact hstep.bind (hrest.bind .pure)

end Session

/-! ## Implicit tags -/

open Session

/-- The two kinds of implicit tags: names that the user gave, and lines of extra comments. -/
inductive ImplicitTags where
  | customNames
  | extraComments

namespace ImplicitTags

variable {db : Snapshot}

/-- Add the references of a kind of implicit tags, and count them. -/
def run (db : Snapshot) : ImplicitTags → Session Nat
  | .customNames => Session.customNames db
  | .extraComments => Session.extraComments db

/-- The implicit tags at an address, in the order in which they are added. -/
def tags (db : Snapshot) (a : Address) : ImplicitTags → List String
  | .customNames => if db.hasCustomName a then [nameTag] else []
  | .extraComments => List.replicate (db.extraLines a .before) ExtraSide.before.tag
    ++ List.replicate (db.extraLines a .after) ExtraSide.after.tag

/-- The number of implicit tags at an address. -/
def total (db : Snapshot) (a : Address) : ImplicitTags → Nat
  | .customNames => if db.hasCustomName a then 1 else 0
  | .extraComments => db.extraLines a .before + db.extraLines a .after

/-- The references of the implicit tags at an address. -/
def referencesAt (db : Snapshot) (a : Address) (t : ImplicitTags) : List Reference :=
  (t.tags db a).map fun k => (implicitPartition db a, a, k)

/-- The references of all implicit tags within the bounds, in order. -/
def references (db : Snapshot) (t : ImplicitTags) : List Reference :=
  db.boundedHeads.flatMap fun a => t.referencesAt db a

/-- An address has as many tags as its total says. -/
theorem length_tags (t : ImplicitTags) (a : Address) : (t.tags db a).length = t.total db a := by
  cases t with
  | customNames =>
    show (if db.hasCustomName a then [nameTag] else []).length
      = if db.hasCustomName a then 1 else 0
    split <;> rfl
  | extraComments => simp [tags, total]

/-- The references of custom names are those that their builder adds. -/
theorem references_customNames :
    references db .customNames = customNameReferences db := by
  unfold references customNameReferences
  induction db.boundedHeads with
  | nil => rfl
  | cons a heads ih =>
    rw [List.flatMap_cons, ih, List.filter_cons]
    cases h : db.hasCustomName a <;> simp [referencesAt, tags, h]

/-- The references of extra comment lines are those that their builder adds. -/
theorem references_extraComments :
    references db .extraComments = db.boundedHeads.flatMap (extraReferences db) := by
  unfold references
  refine congrArg (fun g => db.boundedHeads.flatMap g) (funext fun a => ?_)
  simp [referencesAt, tags, extraReferences]

variable {r : Reference}

/-- A reference is added at a head within the bounds, and counted where implicit tags are. -/
theorem mem_references_iff {t : ImplicitTags} : r ∈ t.references db ↔
    ∃ a ∈ db.boundedHeads, ∃ k ∈ t.tags db a, r = (implicitPartition db a, a, k) := by
  simp only [references, referencesAt, List.mem_flatMap, List.mem_map, eq_comm]

/-- An address without a custom name has no tag for one. -/
theorem tags_customNames_eq_nil_iff {a : Address} :
    customNames.tags db a = [] ↔ db.hasCustomName a = false := by
  simp [tags]

/-- An address without extra comment lines has no tag for one. -/
theorem tags_extraComments_eq_nil_iff {a : Address} :
    extraComments.tags db a = [] ↔ ∀ side, db.extraLines a side = 0 := by
  simp only [tags, List.append_eq_nil_iff, List.replicate_eq_nil_iff]
  exact ⟨fun h side => by cases side <;> simp [h], fun h => ⟨h _, h _⟩⟩

end ImplicitTags

/-- The operations that add references of implicit tags. -/
inductive Operation.Adds : Operation → Prop
  | customNames : Adds .customNames
  | extraComments : Adds .extraComments

/-- The references that an operation adds, in order. -/
def Operation.references (db : Snapshot) : Operation → List Reference
  | .customNames => ImplicitTags.customNames.references db
  | .extraComments => ImplicitTags.extraComments.references db
  | _ => []

/-- What an operation adds are references of implicit tags. -/
theorem Operation.exists_of_mem_references {db : Snapshot} {op : Operation} {r : Reference}
    (hr : r ∈ op.references db) :
    ∃ a ∈ db.boundedHeads, ∃ name, r = (implicitPartition db a, a, name) := by
  cases op with
  | customNames | extraComments =>
    obtain ⟨a, ha, k, -, rfl⟩ := ImplicitTags.mem_references_iff.1 hr
    exact ⟨a, ha, k, rfl⟩
  | everything | all | contents | globals | erase => cases hr

/-- Nothing at an address is added by any of the operations. -/
structure Snapshot.Unmarked (db : Snapshot) (ops : List Operation) (a : Address) : Prop where
  name : .customNames ∈ ops → db.hasCustomName a = false
  lines : .extraComments ∈ ops → ∀ side, db.extraLines a side = 0

/-- Implicit tags of a kind add nothing to a function exactly if there are none at its heads within
the bounds, other than its entry point. -/
theorem ImplicitTags.referencesTo_references_eq_nil_iff {db : Snapshot} {f : Address}
    {t : ImplicitTags} : referencesTo (.contents f) (t.references db) = [] ↔
      ∀ a ∈ db.boundedHeads, db.functionOf? a = some f → a ≠ f → t.tags db a = [] := by
  simp only [List.eq_nil_iff_forall_not_mem, mem_referencesTo_iff, mem_references_iff]
  constructor
  · intro hnone a ha howner hne k hk
    have hpartition := implicitPartition_eq_contents_iff.2 ⟨howner, hne⟩
    exact hnone (a, k) ⟨a, ha, k, hk, by rw [hpartition]⟩
  · rintro hunmarked r ⟨a, ha, k, hk, he⟩
    obtain ⟨howner, hne⟩ := implicitPartition_eq_contents_iff.1 (Prod.mk.inj he).1.symm
    exact hunmarked a ha howner hne k hk

/-- No reference is counted with a function exactly if nothing is added at its heads within the
bounds, other than its entry point. -/
theorem referencesTo_eq_nil_iff {db : Snapshot} {ops : List Operation} {f : Address} :
    referencesTo (.contents f) (ops.flatMap (Operation.references db)) = [] ↔
      ∀ a ∈ db.boundedHeads, db.functionOf? a = some f → a ≠ f → db.Unmarked ops a := by
  have hnone : referencesTo (.contents f) (ops.flatMap (Operation.references db)) = [] ↔
      ∀ op ∈ ops, referencesTo (.contents f) (op.references db) = [] := by
    simp only [List.eq_nil_iff_forall_not_mem, mem_referencesTo_iff, List.mem_flatMap, not_exists,
      not_and]
    exact ⟨fun h op hop r => h r op hop, fun h r op hop => h op hop r⟩
  rw [hnone]
  constructor
  · intro h a ha howner hne
    refine ⟨fun hop => ?_, fun hop => ?_⟩
    · exact ImplicitTags.tags_customNames_eq_nil_iff.1
        (ImplicitTags.referencesTo_references_eq_nil_iff.1 (h _ hop) a ha howner hne)
    · exact ImplicitTags.tags_extraComments_eq_nil_iff.1
        (ImplicitTags.referencesTo_references_eq_nil_iff.1 (h _ hop) a ha howner hne)
  · intro hunmarked op hop
    cases op with
    | customNames =>
      exact ImplicitTags.referencesTo_references_eq_nil_iff.2 fun a ha howner hne =>
        ImplicitTags.tags_customNames_eq_nil_iff.2 ((hunmarked a ha howner hne).name hop)
    | extraComments =>
      exact ImplicitTags.referencesTo_references_eq_nil_iff.2 fun a ha howner hne =>
        ImplicitTags.tags_extraComments_eq_nil_iff.2 ((hunmarked a ha howner hne).lines hop)
    | everything | all | contents | globals | erase => rfl

/-! ## Running the operations -/

section
variable {db : Snapshot} {refs : List Reference}
  {s : Store} {c : Table Address String} {n : Table String StoredCount}
  {t : Table Address StoredCount}

/-- An operation that adds references leaves the store that adding them one by one leaves. -/
theorem Operation.Adds.exists_reaches_run {op : Operation} (hop : op.Adds) {s s' : Store} {k : Nat}
    (h : Reaches (addReferences (op.references db)) s k s') :
    ∃ summary, Reaches (op.run db) s summary s' := by
  cases hop with
  | customNames =>
    rw [Operation.references, ImplicitTags.references_customNames] at h
    have hadd : Reaches (Session.customNames db) s k s' := h.bind ((Reaches.log _ _).bind .pure)
    exact ⟨_, hadd.bind .pure⟩
  | extraComments =>
    rw [Operation.references, ImplicitTags.references_extraComments] at h
    have hadd : Reaches (Session.extraComments db) s k s' := h.bind ((Reaches.log _ _).bind .pure)
    exact ⟨_, hadd.bind .pure⟩

/-- An operation that adds references records them. -/
theorem Operation.Adds.exists_reaches {op : Operation} (hop : op.Adds) (hc : db.Recorded refs c)
    (hfit : ∀ f ∈ db.entries, (db.countsWith (refs ++ op.references db) f).Fits) :
    ∃ summary c' n' t', Reaches (op.run db) (s.withTables c n t) summary (s.withTables c' n' t') ∧
      db.Recorded (refs ++ op.references db) c' := by
  have hmore : ∀ r ∈ op.references db, ∀ f, r.1 = .contents f → f ∈ db.entries := by
    intro r hr f hf
    obtain ⟨a, -, name, rfl⟩ := exists_of_mem_references hr
    exact mem_entries_of_implicitPartition hf
  obtain ⟨c', n', t', hadded, hc'⟩ :=
    exists_reaches_addReferences (s := s) (n := n) (t := t) hc hfit hmore
  obtain ⟨summary, hrun⟩ := hop.exists_reaches_run hadded
  exact ⟨summary, c', n', t', hrun, hc'⟩

/-- Operations that add references record those of all of them. -/
theorem exists_replay_adds {ops : List Operation} (hops : ∀ op ∈ ops, op.Adds)
    (hc : db.Recorded refs c)
    (hfit : ∀ f ∈ db.entries,
      (db.countsWith (refs ++ ops.flatMap (Operation.references db)) f).Fits) :
    ∃ c' n' t', Call.replay db (s.withTables c n t) (ops.map fun op => (.operate op, none))
        = s.withTables c' n' t' ∧
      db.Recorded (refs ++ ops.flatMap (Operation.references db)) c' := by
  induction ops generalizing refs c n t with
  | nil =>
    refine ⟨c, n, t, rfl, ?_⟩
    rw [List.flatMap_nil, List.append_nil]
    exact hc
  | cons op ops ih =>
    rw [List.flatMap_cons, ← List.append_assoc] at hfit ⊢
    have hfirst : ∀ f ∈ db.entries, (db.countsWith (refs ++ op.references db) f).Fits :=
      fun f hf => Snapshot.fits_countsWith_of_append (hfit f hf)
    obtain ⟨summary, c₁, n₁, t₁, hrun, hc₁⟩ := (hops op List.mem_cons_self).exists_reaches
      (s := s) (n := n) (t := t) hc hfirst
    obtain ⟨c₂, n₂, t₂, hreplay, hc₂⟩ :=
      ih (n := n₁) (t := t₁) (fun op h => hops op (List.mem_cons_of_mem _ h)) hc₁ hfit
    have hstep : Call.run db (s.withTables c n t) none (.operate op) = s.withTables c₁ n₁ t₁ :=
      hrun.store
    refine ⟨c₂, n₂, t₂, ?_, hc₂⟩
    show Call.replay db (Call.run db (s.withTables c n t) none (.operate op)) _ = _
    rw [hstep]
    exact hreplay

end

/-- After a full rebuild, which records no reference yet, they are all that is recorded. -/
theorem exists_replay_everything_adds {db : Snapshot} (hwf : db.WellFormed) {s : Store}
    (hs : s.HasTables) {ops : List Operation} (hops : ∀ op ∈ ops, op.Adds)
    (hfit : ∀ f ∈ db.entries, (db.countsWith (ops.flatMap (Operation.references db)) f).Fits) :
    ∃ (r : Store) (c : _) (n : _) (t : _),
      Call.replay db s ((.everything :: ops).map fun op => (.operate op, none))
        = r.withTables c n t ∧ db.Recorded (ops.flatMap (Operation.references db)) c := by
  obtain ⟨r, c, n, t, hrebuilt, hbuilt⟩ := Store.exists_built_rebuilt hs db
  have hrecorded : db.Recorded [] c := hbuilt.contents
  obtain ⟨c', n', t', hreplay, hc'⟩ :=
    exists_replay_adds (s := r) (n := n) (t := t) hops hrecorded hfit
  refine ⟨r, c', n', t', ?_, hc'⟩
  show Call.replay db (Call.run db s none (.operate .everything)) _ = _
  rw [Call.run_everything hwf hs, hrebuilt, hreplay]

/-! ## Verifying what was added to -/

namespace Snapshot

variable {db : Snapshot} {f : Address} {refs : List Reference}

/-- Counts with a reference at another address than the entry point are not explained: that address
is cached with more references than it has tags, and the check leaves tags out only at the entry
point. -/
theorem not_explains_countsWith {r : Address × String} (hr : r ∈ referencesTo (.contents f) refs)
    (hhead : r.1 ∈ db.itemsOf f) (hne : r.1 ≠ f) (dropped : NameSet) :
    ¬Recount.Explains db f dropped (db.countsWith refs f) := by
  intro hexplains
  have htags : (db.contentsCounts f).addresses.getD r.1 0 = (db.tagsAt r.1).size :=
    Counts.getD_addresses_tallyAll_of_mem (by simpa using nodup_itemsOf f)
      (mem_tagged_iff.2 ⟨hhead, rfl⟩)
  have hcount : (db.countsWith refs f).addresses.getD r.1 0
      = (db.tagsAt r.1).size + (referencesTo (.contents f) refs).countP fun r' => r.1 = r'.1 := by
    rw [countsWith, Counts.getD_addresses_recordAll, htags]
  have hpos : 0 < (referencesTo (.contents f) refs).countP fun r' => r.1 = r'.1 :=
    List.countP_pos_iff.2 ⟨r, hr, decide_eq_true rfl⟩
  cases hm : (db.countsWith refs f).addresses.find? r.1 with
  | none =>
    rw [Table.getD, hm] at hcount
    have hcount : 0 = _ := hcount
    omega
  | some m =>
    have hsize := hexplains.addresses r.1 m hm
    rw [Recount.tagsWithout, if_neg hne] at hsize
    rw [Table.getD, hm] at hcount
    have hcount : m = _ := hcount
    omega

end Snapshot

/-- What is counted with a function is at a head of it, and not at its entry point. -/
theorem mem_itemsOf_of_mem_referencesTo {db : Snapshot} (hwf : db.WellFormed) {f : FunctionInfo}
    (hf : f ∈ db.functions) {ops : List Operation} {r : Address × String}
    (hr : r ∈ referencesTo (.contents f.entry) (ops.flatMap (Operation.references db))) :
    r.1 ∈ db.itemsOf f.entry ∧ r.1 ≠ f.entry := by
  obtain ⟨op, -, hr⟩ := List.mem_flatMap.1 (mem_referencesTo_iff.1 hr)
  obtain ⟨a, ha, name, he⟩ := Operation.exists_of_mem_references hr
  obtain ⟨hpartition, rfl⟩ := Prod.mk.inj he
  obtain ⟨howner, hne⟩ := implicitPartition_eq_contents_iff.1 hpartition.symm
  refine ⟨Snapshot.mem_itemsOf_iff.2 ⟨(Snapshot.mem_boundedHeads_iff.1 ha).1, ?_⟩, hne⟩
  rw [hwf.functionContains_entry hf]
  exact (hwf.functionOf?_eq_entry_iff hf).1 howner

/-- Where references are recorded at other heads of the functions than their entry points, the check
of a function's cache succeeds exactly if it has none. -/
theorem Session.verifyContents_recorded_iff {db : Snapshot} (hwf : db.WellFormed)
    {refs : List Reference} {s : Store} {c : Table Address String}
    {n : Table String StoredCount} {t : Table Address StoredCount} (hc : db.Recorded refs c)
    {f : Address} (hf : f ∈ db.entries) (hfit : (db.countsWith refs f).Fits)
    (hrefs : ∀ r ∈ referencesTo (.contents f) refs, r.1 ∈ db.itemsOf f ∧ r.1 ≠ f) :
    (outcome (verifyContents db f) (.start (s.withTables c n t) none)).1 = .ok true ↔
      referencesTo (.contents f) refs = [] := by
  have htext : (s.withTables c n t).document? f
      = some (Entry.ofCounts (.contents f) (db.countsWith refs f)).text := hc f hf
  have hread : (s.withTables c n t).readContents f
      = .ok (some (Entry.ofCounts (.contents f) (db.countsWith refs f))) :=
    Store.readContents_of_counts hfit htext
  rw [verifyContents_eq_true_iff (hwf.functionOf?_entry hf) hread]
  constructor
  · rintro ⟨-, cached, hcached, -, dropped, hexplains⟩
    rw [Entry.counts_ofCounts] at hcached
    cases hcached
    refine List.eq_nil_iff_forall_not_mem.2 fun r hr => ?_
    obtain ⟨hhead, hne⟩ := hrefs r hr
    exact Snapshot.not_explains_countsWith hr hhead hne dropped hexplains
  · intro hnil
    have hcounts : db.countsWith refs f = db.contentsCounts f := by
      rw [Snapshot.countsWith, hnil]
      rfl
    rw [hcounts]
    refine ⟨Entry.keys_ofCounts _ _, _, Entry.counts_ofCounts _ _, fun b hb => ?_, ∅,
      Snapshot.explains_contentsCounts f⟩
    exact (Snapshot.contains_addresses_contentsCounts.1 hb).1.2

/-- After a full rebuild and any operations that add references of implicit tags, the check of a
function's cache succeeds exactly if none of them is at a head of the function within the bounds,
other than its entry point. No count of a function may pass the greatest word; since counts only go
up, those at the end tell. -/
theorem verification_accepts_additions_iff {db : Snapshot} {s : Store} (hdb : db.check = .ok ())
    (hs : s.HasTables) {ops : List Operation} (hops : ∀ op ∈ ops, op.Adds)
    (hfit : ∀ f ∈ db.functions,
      (db.countsWith (ops.flatMap (Operation.references db)) f.entry).Fits)
    {f : FunctionInfo} (hf : f ∈ db.functions) :
    let after := Call.replay db s ((.everything :: ops).map fun op => (.operate op, none))
    (outcome (verifyContents db f.entry) (.start after none)).1 = .ok true ↔
      ∀ a, db.heads.contains a = true → f.contains a = true → db.low ≤ a → a < db.high →
        a ≠ f.entry → db.Unmarked ops a := by
  have hwf := Snapshot.check_eq_ok_iff.1 hdb
  have hentry : f.entry ∈ db.entries := Snapshot.mem_entries_iff.2 ⟨f, hf, rfl⟩
  have hentries : ∀ e ∈ db.entries,
      (db.countsWith (ops.flatMap (Operation.references db)) e).Fits := by
    intro e he
    obtain ⟨g, hg, rfl⟩ := Snapshot.mem_entries_iff.1 he
    exact hfit g hg
  intro after
  obtain ⟨r, c, n, t, hafter, hc⟩ := exists_replay_everything_adds hwf hs hops hentries
  have hafter : after = r.withTables c n t := hafter
  rw [hafter, verifyContents_recorded_iff hwf hc hentry (hfit f hf)
    fun r hr => mem_itemsOf_of_mem_referencesTo hwf hf hr, referencesTo_eq_nil_iff]
  simp only [Snapshot.mem_boundedHeads_iff, hwf.functionOf?_eq_entry_iff hf]
  constructor
  · intro h a hhead hcontains hlow hhigh
    exact h a ⟨hhead, hlow, hhigh⟩ hcontains
  · rintro h a ⟨hhead, hlow, hhigh⟩ hcontains
    exact h a hhead hcontains hlow hhigh

/-- A snapshot of two functions, the first with a named entry point and a named head, the second
with a comment of two lines above its entry point alone. -/
def Snapshot.commented : Snapshot :=
  (((((Snapshot.empty 0 64).withFunction 16 16 32).withFunction 40 40 48).withCustomName
    16).withCustomName 20).withExtraComments 40 ⟨2, 0⟩

/-- With the tags of both builders added, one function of the sample is accepted and one is not. -/
theorem verification_accepts_additions_commented :
    let after := Call.replay .commented .stale
      ([.everything, .extraComments, .customNames].map fun op => (.operate op, none))
    Snapshot.commented.check = .ok () ∧
      (outcome (verifyContents .commented 16) (.start after none)).1 ≠ .ok true ∧
      (outcome (verifyContents .commented 40) (.start after none)).1 = .ok true := by
  have hops : ∀ op ∈ [Operation.extraComments, .customNames], op.Adds := by
    rintro _ (_ | ⟨_, _ | ⟨_, ⟨⟩⟩⟩) <;> constructor
  have haddresses : ∀ f ∈ Snapshot.commented.functions, (Snapshot.commented.countsWith
      ([.extraComments, .customNames].flatMap (Operation.references .commented))
      f.entry).addresses.Words := by decide
  have hnames : ∀ f ∈ Snapshot.commented.functions, (Snapshot.commented.countsWith
      ([.extraComments, .customNames].flatMap (Operation.references .commented))
      f.entry).names.Words := by decide
  have hiff := fun f hf => verification_accepts_additions_iff (f := f) rfl Store.hasTables_stale
    hops (fun f hf => ⟨haddresses f hf, hnames f hf⟩) hf
  refine ⟨rfl, fun h => ?_, ?_⟩
  · have hmarked := (hiff ⟨16, [⟨16, 32⟩], ∅⟩ (by decide)).1 h 20 rfl rfl (by decide) (by decide)
      (by decide)
    have hname := hmarked.name (by decide)
    cases hname
  · refine (hiff ⟨40, [⟨40, 48⟩], ∅⟩ (by decide)).2 fun a hhead ha _ _ hne => ?_
    have hmem := KeySet.mem_toList_iff.2 hhead
    have hheads : Snapshot.commented.heads.toList = [16, 20, 40] := rfl
    rw [hheads] at hmem
    simp only [List.mem_cons, List.not_mem_nil, or_false] at hmem
    rcases hmem with rfl | rfl | rfl
    · cases ha
    · cases ha
    · exact absurd rfl hne

end TagCache
