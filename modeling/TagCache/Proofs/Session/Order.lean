import TagCache.Proofs.Entry.Reread
import TagCache.Proofs.Session.Implicit

/-!
# The order of builds

Builds of functions and of the index may be made in any order and as often as one likes: each gives
the same result wherever it stands, and what is left depends only on which of them were made
(`builds_commute`). Documents that cannot be read stay, and their builds fail every time. A build
that is made has an effect which does not depend on the address that it was asked for but on the
partition alone (`Store.lay`, `Build.outcome_eq`), which settles after one time
(`Store.lay_lay_self`) and has nothing to do with other partitions (`Store.lay_lay_of_ne`). A
document with a double in it would be written with another text than it was read from, and so it is
left out.
-/

namespace TagCache

open Session

/-! ## Counts laid twice -/

/-- Inserting bindings that are there changes nothing. -/
theorem Bindings.foldl_insert_eq_self {κ ν : Type} [Ord κ] [Std.TransOrd κ] [Std.LawfulEqOrd κ]
    {l m : List (κ × ν)} (h : Ascending m) (hl : ∀ b ∈ l, find? b.1 m = some b.2) :
    l.foldl (fun m b => insert b.1 b.2 m) m = m := by
  induction l with
  | nil => rfl
  | cons b l ih =>
    have hself : insert b.1 b.2 m = m := by
      have htable : (⟨m, h⟩ : Table κ ν).insert b.1 b.2 = ⟨m, h⟩ :=
        Table.insert_eq_self (hl b List.mem_cons_self)
      exact congrArg Table.entries htable
    rw [List.foldl_cons, hself]
    exact ih fun c hc => hl c (List.mem_cons_of_mem _ hc)

namespace Entry

variable {e : Entry} {field field' : String} {counts counts' : List (String × Nat)}

/-- The field holds a table with these counts. -/
def Contains (e : Entry) (field : String) (counts : List (String × Nat)) : Prop :=
  ∃ ms, e.fields.find? field = some (.object ms) ∧ Bindings.Ascending ms ∧
    ∀ b ∈ counts, Bindings.find? b.1 ms = some (.ofCount b.2)

/-- Counts that a field contains are laid over it without a change. -/
theorem Contains.overlay_self (h : e.Contains field counts) : e.overlay field counts = e := by
  obtain ⟨ms, hfield, hasc, hcounts⟩ := h
  have hmembers : e.tableMembers field = ms := by
    rw [tableMembers, hfield]
  have hself : (counts.map fun b => (b.1, Json.ofCount b.2)).foldl
      (fun ms b => Bindings.insert b.1 b.2 ms) ms = ms := by
    refine Bindings.foldl_insert_eq_self hasc fun b hb => ?_
    obtain ⟨c, hc, rfl⟩ := List.mem_map.1 hb
    exact hcounts c hc
  rw [overlay_eq, hmembers, hself, Table.insert_eq_self hfield]

/-- After counts were laid over a field, it contains them. -/
theorem Plain.contains_overlay (h : e.Plain) (field : String) (hkeys : (counts.map (·.1)).Nodup) :
    (e.overlay field counts).Contains field counts := by
  have hasc := (hereditary_tableMembers Json.hereditary_plain h.value field).1
  rw [overlay_eq]
  refine ⟨_, Table.find?_insert_self _ _ _, hasc.foldl_insert, fun b hb => ?_⟩
  refine Bindings.find?_foldl_insert_of_mem hasc ?_ (List.mem_map_of_mem hb)
  rw [List.map_map]
  exact hkeys

/-- Laying counts over one field keeps what another contains. -/
theorem Contains.overlay_of_ne (h : e.Contains field counts) (hne : field ≠ field')
    (counts' : List (String × Nat)) : (e.overlay field' counts').Contains field counts := by
  obtain ⟨ms, hfield, hms⟩ := h
  refine ⟨ms, ?_, hms⟩
  rw [overlay_eq, Table.find?_insert_of_ne _ _ hne, hfield]

/-- Laying counts over an entry once more changes nothing. -/
theorem Plain.laid_laid (h : e.Plain) {c : Counts} (hc : c.Fits) :
    (e.laid c).laid c = e.laid c := by
  have hnodup : ((c.addresses.entries.map fun b => (b.1.text, b.2)).map (·.1)).Nodup := by
    have := nodup_texts c.addresses
    rwa [List.map_map] at this ⊢
  have hnames : (e.laid c).Contains namesField c.names.entries :=
    (h.contains_overlay namesField c.names.nodup_keys).overlay_of_ne
      addressesField_ne_namesField.symm _
  have haddresses : (e.laid c).Contains addressesField
      (c.addresses.entries.map fun b => (b.1.text, b.2)) :=
    Plain.contains_overlay (h.setNames hc.names) addressesField hnodup
  have hfirst : (e.laid c).setNames c.names = e.laid c := hnames.overlay_self
  rw [Entry.laid, hfirst]
  exact haddresses.overlay_self

end Entry

/-! ## Stores that builds keep readable -/

namespace Store

/-- No document that can be read has a double in it. -/
def Floatless (s : Store) : Prop :=
  ∀ f text v, s.document? f = some text → Json.parse? text = some v → v.Floatless

/-- Every document that can be read is one that can be written and read again. -/
def Plain (s : Store) : Prop := ∀ f e, s.start f = .ok e → e.Plain

variable {s : Store}

/-- A store without floats is plain. -/
theorem Floatless.plain (h : s.Floatless) : s.Plain := by
  intro f e he
  obtain ⟨c, hc, he⟩ := exists_contents_of_start he
  unfold startEntry at he
  split at he
  · cases he
    exact Entry.plain_empty _
  · next text hf =>
    have hdocument : s.document? f = some text := by
      rw [document?, hc]
      exact hf
    have hparse := Entry.parse?_of_parse he
    obtain ⟨hplain, hdepth⟩ := Json.plain_of_parse? hparse (h f text _ hdocument hparse)
    exact ⟨hplain, hdepth⟩

/-- Documents of different functions may be written in either order. -/
theorem put_comm (s : Store) {f g : Address} (h : g ≠ f) (e e' : Entry) :
    (s.put f e).put g e' = (s.put g e').put f e := by
  have hinsert (c : Table Address String) :
      (c.insert f e.text).insert g e'.text = (c.insert g e'.text).insert f e.text := by
    refine Table.ext_find? fun k => ?_
    by_cases hg : k = g
    · subst hg
      rw [Table.find?_insert_self, Table.find?_insert_of_ne _ _ h, Table.find?_insert_self]
    · by_cases hf : k = f
      · subst hf
        rw [Table.find?_insert_of_ne _ _ hg, Table.find?_insert_self, Table.find?_insert_self]
      · simp only [Table.find?_insert_of_ne _ _ hg, Table.find?_insert_of_ne _ _ hf]
  unfold put
  simp [Function.comp_def, hinsert]

/-! ## The effect of a build -/

/-- What a build of a partition returns and leaves. A function's document is left alone where it
cannot be read. The names of the index are stored first, also where there is no table for its
addresses. -/
def lay (db : Snapshot) (s : Store) : Partition → Except Failure Counts × Store
  | .contents f =>
    match s.start f with
    | .error x => (.error x, s)
    | .ok e => (.ok (db.contentsCounts f), s.put f (e.laid (db.contentsCounts f)))
  | .globals =>
    match s.names with
    | none => (.error .storage, s)
    | some n =>
      let s := { s with names := some (StoreM.overlay db.globalsCounts.names n) }
      match s.addresses with
      | none => (.error .storage, s)
      | some t =>
        (.ok db.globalsCounts,
          { s with addresses := some (StoreM.overlay db.globalsCounts.addresses t) })

variable {db : Snapshot}

/-- A function whose document cannot be read is left alone. -/
theorem lay_contents_of_error {f : Address} {x : Failure} (h : s.start f = .error x) :
    s.lay db (.contents f) = (.error x, s) := by
  rw [lay, h]

/-- The references of a function are laid over the entry that is stored. -/
theorem lay_contents_of_ok {f : Address} {e : Entry} (h : s.start f = .ok e) :
    s.lay db (.contents f)
      = (.ok (db.contentsCounts f), s.put f (e.laid (db.contentsCounts f))) := by
  rw [lay, h]

/-- A function's document does not depend on what is built of other partitions. -/
theorem start_lay_of_ne {p : Partition} {f : Address} (hp : p ≠ .contents f) :
    (s.lay db p).2.start f = s.start f := by
  cases p with
  | globals =>
    obtain ⟨_, _, n, t, _⟩ := s
    cases n <;> cases t <;> rfl
  | contents g =>
    have hne : f ≠ g := fun he => hp (congrArg Partition.contents he.symm)
    cases hg : s.start g with
    | error x => rw [lay_contents_of_error hg]
    | ok e =>
      rw [lay_contents_of_ok hg]
      exact start_put_of_ne s hne _

/-- Nor do the other partitions depend on the function's document. -/
theorem lay_put_of_ne {p : Partition} {f : Address} (hp : p ≠ .contents f) (e : Entry) :
    (s.put f e).lay db p = ((s.lay db p).1, (s.lay db p).2.put f e) := by
  cases p with
  | globals =>
    obtain ⟨_, _, n, t, _⟩ := s
    cases n <;> cases t <;> rfl
  | contents g =>
    have hne : g ≠ f := fun he => hp (congrArg Partition.contents he)
    have hstart := start_put_of_ne s hne e
    cases hg : s.start g with
    | error x =>
      rw [hg] at hstart
      rw [lay_contents_of_error hg, lay_contents_of_error hstart]
    | ok e' =>
      rw [hg] at hstart
      rw [lay_contents_of_ok hg, lay_contents_of_ok hstart, put_comm s hne]

/-- A build keeps a store plain. -/
theorem Plain.lay (hdb : db.TagsFit) (h : s.Plain) (p : Partition) : (s.lay db p).2.Plain := by
  cases p with
  | globals =>
    intro g e he
    rw [start_lay_of_ne (by simp)] at he
    exact h g e he
  | contents f =>
    cases hf : s.start f with
    | error x =>
      rw [lay_contents_of_error hf]
      exact h
    | ok e =>
      rw [lay_contents_of_ok hf]
      have hlaid := (h f e hf).laid (Snapshot.fits_contentsCounts hdb f)
      intro g e' he'
      by_cases hg : g = f
      · subst hg
        have hpartition := partition_start hf
        rw [start_put_self hf hlaid hpartition] at he'
        cases he'
        exact hlaid
      · rw [start_put_of_ne s hg] at he'
        exact h g e' he'

/-- A second build of a partition does what the first one did. -/
theorem lay_lay_self (hdb : db.TagsFit) (h : s.Plain) (p : Partition) :
    (s.lay db p).2.lay db p = s.lay db p := by
  cases p with
  | globals =>
    obtain ⟨_, _, n, t, _⟩ := s
    cases n with
    | none => rfl
    | some n => cases t <;> simp only [lay, overlay_overlay]
  | contents f =>
    cases hf : s.start f with
    | error x => rw [lay_contents_of_error hf, lay_contents_of_error hf]
    | ok e =>
      have hfits := Snapshot.fits_contentsCounts hdb f
      have hpartition := partition_start hf
      have hstart := start_put_self hf ((h f e hf).laid hfits) hpartition
      rw [lay_contents_of_ok hf, lay_contents_of_ok hstart, (h f e hf).laid_laid hfits, put_put]

/-- A build of a function and one of another partition do not depend on each other. -/
theorem lay_lay_contents (db : Snapshot) (s : Store) {p : Partition} {f : Address}
    (hp : p ≠ .contents f) :
    ((s.lay db (.contents f)).2.lay db p).1 = (s.lay db p).1 ∧
      ((s.lay db p).2.lay db (.contents f)).1 = (s.lay db (.contents f)).1 ∧
      ((s.lay db (.contents f)).2.lay db p).2 = ((s.lay db p).2.lay db (.contents f)).2 := by
  have hstart : (s.lay db p).2.start f = s.start f := start_lay_of_ne hp
  cases hf : s.start f with
  | error x =>
    rw [hf] at hstart
    rw [lay_contents_of_error hf, lay_contents_of_error hstart]
    exact ⟨rfl, rfl, rfl⟩
  | ok e =>
    rw [hf] at hstart
    rw [lay_contents_of_ok hf, lay_contents_of_ok hstart, lay_put_of_ne hp]
    exact ⟨rfl, rfl, rfl⟩

/-- So a build does what it does whatever partition is built before it, and it does not matter which
of the two is first. -/
theorem lay_lay_of_ne {p q : Partition} (hne : p ≠ q) :
    ((s.lay db q).2.lay db p).1 = (s.lay db p).1 ∧
      ((s.lay db q).2.lay db p).2 = ((s.lay db p).2.lay db q).2 := by
  cases q with
  | contents f =>
    obtain ⟨hreply, -, hstore⟩ := lay_lay_contents db s hne
    exact ⟨hreply, hstore⟩
  | globals =>
    cases p with
    | globals => exact absurd rfl hne
    | contents f =>
      obtain ⟨-, hreply, hstore⟩ := lay_lay_contents db s hne.symm
      exact ⟨hreply, hstore.symm⟩

end Store

/-! ## Builds that may fail -/

namespace Session

variable {s : Store} {db : Snapshot}

/-- Building an address ends as the build of its function does. -/
theorem ends_contents (hs : s.Plain) {a f : Address} (howner : db.functionOf? a = some f) :
    Ends (contents db a) s (s.lay db (.contents f)).1 (s.lay db (.contents f)).2 := by
  cases hf : s.start f with
  | ok e =>
    rw [Store.lay_contents_of_ok hf]
    exact (reaches_contents_of_start howner hf (hs f e hf)).ends
  | error x =>
    obtain ⟨i, hi⟩ :=
      Snapshot.exists_function?_of_mem_entries (Snapshot.mem_entries_of_functionOf? howner)
    have happly : (Mutation.setNames (.contents f) (db.contentsCounts f).names).apply s
        = (.error x, s) :=
      updateContents_of_error (fun e => .ok (e.setNames (db.contentsCounts f).names)) hf
    rw [Store.lay_contents_of_error hf]
    unfold contents
    rw [howner]
    exact (Reaches.log _ _).ends_bind <| (reaches_countContents hi).ends_bind <|
      (Reaches.visit a).ends_bind <| (Reaches.log _ _).ends_bind <| (Ends.mutate happly).bind

/-- Building the index ends as the build of its partition does. -/
theorem ends_globals (db : Snapshot) (s : Store) :
    Ends (globals db) s (s.lay db .globals).1 (s.lay db .globals).2 := by
  unfold globals
  refine reaches_countGlobals.ends_bind ((Reaches.writeLine _).ends_bind ?_)
  obtain ⟨version, c, n, t, runs⟩ := s
  cases n with
  | none =>
    have happly : (Mutation.setNames .globals db.globalsCounts.names).apply
        ⟨version, c, none, t, runs⟩ = (.error .storage, ⟨version, c, none, t, runs⟩) := rfl
    exact (Ends.mutate happly).bind
  | some n =>
    refine (Reaches.mutate rfl).ends_bind ((Reaches.writeLine _).ends_bind ?_)
    cases t with
    | none =>
      have happly : (Mutation.setAddresses .globals db.globalsCounts.addresses).apply
          ⟨version, c, some (StoreM.overlay db.globalsCounts.names n), none, runs⟩
          = (.error .storage, _) := rfl
      exact (Ends.mutate happly).bind
    | some t =>
      have happly : (Mutation.setAddresses .globals db.globalsCounts.addresses).apply
          ⟨version, c, some (StoreM.overlay db.globalsCounts.names n), some t, runs⟩
          = (.ok (), _) := rfl
      exact (Reaches.mutate happly).ends_bind Reaches.pure.ends

end Session

/-! ## Lists of builds -/

/-- A build of a part of the cache. -/
inductive Build where
  /-- Build the cache of the function that owns an address. -/
  | contents (address : Address)
  /-- Build the globals index. -/
  | globals

namespace Build

/-- Make a build. -/
def run (db : Snapshot) : Build → Session Counts
  | .contents a => Session.contents db a
  | .globals => Session.globals db

/-- The result of a build on a store, and the store that it leaves. -/
def outcome (db : Snapshot) (s : Store) (b : Build) : Except Failure Counts × Store :=
  let r := Session.outcome (b.run db) (.start s none)
  (r.1, r.2.store)

/-- The store after builds in order. A build that fails stops nothing. -/
def replay (db : Snapshot) (s : Store) (builds : List Build) : Store :=
  builds.foldl (fun s b => (b.outcome db s).2) s

/-- The partition that is built, if there is one. -/
def partition? (db : Snapshot) : Build → Option Partition
  | .contents a => (db.functionOf? a).map .contents
  | .globals => some .globals

variable {db : Snapshot} {s : Store}

/-- A build does what its partition needs. -/
theorem outcome_eq (hs : s.Plain) (b : Build) :
    b.outcome db s = match b.partition? db with
      | none => (.ok ∅, s)
      | some p => s.lay db p := by
  cases b with
  | contents a =>
    cases howner : db.functionOf? a with
    | none =>
      obtain ⟨events, hrun⟩ := (reaches_contents_outside (s := s) howner).outcome_start
      rw [partition?, howner, outcome, run, hrun]
      rfl
    | some f =>
      obtain ⟨events, hrun⟩ := (ends_contents hs howner).outcome_start
      rw [partition?, howner, outcome, run, hrun]
      rfl
  | globals =>
    obtain ⟨events, hrun⟩ := (ends_globals db s).outcome_start
    rw [partition?, outcome, run, hrun]

section
variable (hdb : db.TagsFit) (hs : s.Plain)
include hdb hs

/-- Whatever a build comes to, the store stays plain. -/
theorem plain_outcome (b : Build) : (b.outcome db s).2.Plain := by
  rw [outcome_eq hs]
  cases b.partition? db with
  | none => exact hs
  | some p => exact hs.lay hdb p

/-- A second build does what the first one did. -/
theorem outcome_outcome_self (b : Build) : b.outcome db (b.outcome db s).2 = b.outcome db s := by
  rw [outcome_eq (plain_outcome hdb hs b), outcome_eq hs]
  cases b.partition? db with
  | none => rfl
  | some p => exact Store.lay_lay_self hdb hs p

/-- A build gives the same result before and after another one, and leaves the same store with it in
either order. -/
theorem outcome_outcome (b b' : Build) :
    (b.outcome db (b'.outcome db s).2).1 = (b.outcome db s).1 ∧
      (b.outcome db (b'.outcome db s).2).2 = (b'.outcome db (b.outcome db s).2).2 := by
  rw [outcome_eq (plain_outcome hdb hs b'), outcome_eq (plain_outcome hdb hs b), outcome_eq hs b,
    outcome_eq hs b']
  cases b.partition? db with
  | none => exact ⟨rfl, rfl⟩
  | some p =>
    cases b'.partition? db with
    | none => exact ⟨rfl, rfl⟩
    | some q =>
      by_cases hpq : p = q
      · subst hpq
        exact ⟨congrArg Prod.fst (Store.lay_lay_self hdb hs p), rfl⟩
      · exact Store.lay_lay_of_ne hpq

/-- Whatever is built before, a build gives the same result. -/
theorem reply_replay (builds : List Build) (b : Build) :
    (b.outcome db (replay db s builds)).1 = (b.outcome db s).1 := by
  induction builds generalizing s with
  | nil => rfl
  | cons b' builds ih =>
    exact (ih (plain_outcome hdb hs b')).trans (outcome_outcome hdb hs b b').1

/-- A build may be made before or after others. -/
theorem replay_outcome (builds : List Build) (b : Build) :
    replay db (b.outcome db s).2 builds = (b.outcome db (replay db s builds)).2 := by
  induction builds generalizing s with
  | nil => rfl
  | cons b' builds ih =>
    show replay db (b'.outcome db (b.outcome db s).2).2 builds = _
    rw [(outcome_outcome hdb hs b' b).2]
    exact ih (plain_outcome hdb hs b')

/-- A build that was made has no effect any more. -/
theorem outcome_replay_of_mem {builds : List Build} {b : Build} (hb : b ∈ builds) :
    (b.outcome db (replay db s builds)).2 = replay db s builds := by
  induction builds generalizing s with
  | nil => cases hb
  | cons b' builds ih =>
    have hs' := plain_outcome hdb hs b'
    rcases List.mem_cons.1 hb with rfl | hb
    · show (b.outcome db (replay db (b.outcome db s).2 builds)).2
        = replay db (b.outcome db s).2 builds
      rw [← replay_outcome hdb hs', outcome_outcome_self hdb hs]
    · exact ih hs' hb

/-- Builds that were all made before change nothing. -/
theorem replay_replay_of_subset {builds builds' : List Build} (h : builds' ⊆ builds) :
    replay db (replay db s builds) builds' = replay db s builds := by
  induction builds' with
  | nil => rfl
  | cons b builds' ih =>
    obtain ⟨hb, hrest⟩ := List.cons_subset.1 h
    show replay db (b.outcome db (replay db s builds)).2 builds' = _
    rw [outcome_replay_of_mem hdb hs hb]
    exact ih hrest

/-- Two lists of builds may be made in either order. -/
theorem replay_replay (builds builds' : List Build) :
    replay db (replay db s builds) builds' = replay db (replay db s builds') builds := by
  induction builds generalizing s with
  | nil => rfl
  | cons b builds ih =>
    have hs' := plain_outcome hdb hs b
    show replay db (replay db (b.outcome db s).2 builds) builds'
      = replay db (b.outcome db (replay db s builds')).2 builds
    rw [ih hs', replay_outcome hdb hs]

/-- What is left depends only on which builds were made. -/
theorem replay_eq_of_mem_iff {builds builds' : List Build} (h : ∀ b, b ∈ builds ↔ b ∈ builds') :
    replay db s builds = replay db s builds' := by
  have hto := replay_replay_of_subset hdb hs fun b hb => (h b).2 hb
  have hfrom := replay_replay_of_subset hdb hs fun b hb => (h b).1 hb
  rw [← hto, replay_replay hdb hs, hfrom]

end

end Build

/-- Builds give the same results and leave the same store in any order, and however often each one
is made: the result of a build is what it is on the first store, whatever was built before, and the
store that is left depends only on which builds were made. A build of a function does the same for
all addresses of the function. -/
theorem builds_commute {db : Snapshot} {s : Store} (hdb : db.check = .ok ()) (hfit : db.TagsFit)
    (hs : s.Floatless) :
    (∀ builds b, (Build.outcome db (Build.replay db s builds) b).1 = (Build.outcome db s b).1) ∧
    (∀ builds builds', (∀ b, b ∈ builds ↔ b ∈ builds') →
      Build.replay db s builds = Build.replay db s builds') ∧
    ∀ f ∈ db.functions, ∀ a a', f.contains a = true → f.contains a' = true →
      Build.outcome db s (.contents a) = Build.outcome db s (.contents a') := by
  have hwf := Snapshot.check_eq_ok_iff.1 hdb
  refine ⟨Build.reply_replay hfit hs.plain, fun _ _ => Build.replay_eq_of_mem_iff hfit hs.plain,
    fun f hf a a' ha ha' => ?_⟩
  have hpartition : Build.partition? db (.contents a) = Build.partition? db (.contents a') := by
    rw [Build.partition?, Build.partition?, hwf.functionOf?_of_contains hf ha,
      hwf.functionOf?_of_contains hf ha']
  rw [Build.outcome_eq hs.plain, Build.outcome_eq hs.plain, hpartition]

/-- A store with a broken document, one that can be read, and no table for the addresses of the
index. -/
def Store.torn : Store where
  version := 2
  contents := some (Table.ofList [(16, "broken"), (40, "\x7b\x7d")])
  names := some ∅
  addresses := none
  runs := some []

/-- The torn store has no floats. -/
theorem Store.floatless_torn : Store.torn.Floatless := by
  intro f text v hdocument hparse
  have hmem : (f, text) ∈ [((16 : Address), "broken"), (40, "\x7b\x7d")] :=
    Table.find?_eq_some_iff.1 hdocument
  rcases List.mem_cons.1 hmem with h | h
  · cases h
    have hbroken : Json.parse? "broken" = none := by decide
    rw [hbroken] at hparse
    cases hparse
  · cases List.mem_singleton.1 h
    have hempty : Json.parse? "\x7b\x7d" = some (.object []) := by decide
    rw [hempty] at hparse
    cases hparse
    trivial

/-- Builds of the torn store may be made in another order and twice. -/
theorem builds_commute_torn :
    Snapshot.commented.check = .ok () ∧ Snapshot.commented.TagsFit ∧ Store.torn.Floatless ∧
    (Build.outcome .commented (Build.replay .commented .torn [.globals, .contents 41])
      (.contents 20)).1 = (Build.outcome .commented .torn (.contents 20)).1 ∧
    Build.replay .commented .torn [.contents 20, .globals, .contents 41]
      = Build.replay .commented .torn [.contents 41, .contents 41, .globals, .contents 20] ∧
    Build.outcome .commented .torn (.contents 41)
      = Build.outcome .commented .torn (.contents 40) := by
  have hfit : Snapshot.commented.TagsFit := by decide
  have hdb : Snapshot.commented.check = .ok () := rfl
  obtain ⟨hreply, hreplay, hsame⟩ := builds_commute hdb hfit Store.floatless_torn
  refine ⟨hdb, hfit, Store.floatless_torn, hreply _ _, hreplay _ _ fun b => ?_, ?_⟩
  · simp only [List.mem_cons, List.not_mem_nil, or_false]
    grind
  · exact hsame ⟨40, [⟨40, 48⟩], ∅⟩ (by decide) 41 40 (by decide) (by decide)

end TagCache
