import TagCache.Proofs.Session.Limit
import TagCache.Proofs.Store.Refinement

/-!
# The protocol of an erasure

An erasure that is pulled a number of times gives as many of its keys, in order and each with its
position, whether it was stored or not, and deletes exactly those (`Erasure.Pulled`). This holds of
any list of keys whose removal deletes the key if it is there (`Erasure.pulled`), so of the
functions of a snapshot, also where several have one entry point, and of the keys of the index. The
erasure of everything is that of all functions and then that of the index, and writes a line for
each key with its position among all of them (`Session.writes_erase`).
-/

namespace TagCache

open Text (SingleLine)

/-! ## Deleted keys -/

namespace Store

variable {s : Store}

/-- A store without a key has its tables. -/
theorem HasTables.without (hs : s.HasTables) (k : CacheKey) : (s.without k).HasTables := by
  obtain ⟨hcontents, hnames, haddresses⟩ := hs
  cases k with
  | contents f => exact ⟨by simpa [Store.without] using hcontents, hnames, haddresses⟩
  | global k =>
    cases k with
    | name k => exact ⟨hcontents, by simpa [Store.without] using hnames, haddresses⟩
    | address a => exact ⟨hcontents, hnames, by simpa [Store.without] using haddresses⟩

/-- A store without several keys has its tables. -/
theorem HasTables.foldl_without (hs : s.HasTables) (ks : List CacheKey) :
    (ks.foldl Store.without s).HasTables := by
  induction ks generalizing s with
  | nil => exact hs
  | cons k ks ih => exact ih (hs.without k)

/-- Deleting documents of functions leaves the others, and the index. -/
theorem foldl_without_functions (s : Store) (fs : List Address) :
    (fs.map CacheKey.contents).foldl without s
      = { s with contents := s.contents.map fun c => fs.foldl Table.erase c } := by
  induction fs generalizing s with
  | nil => cases s with | mk v c n a r => cases c <;> rfl
  | cons f fs ih =>
    rw [List.map_cons, List.foldl_cons, ih]
    cases s with | mk v c n a r => cases c <;> rfl

end Store

namespace Session

variable {α β : Type} {s s' s'' : Store}

/-- Removing a function's document reaches the store without it. -/
theorem reaches_removal_function (hs : s.HasTables) (f : Address) :
    Reaches (Erasure.removal (fun f => do visit f; mutate (.removeContents f)) f) s ()
      (s.without (.contents f)) := by
  obtain ⟨r, c, n, a, rfl⟩ := hs.exists_eq
  exact reaches_removal_contents r c n a f

/-- Removing a key of the index reaches the store without it. -/
theorem reaches_removal_global (hs : s.HasTables) (k : GlobalKey) :
    Reaches (Erasure.removal (fun k => mutate (.removeGlobal k)) k) s ()
      (s.without (.global k)) := by
  obtain ⟨r, c, n, a, rfl⟩ := hs.exists_eq
  cases k with
  | name k => exact reaches_removal_globals r c n a (.name k)
  | address b => exact reaches_removal_globals r c n a (.address b)

end Session

/-! ## Pulls -/

namespace Erasure

open Session

variable {κ : Type}

/-- What pulling an erasure of keys `n` times comes to: what it gives, the erasure that is left, and
the state after it. -/
structure Pulled (keys : List κ) (target : κ → CacheKey) (before : Store) (n : Nat)
    (r : (List (Except Failure (Nat × κ)) × Erasure κ) × SessionState) : Prop where
  /-- The first keys are given, each with its position, whether they were stored or not. -/
  items : r.1.1 = (keys.take n).zipIdx.map fun k => .ok (k.2, k.1)
  total : r.1.2.total = keys.length
  sizeHint : r.1.2.sizeHint
    = (keys.length - min n keys.length, some (keys.length - min n keys.length))
  /-- The given keys are deleted, and nothing else. -/
  store : r.2.store = ((keys.take n).map target).foldl Store.without before

/-- A pull deletes the next key, and goes on with the others. -/
theorem run_pull_cons (remove : κ → Session Unit) (total index n : Nat) (k : κ) (keys : List κ)
    (st : SessionState) :
    (pull (n + 1) ⟨remove, total, index, k :: keys⟩).run st
      = let item := outcome (do removal remove k; return (index, k)) st
        let rest := (pull n ⟨remove, total, index + 1, keys⟩).run item.2
        ((item.1 :: rest.1.1, rest.1.2), rest.2) := rfl

section
variable {remove : κ → Session Unit} {target : κ → CacheKey} (hsilent : ∀ k, Silent (remove k))
  (hremove : ∀ {s : Store}, s.HasTables → ∀ k,
    Reaches (removal remove k) s () (s.without (target k)))
include hsilent hremove

/-- Pulls from a position on. -/
theorem pull_from (n total index : Nat) (keys : List κ) {s : Store} (hs : s.HasTables)
    (room : Option Nat) (before : Array Event) :
    ∃ after, (pull n ⟨remove, total, index, keys⟩).run ⟨s, room, before⟩
      = ((((keys.take n).zipIdx index).map fun k => .ok (k.2, k.1),
          ⟨remove, total, index + min n keys.length, keys.drop n⟩),
        ⟨((keys.take n).map target).foldl Store.without s, room, after⟩) := by
  induction n generalizing index keys s before with
  | zero => exact ⟨before, by simp [pull]; rfl⟩
  | succ n ih =>
    cases keys with
    | nil => exact ⟨before, rfl⟩
    | cons k keys =>
      obtain ⟨after, hstep⟩ := (hremove hs k).outcome_of_silent
        (sequential_silent.removal (hsilent k)) room before
      have hitem : outcome (do removal remove k; return (index, k)) ⟨s, room, before⟩
          = (.ok (index, k), ⟨s.without (target k), room, after⟩) := by
        rw [outcome_bind, hstep]
        rfl
      obtain ⟨after', hrest⟩ := ih (index + 1) keys (hs.without (target k)) after
      have hindex : index + 1 + min n keys.length = index + min (n + 1) (k :: keys).length := by
        rw [List.length_cons]
        omega
      refine ⟨after', ?_⟩
      rw [run_pull_cons, hitem]
      simp only
      rw [hrest, hindex]
      rfl

/-- Pulling an erasure of a list of keys, under any output and whatever happened before. -/
theorem pulled (keys : List κ) {s : Store} (hs : s.HasTables) (n : Nat) (room : Option Nat)
    (before : Array Event) :
    Pulled keys target s n ((pull n (ofKeys remove keys)).run ⟨s, room, before⟩) := by
  obtain ⟨after, hrun⟩ := pull_from hsilent hremove n keys.length 0 keys hs room before
  have hofKeys : ofKeys remove keys = ⟨remove, keys.length, 0, keys⟩ := rfl
  rw [hofKeys, hrun]
  have hleft : (keys.drop n).length = keys.length - min n keys.length := by
    rw [List.length_drop]
    omega
  refine ⟨rfl, rfl, ?_, rfl⟩
  rw [sizeHint, hleft]

end

end Erasure

namespace Session

open Erasure

variable {α : Type} {s s' : Store} {a : α} {ls : List String}

/-! ## Lines of runs -/

/-- A run that takes no room of the output writes no line. -/
theorem Reaches.writes_of_silent {x : Session α} (h : Reaches x s a s') (hscripted : Scripted x)
    (hsilent : Silent x) : Writes x s a s' [] := by
  obtain ⟨es, hruns⟩ := id h
  obtain ⟨fs, r, s₁, hfs, hscript⟩ := hscripted s
  have hfree : outcome x ⟨s, none, #[]⟩ = (r, ⟨s₁, none, #[] ++ fs.toArray⟩) := by
    rw [hscript, outcome_bind, outcome_performAll_fits none hfs (by simp)]
    simp
  have hes : es = fs := by
    rw [hruns #[]] at hfree
    simpa using (SessionState.mk.inj (Prod.mk.inj hfree).2).2.2
  subst hes
  obtain ⟨after, hlimited⟩ := h.outcome_of_silent hsilent (some (Event.lineCount es)) #[]
  rw [hscript, outcome_bind, outcome_performAll_fits (some _) hfs (by simp)] at hlimited
  simp only [Option.map_some, Nat.sub_self, outcome_ofExcept] at hlimited
  have hcount : some 0 = some (Event.lineCount es) :=
    (SessionState.mk.inj (Prod.mk.inj hlimited).2).2.1
  exact ⟨es, hruns, List.length_eq_zero_iff.1 (Option.some.inj hcount).symm⟩

/-- An output with room for the lines of a run lets it through. -/
theorem Writes.outcome_room {x : Session α} (h : Writes x s a s' ls) (hscripted : Scripted x)
    {room : Option Nat} (hroom : ∀ n ∈ room, ls.length ≤ n) :
    (outcome x (.start s room)).1 = .ok a ∧ (outcome x (.start s room)).2.lines = ls ∧
      (outcome x (.start s room)).2.store = s' := by
  obtain ⟨hfree, hlines⟩ := h.outcome_start
  have hstore : (outcome x (.start s none)).2.store = s' := h.reaches.store
  cases room with
  | none => exact ⟨hfree, hlines, hstore⟩
  | some n =>
    obtain ⟨hresult, hsame, hafter⟩ :=
      (hscripted.cutAt s n).whole (by rw [hlines]; exact hroom n rfl)
    rw [hresult, hsame, hafter]
    exact ⟨hfree, hlines, hstore⟩

end Session

/-! ## Erasing everything -/

/-- The line that reports a deleted key, given its number among all deleted keys. -/
def CacheKey.report (number total : Nat) : CacheKey → String
  | .contents f =>
    "removing the cache for function " ++ f.text ++ " : " ++ Session.progress number total
  | .global k =>
    "removing the global " ++ k.text ++ " from the index : " ++ Session.progress number total

/-- The report of a key is one line. -/
theorem CacheKey.singleLine_report (number total : Nat) (k : CacheKey) :
    SingleLine (k.report number total) := by
  cases k with
  | contents f =>
    exact .append (.append (.append .literal f.singleLine_text) .literal)
      (Session.singleLine_progress _ _)
  | global k =>
    exact .append (.append (.append .literal k.singleLine_text) .literal)
      (Session.singleLine_progress _ _)

namespace Session

open Erasure

variable {κ : Type} {s : Store} {db : Snapshot}

/-- A drain deletes its keys, and writes a line for each one. -/
theorem writes_drainFrom {remove : κ → Session Unit} {target : κ → CacheKey}
    (hscripted : ∀ k, Scripted (remove k)) (hsilent : ∀ k, Silent (remove k))
    (hremove : ∀ {s : Store}, s.HasTables → ∀ k,
      Reaches (removal remove k) s () (s.without (target k)))
    (start total index : Nat) (keys : List κ) (hs : s.HasTables) :
    Writes (drainFrom remove (fun i k => writeLine ((target k).report (start + i) total)) index
        keys) s () ((keys.map target).foldl Store.without s)
      (((keys.map target).zipIdx (start + index)).map fun k => k.1.report k.2 total) := by
  induction keys generalizing index s with
  | nil => exact .pure
  | cons k keys ih =>
    have hfirst := (hremove hs k).writes_of_silent (compositional_scripted.removal (hscripted k))
      (sequential_silent.removal (hsilent k))
    have hreport := CacheKey.singleLine_report (start + index) total (target k)
    exact hfirst.bind_wordless
      ((Writes.writeLine_of_singleLine hreport).bind (ih (index + 1) (hs.without _)))

/-- The erasure follows a script. -/
theorem scripted_erase (db : Snapshot) : Scripted (erase db) :=
  compositional_scripted.erase (fun _ _ => Scripted.mutate _) fun _ => Scripted.mutate _

/-- The erasure of everything deletes the functions and then the index, whose keys are those that
were there before the first deletion. -/
theorem writes_erase (db : Snapshot) (hs : s.HasTables) {keys : List GlobalKey}
    (hkeys : s.globalKeys = .ok keys) :
    Writes (erase db) s (db.targets keys).length ((db.targets keys).foldl Store.without s)
      (((db.targets keys).zipIdx 1).map fun k => k.1.report k.2 (db.targets keys).length) := by
  have htotal : (contentsErasure db).total + keys.length = (db.targets keys).length := by
    simp [contentsErasure, ofKeys, Snapshot.targets]
  have hcontents := writes_drainFrom (fun f => compositional_scripted.removeContents
      (Scripted.mutate (.removeContents f)))
    (fun f => sequential_silent.removeContents (Silent.mutate (.removeContents f)))
    reaches_removal_function 1 (db.targets keys).length 0 db.entries hs
  have hs' : ((db.entries.map CacheKey.contents).foldl Store.without s).HasTables :=
    hs.foldl_without _
  have hkeys' : ((db.entries.map CacheKey.contents).foldl Store.without s).globalKeys
      = .ok keys := by
    rw [Store.foldl_without_functions]
    exact hkeys
  have hglobals := writes_drainFrom (fun k => Scripted.mutate (.removeGlobal k))
    (fun k => Silent.mutate (.removeGlobal k)) reaches_removal_global (1 + db.entries.length)
    (db.targets keys).length 0 keys hs'
  have hlines : (db.targets keys).zipIdx 1 = (db.entries.map CacheKey.contents).zipIdx (1 + 0)
      ++ (keys.map CacheKey.global).zipIdx (1 + db.entries.length + 0) := by
    rw [Snapshot.targets, List.zipIdx_append, List.length_map]
    rfl
  have hstore : (db.targets keys).foldl Store.without s = (keys.map CacheKey.global).foldl
      Store.without ((db.entries.map CacheKey.contents).foldl Store.without s) :=
    List.foldl_append
  have hread : Writes globalsErasure ((db.entries.map CacheKey.contents).foldl Store.without s)
      (ofKeys (fun k => mutate (.removeGlobal k)) keys)
      ((db.entries.map CacheKey.contents).foldl Store.without s) [] :=
    (Writes.asks hkeys').bind .pure
  rw [hlines, hstore, List.map_append]
  unfold erase
  refine (Writes.asks hkeys).bind_wordless ?_
  simp only [htotal]
  refine hcontents.bind (hread.bind_wordless ?_)
  exact hglobals.then_wordless ((Writes.log _ _).bind .pure)

end Session

/-- The keys of an index in the order in which they are erased: the names that it has in order, then
its addresses ascending. -/
structure Store.IndexKeys (s : Store) (names : List String) (addresses : List Address) : Prop where
  names_ascending : names.Pairwise (· < ·)
  addresses_ascending : addresses.Pairwise (· < ·)
  mem_names_iff : ∀ k, k ∈ names ↔ (s.nameCount? k).isSome
  mem_addresses_iff : ∀ a, a ∈ addresses ↔ (s.addressCount? a).isSome

/-- A store with its tables lists the keys of its index. -/
theorem Store.exists_indexKeys {s : Store} (hs : s.HasTables) : ∃ names addresses,
    s.IndexKeys names addresses ∧
      s.globalKeys = .ok (names.map .name ++ addresses.map .address) := by
  obtain ⟨s, c, n, a, rfl⟩ := hs.exists_eq
  refine ⟨n.keys, a.keys, ⟨?_, ?_, fun k => ?_, fun k => ?_⟩, rfl⟩
  · exact n.pairwise_keys.imp fun hlt => compareOfLessAndEq_eq_lt.1 hlt
  · exact a.pairwise_keys.imp fun hlt => compareOfLessAndEq_eq_lt.1 hlt
  · rw [Table.mem_keys_iff_contains, Table.contains_eq]
    rfl
  · rw [Table.mem_keys_iff_contains, Table.contains_eq]
    rfl

/-- Erasing all functions leaves the documents of entry points that no function has. -/
theorem Store.foldl_without_entries (db : Snapshot) (s : Store) :
    (db.entries.map CacheKey.contents).foldl Store.without s
      = { s with contents := s.contents.map (·.filter fun f _ => db.foreign f) } := by
  rw [foldl_without_functions]
  have herase (c : Table Address String) :
      db.entries.foldl Table.erase c = c.filter fun f _ => db.foreign f := Table.foldl_erase _ c
  simp only [herase]

/-- Erasing every key of the index leaves nothing of it, as deleting it does. -/
theorem Store.deleteAll_globals {s : Store} (hs : s.HasTables) {keys : List GlobalKey}
    (hkeys : s.globalKeys = .ok keys) :
    StoreM.deleteAll .globals s
      = (.ok keys.length, (keys.map CacheKey.global).foldl Store.without s) ∧
    (keys.map CacheKey.global).foldl Store.without s
      = { s with names := some ∅, addresses := some ∅ } := by
  obtain ⟨s, c, n, a, rfl⟩ := hs.exists_eq
  rw [Session.globalKeys_withTables] at hkeys
  cases hkeys
  have hlength : (n.keys.map GlobalKey.name ++ a.keys.map GlobalKey.address).length
      = n.size + a.size := by
    simp
  rw [deleteAll_globals_withTables, Store.foldl_without_global, Session.foldl_eraseGlobal, hlength]
  exact ⟨rfl, rfl⟩

open Session

/-- The functions are erased in ascending order, also where several have one entry point, and the
keys of the index in theirs. Pulling either erasure any number of times, under any output and
whatever happened before, gives its first keys with their positions and deletes them, whether they
are stored or not. All of them are the documents of the functions, and everything in the index. The
erasure of everything deletes the former and then the latter, under an output with room for a line
for each of them, and writes that line. -/
theorem erasures_delete_targets (db : Snapshot) {s : Store} (hs : s.HasTables) :
    db.entries.Perm (db.functions.map (·.entry)) ∧ db.entries.Pairwise (· ≤ ·) ∧
    (∀ n room before, Erasure.Pulled db.entries .contents s n
      ((Erasure.pull n (contentsErasure db)).run ⟨s, room, before⟩)) ∧
    (db.entries.map CacheKey.contents).foldl Store.without s
      = { s with contents := s.contents.map (·.filter fun f _ => db.foreign f) } ∧
    ∃ names addresses, s.IndexKeys names addresses ∧
      let keys := names.map GlobalKey.name ++ addresses.map GlobalKey.address
      let total := db.functions.length + keys.length
      s.globalKeys = .ok keys ∧
      (∀ room before, ∃ e, outcome globalsErasure ⟨s, room, before⟩ = (.ok e, ⟨s, room, before⟩) ∧
        ∀ n, Erasure.Pulled keys .global s n ((Erasure.pull n e).run ⟨s, room, before⟩)) ∧
      StoreM.deleteAll .globals s
        = (.ok keys.length, (keys.map CacheKey.global).foldl Store.without s) ∧
      (keys.map CacheKey.global).foldl Store.without s
        = { s with names := some ∅, addresses := some ∅ } ∧
      ∀ room : Option Nat, (∀ n ∈ room, total ≤ n) →
        let erased := outcome (erase db) (.start s room)
        erased.1 = .ok total ∧
        erased.2.lines = ((db.targets keys).zipIdx 1).map (fun k => k.1.report k.2 total) ∧
        erased.2.store = (db.targets keys).foldl Store.without s := by
  obtain ⟨names, addresses, hindex, hkeys⟩ := Store.exists_indexKeys hs
  obtain ⟨hdelete, hempty⟩ := Store.deleteAll_globals hs hkeys
  refine ⟨Snapshot.entries_perm, ?_, fun n room before => ?_, Store.foldl_without_entries db s,
    names, addresses, hindex, hkeys, fun room before => ?_, hdelete, hempty, ?_⟩
  · exact ascending_pairwise _
  · exact Erasure.pulled
      (fun f => sequential_silent.removeContents (Silent.mutate (.removeContents f)))
      reaches_removal_function db.entries hs n room before
  · refine ⟨Erasure.ofKeys (fun k => mutate (.removeGlobal k)) (names.map .name ++ addresses.map
      .address), ?_, fun n => ?_⟩
    · rw [globalsErasure, outcome_bind, outcome_asks, hkeys]
      rfl
    · exact Erasure.pulled (fun k => Silent.mutate (.removeGlobal k)) reaches_removal_global _ hs n
        room before
  · have htotal : (db.targets (names.map .name ++ addresses.map .address)).length
        = db.functions.length + (names.map GlobalKey.name
          ++ addresses.map GlobalKey.address).length := by
      rw [Snapshot.targets, List.length_append, List.length_map, List.length_map,
        Snapshot.entries_perm.length_eq, List.length_map]
    intro room hroom
    have hwrites := writes_erase db hs hkeys
    rw [htotal] at hwrites
    -- each target has one line, so room for as many lines is room enough
    refine hwrites.outcome_room (scripted_erase db) fun n hn => ?_
    rw [List.length_map, List.length_zipIdx, htotal]
    exact hroom n hn

/-- A snapshot with two functions of one entry point. -/
def Snapshot.twin : Snapshot :=
  ((Snapshot.empty 0 64).withFunction 16 40 48).withFunction 16 16 32

/-- Erasures of the sample delete what they are about, pulled in part or cut short. -/
theorem erasures_delete_targets_twin :
    Store.stale.HasTables ∧
    (Erasure.Pulled Snapshot.twin.entries .contents .stale 2
      ((Erasure.pull 2 (contentsErasure .twin)).run (.start .stale (some 0)))) ∧
    let erased := outcome (erase .twin) (.start .stale (some 3))
    erased.1 = .ok 3 ∧
    erased.2.lines = [
      "removing the cache for function 0x10 : 1 of 3",
      "removing the cache for function 0x10 : 2 of 3",
      "removing the global tagname \"stale\" from the index : 3 of 3"] ∧
    erased.2.store = (Snapshot.twin.targets [.name "stale"]).foldl Store.without .stale := by
  obtain ⟨-, -, hpulled, -, names, addresses, -, hkeys, -, -, -, herase⟩ :=
    erasures_delete_targets .twin Store.hasTables_stale
  have hnames : [GlobalKey.name "stale"] = names.map .name ++ addresses.map .address :=
    Except.ok.inj hkeys
  rw [← hnames] at herase
  obtain ⟨hresult, hlines, hstore⟩ := herase (some 3) (by decide)
  exact ⟨Store.hasTables_stale, hpulled 2 (some 0) #[], hresult,
    hlines.trans (by decide +kernel), hstore⟩

end TagCache
