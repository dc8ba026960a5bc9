import TagCache.Proofs.Session.Run
import TagCache.Proofs.Snapshot.WellFormed
import TagCache.Proofs.Store
import TagCache.Session.Erase

/-!
# Erasing under an output without a limit

A full erasure succeeds on every store with its three cache tables, whatever they hold, since no
document is read and a key that is gone counts as deleted (`Session.reaches_erase`). It leaves the
store without the documents of the snapshot's functions and without any key of the globals index
(`Store.cleared`).
-/

namespace TagCache

namespace Table

variable {κ ν : Type} [Ord κ] [Std.TransOrd κ] [Std.LawfulEqOrd κ] [BEq κ] [LawfulBEq κ]

/-- Erasing keys one by one leaves the bindings of the others. -/
theorem foldl_erase (l : List κ) (t : Table κ ν) :
    l.foldl erase t = t.filter fun k _ => !l.contains k := by
  refine ext_find? fun k => ?_
  rw [find?_filter_key]
  induction l generalizing t with
  | nil => simp
  | cons a l ih =>
    rw [List.foldl_cons, ih, List.contains_cons]
    by_cases h : k = a
    · subst h; simp
    · rw [find?_erase_of_ne t h]
      simp [h]

/-- A table whose keys are erased one after another is empty. -/
theorem foldl_erase_keys (t : Table κ ν) : t.keys.foldl erase t = ∅ := by
  refine ext_find? fun k => ?_
  rw [foldl_erase, find?_filter_key, find?_empty]
  split
  · next h => exact find?_eq_none_iff.2 (by simpa using h)
  · rfl

end Table

/-- The store after a full erasure. -/
def Store.cleared (db : Snapshot) (s : Store) : Store :=
  { s with
    contents := s.contents.map (·.filter fun f _ => db.foreign f)
    names := s.names.map fun _ => ∅
    addresses := s.addresses.map fun _ => ∅ }

namespace Erasure

open Session

variable {κ σ : Type} {remove : κ → Session Unit} {report : Nat → κ → Session Unit} {k : κ}
  {s s' : Store}

/-- A removal that makes one change succeeds whether the key is there or not, if the change of a key
that is not there is no change. -/
theorem reaches_removal {m : Mutation} {present : Bool} {p : CacheKey} (es : List Event)
    (hremove : ∀ before, outcome (remove k) ⟨s, none, before⟩
      = outcome (mutate m) ⟨s, none, before ++ es.toArray⟩)
    (happly : m.apply s = if present then (.ok (), s') else (.error (.entryMissing p), s))
    (habsent : present = false → s' = s) : Reaches (removal remove k) s () s' := by
  cases present with
  | true =>
    refine ⟨es ++ [.stored m], fun before => ?_⟩
    unfold removal
    rw [outcome_tryCatch, hremove, outcome_mutate, happly]
    simp [SessionState.note]
  | false =>
    rw [habsent rfl]
    refine ⟨es, fun before => ?_⟩
    unfold removal
    rw [outcome_tryCatch, hremove, outcome_mutate, happly]
    rfl

/-- A drain goes through the stores that the removals of its keys lead to. -/
theorem reaches_drainFrom (store : σ → Store) (step : σ → κ → σ)
    (hremove : ∀ x k, Reaches (removal remove k) (store x) () (store (step x k)))
    (hreport : ∀ i k s, Reaches (report i k) s () s) (keys : List κ) (x : σ) (i : Nat) :
    Reaches (drainFrom remove report i keys) (store x) () (store (keys.foldl step x)) := by
  induction keys generalizing x i with
  | nil => exact .pure
  | cons k keys ih => exact (hremove x k).bind ((hreport i k _).bind (ih (step x k) (i + 1)))

/-- A pull goes through the first of them. -/
theorem store_pull (store : σ → Store) (step : σ → κ → σ)
    (hremove : ∀ x k, Reaches (removal remove k) (store x) () (store (step x k))) (n total : Nat)
    (keys : List κ) (x : σ) (i : Nat) (before : Array Event) :
    ((pull n ⟨remove, total, i, keys⟩).run ⟨store x, none, before⟩).2.store
      = store ((keys.take n).foldl step x) := by
  induction n generalizing keys x i before with
  | zero => rfl
  | succ n ih =>
    cases keys with
    | nil => rfl
    | cons k keys =>
      have hstep : Reaches (do removal remove k; return (i, k)) (store x) (i, k)
          (store (step x k)) := (hremove x k).bind .pure
      obtain ⟨es, hrun⟩ := hstep
      show ((pull n ⟨remove, total, i + 1, keys⟩).run
        (outcome (do removal remove k; return (i, k)) ⟨store x, none, before⟩).2).2.store = _
      rw [hrun before]
      exact ih keys (step x k) (i + 1) _

end Erasure

namespace Session

open Erasure

variable (s : Store) (c : Table Address String) (n : Table String StoredCount)
  (a : Table Address StoredCount)

/-- Removing the document of a function erases its row, and is no failure where there is none. -/
theorem reaches_removal_contents (f : Address) :
    Reaches (removal (fun f => do visit f; mutate (.removeContents f)) f) (s.withTables c n a) ()
      (s.withTables (c.erase f) n a) := by
  refine reaches_removal [.visited f] (fun before => ?_) apply_removeContents fun h => ?_
  · rw [outcome_bind, outcome_visit]
    simp [SessionState.note]
  · rw [Table.erase_eq_self h]

/-- Erase a key of an index. -/
def eraseGlobal (t : Table String StoredCount × Table Address StoredCount) :
    GlobalKey → Table String StoredCount × Table Address StoredCount
  | .name k => (t.1.erase k, t.2)
  | .address k => (t.1, t.2.erase k)

/-- Removing a key of the index erases its row, and is no failure where there is none. -/
theorem reaches_removal_globals (k : GlobalKey) :
    Reaches (removal (fun k => mutate (.removeGlobal k)) k) (s.withTables c n a) ()
      (s.withTables c (eraseGlobal (n, a) k).1 (eraseGlobal (n, a) k).2) := by
  cases k with
  | name k =>
    refine reaches_removal [] (fun before => by simp) (apply_removeGlobal_name k) fun h => ?_
    rw [eraseGlobal, Table.erase_eq_self h]
  | address k =>
    refine reaches_removal [] (fun before => by simp) (apply_removeGlobal_address k) fun h => ?_
    rw [eraseGlobal, Table.erase_eq_self h]

/-- Erasing names leaves the addresses of the index. -/
theorem foldl_eraseGlobal_names (l : List String) :
    (l.map GlobalKey.name).foldl eraseGlobal (n, a) = (l.foldl Table.erase n, a) := by
  induction l generalizing n with
  | nil => rfl
  | cons k l ih => exact ih (n.erase k)

/-- Erasing addresses leaves the names of the index. -/
theorem foldl_eraseGlobal_addresses (l : List Address) :
    (l.map GlobalKey.address).foldl eraseGlobal (n, a) = (n, l.foldl Table.erase a) := by
  induction l generalizing a with
  | nil => rfl
  | cons k l ih => exact ih (a.erase k)

/-- Erasing every key of an index leaves nothing of it. -/
theorem foldl_eraseGlobal :
    (n.keys.map GlobalKey.name ++ a.keys.map GlobalKey.address).foldl eraseGlobal (n, a)
      = (∅, ∅) := by
  rw [List.foldl_append, foldl_eraseGlobal_names, Table.foldl_erase_keys,
    foldl_eraseGlobal_addresses, Table.foldl_erase_keys]

/-- The keys of the index are its names and behind them its addresses. -/
theorem globalKeys_withTables :
    (s.withTables c n a).globalKeys
      = .ok (n.keys.map GlobalKey.name ++ a.keys.map GlobalKey.address) := rfl

/-- The erasure of the index is about the keys that it has at the start. -/
theorem reaches_globalsErasure :
    Reaches globalsErasure (s.withTables c n a)
      (ofKeys (fun k => mutate (.removeGlobal k))
        (n.keys.map GlobalKey.name ++ a.keys.map GlobalKey.address)) (s.withTables c n a) :=
  (Reaches.asks (globalKeys_withTables s c n a)).bind .pure

/-- The erasure clears the store, and counts the functions and the keys of the index. -/
theorem reaches_erase (db : Snapshot) :
    Reaches (erase db) (s.withTables c n a)
      (db.entries.length + (n.keys.map GlobalKey.name ++ a.keys.map GlobalKey.address).length)
      ((s.withTables c n a).cleared db) := by
  have hcleared : (s.withTables c n a).cleared db
      = s.withTables (db.entries.foldl Table.erase c) ∅ ∅ := by
    rw [Table.foldl_erase]
    rfl
  rw [hcleared]
  refine (Reaches.asks (globalKeys_withTables s c n a)).bind ?_
  refine (reaches_drainFrom (fun c => s.withTables c n a) Table.erase
    (fun c f => reaches_removal_contents s c n a f) (fun i f s => Reaches.writeLine _)
    db.entries c 0).bind ?_
  refine (reaches_globalsErasure s _ n a).bind ?_
  refine (reaches_drainFrom (fun x => s.withTables (db.entries.foldl Table.erase c) x.1 x.2)
    eraseGlobal (fun x k => reaches_removal_globals s _ x.1 x.2 k)
    (fun i k s => Reaches.writeLine _)
    (n.keys.map GlobalKey.name ++ a.keys.map GlobalKey.address) (n, a) 0).bind ?_
  rw [foldl_eraseGlobal]
  exact (Reaches.log _ _).bind Reaches.pure

end Session

end TagCache
