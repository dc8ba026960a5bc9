import TagCache.Proofs.Session.Everything
import TagCache.Proofs.Session.Frame

/-!
# Recovery from any history

A full rebuild brings every store back that calls under the same snapshot have changed, whatever
they were, however often their output failed and whether they succeeded. No call touches a document
of another function (`Call.sameOutside_run`), the erasure removes all the rest
(`Store.cleared_eq_of_sameOutside`), and from there the rebuild cannot fail
(`Session.exists_reaches_everything`). The snapshot need not be well-formed.
-/

namespace TagCache

/-- A call on the cache. -/
inductive Call where
  | operate (operation : Operation)
  /-- Pull the erasure of the contents caches a number of times. -/
  | eraseContents (pulls : Nat)
  /-- Pull the erasure of the globals index a number of times. -/
  | eraseGlobals (pulls : Nat)
  | verifyIndex
  | verifyContents (address : Address)

/-- The erasure of the index is about the keys that the store has, and changes nothing yet. -/
theorem Session.outcome_globalsErasure (s : Store) (room : Option Nat) :
    outcome globalsErasure (.start s room)
      = (s.globalKeys.map (.ofKeys fun k => mutate (.removeGlobal k)), .start s room) := by
  unfold globalsErasure
  have hstore : (SessionState.start s room).store = s := rfl
  rw [outcome_bind, outcome_asks, hstore]
  cases s.globalKeys <;> rfl

namespace Call

/-- The store after a call under an output with the given room. -/
def run (db : Snapshot) (s : Store) (room : Option Nat) : Call → Store
  | .operate op => (Session.outcome (op.run db) (.start s room)).2.store
  | .eraseContents pulls =>
    (((Session.contentsErasure db).pull pulls).run (.start s room)).2.store
  | .eraseGlobals pulls =>
    match Session.outcome Session.globalsErasure (.start s room) with
    | (.ok e, st) => ((e.pull pulls).run st).2.store
    | (.error _, st) => st.store
  | .verifyIndex => (Session.outcome (Session.verifyIndex db) (.start s room)).2.store
  | .verifyContents a => (Session.outcome (Session.verifyContents db a) (.start s room)).2.store

/-- The store after calls in order, each with its own room. -/
def replay (db : Snapshot) (s : Store) (history : List (Call × Option Nat)) : Store :=
  history.foldl (fun s c => c.1.run db s c.2) s

variable {db : Snapshot} {s₀ s : Store}

/-- No call touches a document of a function that the snapshot does not name. -/
theorem sameOutside_run (h : Store.SameOutside db.foreign s₀ s) (room : Option Nat) (call : Call) :
    Store.SameOutside db.foreign s₀ (call.run db s room) := by
  cases call with
  | operate op => exact op.frames_run (.start s room) h
  | eraseContents pulls =>
    exact Erasure.sameOutside_pull pulls (fun f hf => Session.frames_removeContents hf) h
  | eraseGlobals pulls =>
    unfold run
    rw [Session.outcome_globalsErasure]
    cases s.globalKeys with
    | error e => exact h
    | ok keys => exact Erasure.sameOutside_pull pulls (fun k _ => Session.frames_removeGlobal k) h
  | verifyIndex => exact Session.frames_verifyIndex (.start s room) h
  | verifyContents a => exact Session.frames_verifyContents a (.start s room) h

/-- A history of calls leaves alone what the snapshot has no part in. -/
theorem sameOutside_replay (h : Store.SameOutside db.foreign s₀ s)
    (history : List (Call × Option Nat)) :
    Store.SameOutside db.foreign s₀ (replay db s history) := by
  induction history generalizing s with
  | nil => exact h
  | cons c history ih => exact ih (sameOutside_run h c.2 c.1)

end Call

namespace Store

variable {db : Snapshot} {s s' : Store}

/-- Stores with the same other documents are cleared to the same store. -/
theorem cleared_eq_of_sameOutside (h : SameOutside db.foreign s s') :
    s'.cleared db = s.cleared db := by
  have hconst {κ ν : Type} [Ord κ] {t t' : Option (Table κ ν)} (ht : t'.isSome = t.isSome) :
      t'.map (fun _ => (∅ : Table κ ν)) = t.map fun _ => ∅ := by
    cases t <;> cases t' <;> simp_all
  unfold cleared
  rw [h.contents, h.version, h.runs, hconst h.names, hconst h.addresses]

end Store

namespace Session

variable {db : Snapshot} {s : Store}

/-- From the cleared store on, a full rebuild succeeds. -/
theorem exists_reaches_everything (hdb : db.TagsFit) (hs : s.HasTables) :
    ∃ after, ∀ s', s'.HasTables → s'.cleared db = s.cleared db →
      Reaches (everything db) s' () after := by
  obtain ⟨r, c, n, t, rfl⟩ := hs.exists_eq
  have hlegible : ∀ f ∈ db.entries, Legible (c.filter fun f _ => db.foreign f) f := by
    intro f hf
    refine legible_of_find?_eq_none ?_
    rw [Table.find?_filter_key, Snapshot.foreign_eq_false_iff.2 hf]
    rfl
  obtain ⟨c', n', t', hall⟩ :=
    exists_reaches_all (s := r) (n := ∅) (t := ∅) hdb hlegible
  refine ⟨r.withTables c' n' t', fun s' hs' hcleared => ?_⟩
  obtain ⟨r', c₁, n₁, t₁, rfl⟩ := hs'.exists_eq
  refine (reaches_erase r' c₁ n₁ t₁ db).discard.bind ?_
  rw [hcleared]
  exact hall

end Session

/-- After any calls, whatever became of them, a full rebuild succeeds and leaves the same store as a
full rebuild at once. -/
theorem everything_recovers {db : Snapshot} {s : Store} (hdb : db.TagsFit) (hs : s.HasTables)
    (history : List (Call × Option Nat)) :
    ∃ after events events',
      Session.outcome (Session.everything db) (.start (Call.replay db s history) none)
        = (.ok (), ⟨after, none, events⟩) ∧
      Session.outcome (Session.everything db) (.start s none)
        = (.ok (), ⟨after, none, events'⟩) := by
  have hsame : Store.SameOutside db.foreign s (Call.replay db s history) :=
    Call.sameOutside_replay (.refl s) history
  obtain ⟨after, hafter⟩ := Session.exists_reaches_everything hdb hs
  obtain ⟨events, hrun⟩ := (hafter _ (hs.of_sameOutside hsame)
    (Store.cleared_eq_of_sameOutside hsame)).outcome_start
  obtain ⟨events', hrun'⟩ := (hafter s hs rfl).outcome_start
  exact ⟨after, events, events', hrun, hrun'⟩

/-- A whole rebuild of the sample ends the same after calls that were cut short. -/
theorem everything_recovers_stale :
    Snapshot.small.TagsFit ∧ Store.stale.HasTables ∧ ∃ after events events',
      Session.outcome (Session.everything .small)
          (.start (Call.replay .small .stale
            [(.operate .all, none), (.operate .erase, some 1), (.eraseGlobals 1, none)]) none)
        = (.ok (), ⟨after, none, events⟩) ∧
      Session.outcome (Session.everything .small) (.start .stale none)
        = (.ok (), ⟨after, none, events'⟩) :=
  ⟨by decide, Store.hasTables_stale, everything_recovers (by decide) Store.hasTables_stale _⟩

end TagCache
