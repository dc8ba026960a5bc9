import TagCache.Proofs.Store.Refinement

/-!
# Calls that fail

A call of the store that fails changes nothing, whatever the store holds and whichever of its tables
are there (`StoreCall.run_of_error`). A change is atomic by how it is put together
(`Mutation.atomic_apply`): it asks first, and what it writes in two steps it writes in one
transaction. The deletion of the index goes key by key and is in no transaction. It is atomic since
none of its steps fails: the keys that are listed are there, each once, and a deletion leaves the
others (`hasGlobal_foldl_eraseGlobal`).
-/

namespace TagCache

open Session (eraseGlobal)

/-! ## Deletions -/

namespace StoreM.Atomic

variable {α β : Type}

/-- What fails after a success would undo nothing, so only what cannot fail may follow. -/
theorem bind_pure {x : StoreM α} (hx : Atomic x) (g : α → β) :
    Atomic (x >>= fun a => pure (g a)) := by
  intro s e s' h
  rw [bind_apply] at h
  rcases hrun : x s with ⟨e' | a, s₁⟩
  · rw [hrun] at h
    cases h
    exact hx s e s' hrun
  · rw [hrun] at h
    cases h

/-- A failure that is handled left the store as it was, and so does the handler. -/
theorem tryCatch {x : StoreM α} {handler : Failure → StoreM α} (hx : Atomic x)
    (hh : ∀ e, Atomic (handler e)) : Atomic (MonadExcept.tryCatch x handler) := by
  intro s e s' h
  have hcatch : MonadExcept.tryCatch x handler s = _ := tryCatch_apply x handler s
  rw [hcatch] at h
  rcases hrun : x s with ⟨e' | a, s₁⟩
  · rw [hrun] at h
    rw [hx s e' s₁ hrun] at h
    exact hh e' s e s' h
  · rw [hrun] at h
    cases h

end StoreM.Atomic

/-- Erasing keys leaves every other one. -/
theorem hasGlobal_foldl_eraseGlobal {x : Table String StoredCount × Table Address StoredCount}
    {keys : List GlobalKey} {k : GlobalKey} (hk : k ∉ keys) (hx : Store.hasGlobal x k = true) :
    Store.hasGlobal (keys.foldl eraseGlobal x) k = true := by
  induction keys generalizing x with
  | nil => exact hx
  | cons k' keys ih =>
    obtain ⟨hne, hk⟩ := not_or.1 (mt List.mem_cons.2 hk)
    exact ih hk (hasGlobal_eraseGlobal hne hx)

namespace Store

variable {s : Store} {keys : List GlobalKey}

/-- The keys of the index are listed where both of its tables are there. -/
theorem exists_eq_withIndex (h : s.globalKeys = .ok keys) :
    ∃ (r : Store) (x : _), s = r.withIndex x ∧ keys = globalKeysOf x := by
  unfold globalKeys at h
  cases hn : s.names with
  | none =>
    rw [hn] at h
    cases h
  | some n =>
    cases ha : s.addresses with
    | none =>
      rw [hn, ha] at h
      cases h
    | some a =>
      rw [hn, ha] at h
      cases h
      exact ⟨s, (n, a), by rw [withIndex, ← hn, ← ha], rfl⟩

/-- The index is deleted where its keys are listed. -/
theorem deleteAll_globals_of_globalKeys (h : s.globalKeys = .ok keys) :
    StoreM.deleteAll .globals s
      = (.ok keys.length, { s with names := some ∅, addresses := some ∅ }) := by
  obtain ⟨r, x, rfl, rfl⟩ := exists_eq_withIndex h
  rw [deleteAll_globals_withIndex, length_globalKeysOf]
  rfl

/-- Nothing is deleted where they are not. -/
theorem deleteAll_globals_of_error {e : Failure} (h : s.globalKeys = .error e) :
    StoreM.deleteAll .globals s = (.error e, s) := by
  rw [StoreM.deleteAll, StoreM.bind_apply, StoreM.asks_apply, h]

/-- Each key that is listed can be deleted once those before it are. -/
theorem exists_removeGlobal (h : s.globalKeys = .ok keys) {deleted rest : List GlobalKey}
    {k : GlobalKey} (hkeys : keys = deleted ++ k :: rest) :
    ∃ s₁ s₂, deleted.forM StoreM.removeGlobal s = (.ok (), s₁) ∧
      StoreM.removeGlobal k s₁ = (.ok (), s₂) := by
  obtain ⟨r, x, rfl, rfl⟩ := exists_eq_withIndex h
  have hthere (k' : GlobalKey) (hk' : k' ∈ deleted ++ k :: rest) : hasGlobal x k' = true :=
    hasGlobal_of_mem_globalKeysOf (hkeys ▸ hk')
  obtain ⟨hdeleted, -, hdistinct⟩ := List.nodup_append.1 (hkeys ▸ nodup_globalKeysOf x)
  have hk : k ∉ deleted := fun hk => hdistinct k hk k List.mem_cons_self rfl
  have hleft : hasGlobal (deleted.foldl eraseGlobal x) k = true :=
    hasGlobal_foldl_eraseGlobal hk (hthere k (List.mem_append_right _ List.mem_cons_self))
  exact ⟨_, _, forM_removeGlobal hdeleted fun k' hk' => hthere k' (List.mem_append_left _ hk'),
    removeGlobal_withIndex hleft⟩

end Store

/-- Deleting a partition deletes all of it or nothing. -/
theorem StoreM.atomic_deleteAll (p : Partition) : Atomic (deleteAll p) := by
  cases p with
  | contents f =>
    refine .tryCatch ((Atomic.removeContents f).bind_pure fun _ => 1) fun e => ?_
    split
    · exact fun _ _ _ h => nomatch h
    · exact .throw _
  | globals =>
    intro s e s' h
    cases hkeys : s.globalKeys with
    | error e' =>
      rw [Store.deleteAll_globals_of_error hkeys] at h
      exact (Prod.mk.inj h).2.symm
    | ok keys =>
      rw [Store.deleteAll_globals_of_globalKeys hkeys] at h
      cases h

/-! ## Calls -/

/-- A call that fails leaves the store as it was. -/
theorem StoreCall.run_of_error {call : StoreCall} {s s' : Store} {e : Failure}
    (h : call.run s = (.error e, s')) : s' = s := by
  have hresult {α : Type} {x : StoreM α} (hx : StoreM.Atomic x) {g : α → Option Nat}
      (h : ((x s).1.map g, (x s).2) = ((.error e : Reply), s')) : s' = s := by
    rcases hrun : x s with ⟨e' | a, s₁⟩
    · rw [hrun] at h
      rw [← (Prod.mk.inj h).2]
      exact hx s e' s₁ hrun
    · rw [hrun] at h
      cases h
  cases call with
  | change m => exact hresult m.atomic_apply h
  | deleteAll p => exact hresult (StoreM.atomic_deleteAll p) h

/-- Whatever the store holds, a call that fails leaves it exactly as it was. So an increment of the
index raises no name where the table of addresses is missing, though the name alone could be raised.
The index is deleted key by key, and that fails only if the keys cannot be listed: otherwise each of
them is deleted once those before it are. -/
theorem failed_calls_change_nothing (s : Store) :
    (∀ call e s', StoreCall.run call s = (.error e, s') → s' = s) ∧
    (∀ a name n, s.names = some n → s.addresses = none →
      StoreM.updateNames (StoreM.raise name) s
        = (.ok (), { s with names := some (StoreM.raise name n) }) ∧
      StoreCall.run (.change (.increment .globals a name)) s = (.error .storage, s)) ∧
    (∀ e, s.globalKeys = .error e → StoreCall.run (.deleteAll .globals) s = (.error e, s)) ∧
    ∀ keys, s.globalKeys = .ok keys →
      StoreCall.run (.deleteAll .globals) s
        = (.ok (some keys.length), { s with names := some ∅, addresses := some ∅ }) ∧
      ∀ deleted k rest, keys = deleted ++ k :: rest →
        ∃ s₁ s₂, deleted.forM StoreM.removeGlobal s = (.ok (), s₁) ∧
          StoreM.removeGlobal k s₁ = (.ok (), s₂) := by
  refine ⟨fun call e s' h => call.run_of_error h, fun a name n hn ha => ?_, fun e he => ?_,
    fun keys hkeys => ⟨?_, fun deleted k rest => Store.exists_removeGlobal hkeys⟩⟩
  · have hnames : StoreM.updateNames (StoreM.raise name) s
        = (.ok (), { s with names := some (StoreM.raise name n) }) := by
      rw [StoreM.updateNames, StoreM.bind_apply, StoreM.asks_apply, hn]
      rfl
    refine ⟨hnames, ?_⟩
    -- the names are raised before the addresses are missed, and the transaction takes that back
    have hrun : Mutation.apply (.increment .globals a name) s = (.error .storage, s) := by
      rw [Mutation.apply, StoreM.transaction, StoreM.bind_apply, hnames]
      dsimp only
      rw [StoreM.updateAddresses, StoreM.bind_apply, StoreM.asks_apply, ha]
      rfl
    rw [StoreCall.run, hrun]
    rfl
  · rw [StoreCall.run, Store.deleteAll_globals_of_error he]
    rfl
  · rw [StoreCall.run, Store.deleteAll_globals_of_globalKeys hkeys]
    rfl

/-- A store with an unreadable document, with a count that is a real number, and without its table
of addresses. -/
def Store.halfIndexed : Store where
  version := 2
  contents := some (Table.ofList [(16, "unreadable")])
  names := some (Table.ofList [("broken", .real), ("kept", .whole 3)])
  addresses := none
  runs := none

/-- Calls that fail in the sample for several reasons leave it as it is. -/
theorem failed_calls_change_nothing_halfIndexed :
    StoreCall.run (.change (.setNames (.contents 16) ∅)) Store.halfIndexed
      = (.error .json, Store.halfIndexed) ∧
    StoreCall.run (.change (.increment .globals 16 "kept")) Store.halfIndexed
      = (.error .storage, Store.halfIndexed) ∧
    StoreCall.run (.deleteAll .globals) Store.halfIndexed = (.error .storage, Store.halfIndexed) ∧
    StoreCall.run (.deleteAll .globals) { Store.halfIndexed with addresses := some ∅ }
      = (.ok (some 2),
        { Store.halfIndexed with names := some ∅, addresses := some ∅ }) := by
  obtain ⟨hfailed, hincrement, hunlisted, -⟩ := failed_calls_change_nothing Store.halfIndexed
  obtain ⟨-, -, -, hlisted⟩ :=
    failed_calls_change_nothing { Store.halfIndexed with addresses := some ∅ }
  have hread : (StoreCall.run (.change (.setNames (.contents 16) ∅)) Store.halfIndexed).1
      = .error .json := by decide +kernel
  exact ⟨Prod.ext hread (hfailed _ _ _ (Prod.ext hread rfl)), (hincrement 16 "kept" _ rfl rfl).2,
    hunlisted _ rfl, (hlisted [.name "broken", .name "kept"] rfl).1⟩

end TagCache
