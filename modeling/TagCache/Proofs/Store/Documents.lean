import TagCache.Proofs.Store
import TagCache.Proofs.Store.Ledger

/-!
# Documents apart from the index

A call of the store is about the document of one function or about the index
(`StoreCall.partition`). One about a document reads and writes the documents alone
(`StoreM.OnDocuments`), by how its actions are put together, and one about the index leaves the
documents as they are (`StoreCall.contents_run`). So among calls of both kinds those about documents
do and reply what they would without the others (`replay_documents`), and what they make of the
index is nothing (`StoreCall.run_document`).
-/

namespace TagCache

/-- The partition that a call is about. -/
def StoreCall.partition : StoreCall → Partition
  | .change (.setNames p _) => p
  | .change (.setAddresses p _) => p
  | .change (.increment p _ _) => p
  | .change (.removeContents f) => .contents f
  | .change (.removeGlobal _) => .globals
  | .deleteAll p => p

/-- The call is about a document. -/
def StoreCall.isOnDocument (call : StoreCall) : Bool := call.partition ≠ .globals

/-! ## Actions on documents -/

namespace StoreM

/-- The action reads and writes the documents alone. -/
structure OnDocuments {α : Type} (x : StoreM α) : Prop where
  /-- It leaves everything else as it is. -/
  frame : ∀ s, (x s).2 = { s with contents := (x s).2.contents }
  /-- It does the same wherever the documents are the same. -/
  agree : ∀ s s', s'.contents = s.contents →
    (x s').1 = (x s).1 ∧ (x s').2.contents = (x s).2.contents

namespace OnDocuments

variable {α β : Type}

/-- What leaves everything but the documents alone does so twice in a row. -/
theorem frame_trans {s s₁ s₂ : Store} (h : s₁ = { s with contents := s₁.contents })
    (h' : s₂ = { s₁ with contents := s₂.contents }) : s₂ = { s with contents := s₂.contents } := by
  have hframe (c : Option (Table Address String)) :
      { s₁ with contents := c } = { s with contents := c } := by rw [h]
  exact h'.trans (hframe _)

/-- Giving a value touches nothing. -/
theorem pure (a : α) : OnDocuments (Pure.pure a : StoreM α) := ⟨fun _ => rfl, fun _ _ h => ⟨rfl, h⟩⟩

/-- A failure touches nothing. -/
theorem throw (e : Failure) : OnDocuments (throw e : StoreM α) :=
  ⟨fun _ => rfl, fun _ _ h => ⟨rfl, h⟩⟩

/-- A question that only the documents answer is about the documents. -/
theorem asks {g : Store → Except Failure α}
    (hg : ∀ s s' : Store, s'.contents = s.contents → g s' = g s) : OnDocuments (asks g) where
  frame s := by rw [asks_apply]
  agree s s' h := by
    rw [asks_apply, asks_apply]
    exact ⟨hg s s' h, h⟩

/-- Replacing the documents touches nothing else. -/
theorem modify (c : Option (Table Address String)) :
    OnDocuments (modify fun s : Store => { s with contents := c } : StoreM Unit) :=
  ⟨fun _ => rfl, fun _ _ _ => ⟨rfl, rfl⟩⟩

/-- A row of actions on the documents is one. -/
theorem bind {x : StoreM α} {f : α → StoreM β} (hx : OnDocuments x)
    (hf : ∀ a, OnDocuments (f a)) : OnDocuments (x >>= f) where
  frame s := by
    have hframe := hx.frame s
    rw [bind_apply]
    generalize x s = r at hframe
    obtain ⟨e | a, s₁⟩ := r
    · exact hframe
    · exact frame_trans hframe ((hf a).frame s₁)
  agree s s' h := by
    obtain ⟨hresult, hcontents⟩ := hx.agree s s' h
    rw [bind_apply, bind_apply]
    generalize x s = r, x s' = r' at hresult hcontents
    obtain ⟨e | a, s₁⟩ := r <;> obtain ⟨e' | a', s₁'⟩ := r' <;> cases hresult
    · exact ⟨rfl, hcontents⟩
    · exact (hf a).agree s₁ s₁' hcontents

/-- So is an action on the documents with a handler that is one. -/
theorem tryCatch {x : StoreM α} {handler : Failure → StoreM α} (hx : OnDocuments x)
    (hhandler : ∀ e, OnDocuments (handler e)) :
    OnDocuments (MonadExcept.tryCatch x handler) where
  frame s := by
    have hframe := hx.frame s
    have hrun : MonadExcept.tryCatch x handler s = _ := tryCatch_apply x handler s
    rw [hrun]
    generalize x s = r at hframe
    obtain ⟨e | a, s₁⟩ := r
    · exact frame_trans hframe ((hhandler e).frame s₁)
    · exact hframe
  agree s s' h := by
    obtain ⟨hresult, hcontents⟩ := hx.agree s s' h
    have hrun (s : Store) : MonadExcept.tryCatch x handler s = _ := tryCatch_apply x handler s
    rw [hrun, hrun]
    generalize x s = r, x s' = r' at hresult hcontents
    obtain ⟨e | a, s₁⟩ := r <;> obtain ⟨e' | a', s₁'⟩ := r' <;> cases hresult
    · exact (hhandler e).agree s₁ s₁' hcontents
    · exact ⟨rfl, hcontents⟩

/-- An update of a document is an action on the documents. -/
theorem updateContents (f : Address) (update : Entry → Except Malformation Entry) :
    OnDocuments (updateContents f update) := by
  have hread (s s' : Store) (h : s'.contents = s.contents) :
      s'.readContents f = s.readContents f := by
    unfold Store.readContents
    rw [h]
  refine (asks hread).bind fun r => ?_
  dsimp only
  split
  · refine (asks fun s s' h => ?_).bind fun c => modify _
    rw [h]
  · exact throw _

/-- So is the removal of a document. -/
theorem removeContents (f : Address) : OnDocuments (removeContents f) := by
  refine (asks fun s s' h => ?_).bind fun c => ?_
  · rw [h]
  · split
    · exact modify _
    · exact throw _

/-- So is the deletion of a function's partition. -/
theorem deleteAll (f : Address) : OnDocuments (deleteAll (.contents f)) := by
  refine tryCatch ((removeContents f).bind fun _ => pure 1) fun e => ?_
  split
  · exact pure 0
  · exact throw _

end OnDocuments

end StoreM

/-- A change of a document works on the documents alone. -/
theorem Mutation.onDocuments_apply {m : Mutation}
    (h : (StoreCall.change m).isOnDocument = true) : StoreM.OnDocuments m.apply := by
  cases m with
  | setNames p t =>
    cases p with
    | contents f => exact .updateContents f fun e => .ok (e.setNames t)
    | globals => cases h
  | setAddresses p t =>
    cases p with
    | contents f => exact .updateContents f fun e => .ok (e.setAddresses t)
    | globals => cases h
  | increment p a name =>
    cases p with
    | contents f => exact .updateContents f fun e => e.increment a name
    | globals => cases h
  | removeContents f => exact .removeContents f
  | removeGlobal k => cases h

/-! ## Calls -/

namespace StoreCall

variable {call : StoreCall}

/-- A call about a document does the same wherever the documents are the same, and leaves everything
else as it is. -/
theorem run_document (h : call.isOnDocument = true) (s : Store) :
    (call.run s).2 = { s with contents := (call.run s).2.contents } ∧
    ∀ s', s'.contents = s.contents →
      (call.run s').1 = (call.run s).1 ∧ (call.run s').2.contents = (call.run s).2.contents := by
  cases call with
  | change m =>
    have hm := m.onDocuments_apply h
    refine ⟨hm.frame s, fun s' hs => ?_⟩
    obtain ⟨hresult, hcontents⟩ := hm.agree s s' hs
    exact ⟨congrArg (Except.map fun _ => none) hresult, hcontents⟩
  | deleteAll p =>
    cases p with
    | contents f =>
      have hf := StoreM.OnDocuments.deleteAll f
      refine ⟨hf.frame s, fun s' hs => ?_⟩
      obtain ⟨hresult, hcontents⟩ := hf.agree s s' hs
      exact ⟨congrArg (Except.map some) hresult, hcontents⟩
    | globals => cases h

/-- A call leaves every document other than that of its own function alone. -/
theorem sameOutside_run {p : Address → Bool}
    (h : ∀ f, call.partition = .contents f → p f = false) (s : Store) :
    Store.SameOutside p s (call.run s).2 := by
  cases call with
  | change m =>
    refine m.apply_sameOutside (fun f hf => h f ?_) s
    unfold Mutation.function? at hf
    split at hf <;> cases hf <;> rfl
  | deleteAll q => exact StoreM.Leaves.deleteAll (fun f hf => h f hf) s

/-- So one about the index leaves all documents alone. -/
theorem contents_run (h : call.isOnDocument = false) (s : Store) :
    (call.run s).2.contents = s.contents := by
  have hglobals : call.partition = .globals := by simpa [isOnDocument] using h
  have hall (c : Option (Table Address String)) :
      c.map (·.filter fun _ _ => true) = c := by
    cases c with
    | none => rfl
    | some c =>
      refine congrArg some (Table.ext_find? fun f => ?_)
      rw [Table.find?_filter_key, if_pos rfl]
  have hsame : Store.SameOutside (fun _ => true) s (call.run s).2 := by
    refine sameOutside_run (fun f hf => ?_) s
    rw [hglobals] at hf
    cases hf
  rw [← hall (call.run s).2.contents, hsame.contents, hall]

/-- The tables of the cache are still there after a call. -/
theorem hasTables_run {s : Store} (hs : s.HasTables) (call : StoreCall) :
    (call.run s).2.HasTables :=
  hs.of_sameOutside (sameOutside_run (p := fun _ => false) (fun _ _ => rfl) s)

end StoreCall

/-- The replies to those of the calls that satisfy a test. -/
def repliesTo (p : StoreCall → Bool) (calls : List StoreCall) (replies : List Reply) :
    List Reply :=
  ((calls.zip replies).filter fun r => p r.1).map (·.2)

/-- The replies to the calls that are picked out, call by call. -/
theorem repliesTo_cons (p : StoreCall → Bool) (call : StoreCall) (calls : List StoreCall)
    (reply : Reply) (replies : List Reply) : repliesTo p (call :: calls) (reply :: replies)
      = if p call then reply :: repliesTo p calls replies else repliesTo p calls replies := by
  unfold repliesTo
  rw [List.zip_cons_cons, List.filter_cons]
  split <;> rfl

/-- Among any calls, those about documents do and reply what they do on their own. -/
theorem replay_documents {s s' : Store} (h : s'.contents = s.contents) (calls : List StoreCall) :
    (replayCalls StoreCall.run (calls.filter (·.isOnDocument)) s').2.contents
      = (replayCalls StoreCall.run calls s).2.contents ∧
    (replayCalls StoreCall.run (calls.filter (·.isOnDocument)) s').1
      = repliesTo (·.isOnDocument) calls (replayCalls StoreCall.run calls s).1 := by
  induction calls generalizing s s' with
  | nil => exact ⟨h, rfl⟩
  | cons call calls ih =>
    have hreplay : (replayCalls StoreCall.run (call :: calls) s).1
        = (call.run s).1 :: (replayCalls StoreCall.run calls (call.run s).2).1 := rfl
    rw [hreplay, repliesTo_cons, List.filter_cons]
    cases hcall : call.isOnDocument with
    | true =>
      obtain ⟨hreply, hcontents⟩ := (StoreCall.run_document hcall s).2 s' h
      obtain ⟨hrest, hreplies⟩ := ih hcontents
      exact ⟨hrest, List.cons_eq_cons.2 ⟨hreply, hreplies⟩⟩
    | false => exact ih (h.trans (StoreCall.contents_run hcall s).symm)

end TagCache
