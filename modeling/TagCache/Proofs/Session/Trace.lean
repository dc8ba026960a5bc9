import TagCache.Proofs.Session.Recovery
import TagCache.Proofs.Session.Script
import TagCache.Proofs.Store.Refinement

/-!
# Traces of changes

Under any output, and however it ends, a call leaves the store that the changes of its trace lead to
(`Session.Traces`). The trace is made of blocks, one after another: what is done without a line
between, so that no output cuts it (`Snapshot.Blocks`). Building a function is one block, which
gives its names counts and then its addresses. A property of lists of changes that the blocks have
and that goes through concatenation belongs to every trace (`Snapshot.Blocks.trace`), and as long as
no count overflows the store after a history is that of the ledger after its trace
(`Call.replay_store`).
-/

namespace TagCache

open Event (changes)

/-! ## From one state to a later one -/

/-- Events were added whose changes lead to the later store and satisfy a property. -/
def SessionState.Leads (J : List Mutation → Prop) (st st' : SessionState) : Prop :=
  ∃ es, st'.events = st.events ++ es.toArray ∧ changes es st.store = (.ok (), st'.store) ∧
    J (es.filterMap Event.mutation?)

/-- A property of lists that is that of the empty one and goes through concatenation. -/
structure Appends (J : List Mutation → Prop) : Prop where
  nil : J []
  append {l m : List Mutation} : J l → J m → J (l ++ m)

section
variable {J : List Mutation → Prop} {st st' st'' : SessionState}

/-- No event leads from a state to itself. -/
theorem SessionState.Leads.refl (hJ : Appends J) (st : SessionState) : st.Leads J st :=
  ⟨[], by simp, rfl, hJ.nil⟩

/-- States lead on from each other. -/
theorem SessionState.Leads.trans (hJ : Appends J) (h : st.Leads J st') (h' : st'.Leads J st'') :
    st.Leads J st'' := by
  obtain ⟨es, hevents, hchanges, hes⟩ := h
  obtain ⟨fs, hevents', hchanges', hfs⟩ := h'
  refine ⟨es ++ fs, ?_, Event.changes_append_eq_ok_iff.2 ⟨_, hchanges, hchanges'⟩, ?_⟩
  · simp [hevents, hevents']
  · rw [List.filterMap_append]
    exact hJ.append hes hfs

end

namespace Session

variable {J : List Mutation → Prop} {α β : Type}

/-- However the operation ends, what it did leads to the state after it. -/
def Traces (J : List Mutation → Prop) (x : Session α) : Prop :=
  ∀ st : SessionState, st.Leads J (outcome x st).2

/-- A sequence is traced if its second part is, for each result that the first one has. -/
theorem Traces.bind_result (hJ : Appends J) {x : Session α} {f : α → Session β} (hx : Traces J x)
    (hf : ∀ st a, (outcome x st).1 = .ok a → Traces J (f a)) : Traces J (x >>= f) := by
  intro st
  have hstep := hx st
  have hnext := hf st
  rw [outcome_bind]
  generalize outcome x st = r at hstep hnext
  rcases r with ⟨e | a, st'⟩
  · exact hstep
  · exact hstep.trans hJ (hnext a rfl st')

/-- What an operation and its handler trace is traced where a failure is caught. -/
theorem Traces.recover (hJ : Appends J) {x : Session α} {handler : Failure → Session α}
    (hx : Traces J x) (hh : ∀ e, Traces J (handler e)) : Traces J (tryCatch x handler) := by
  intro st
  have hstep := hx st
  rw [outcome_tryCatch]
  generalize outcome x st = r at hstep
  rcases r with ⟨e | a, st'⟩
  · exact hstep.trans hJ (hh e st')
  · exact hstep

/-- An event that changes nothing may be noted. -/
theorem Traces.note (hJ : Appends J) {e : Event} (he : e.mutation? = none) {x : Session α}
    (hx : ∀ st, (outcome x st).2 = st ∨
      (outcome x st).2.events = st.events.push e ∧ (outcome x st).2.store = st.store) :
    Traces J x := by
  intro st
  rcases hx st with h | ⟨hevents, hstore⟩
  · rw [h]
    exact .refl hJ st
  · refine ⟨[e], by rw [hevents]; simp, ?_, ?_⟩
    · rw [hstore]
      cases e with
      | stored m => cases he
      | visited | logged | wrote => rfl
    · simp only [List.filterMap_cons, he, List.filterMap_nil]
      exact hJ.nil

/-- Tracing goes through the operations that are put together. -/
theorem compositional_traces (hJ : Appends J) : Compositional (Traces J) where
  bind hx hf := Traces.bind_result hJ hx fun _ a _ => hf a
  recover hx hh _ := Traces.recover hJ hx hh
  pure a := SessionState.Leads.refl hJ
  throw e := SessionState.Leads.refl hJ
  visit a := Traces.note hJ (e := .visited a) rfl fun st => .inr ⟨rfl, rfl⟩
  log level text := Traces.note hJ (e := .logged level text) rfl fun st => .inr ⟨rfl, rfl⟩
  asks f := by
    intro st
    rw [outcome_asks]
    exact .refl hJ st
  takeLine line := by
    refine Traces.note hJ (e := .wrote line) rfl fun st => ?_
    rw [outcome_takeLine]
    rcases st.room with _ | _ | n
    · exact .inr ⟨rfl, rfl⟩
    · exact .inl rfl
    · exact .inr ⟨rfl, rfl⟩

/-- A change is made or fails, and then nothing is changed. -/
theorem traces_mutate (hJ : Appends J) {m : Mutation} (hm : J [m]) : Traces J (mutate m) := by
  intro st
  rw [outcome_mutate]
  rcases happly : m.apply st.store with ⟨e | ⟨⟩, s⟩
  · rw [m.atomic_apply _ _ _ happly]
    exact .refl hJ st
  · exact ⟨[.stored m], by simp [SessionState.note],
      Event.changes_stored_eq_ok_iff.2 ⟨s, happly, rfl⟩, hm⟩

/-- Two changes with a record between them are made in a row, or only the first one is, or none. -/
theorem traces_mutate_mutate (hJ : Appends J) {m m' : Mutation} (hm : J [m]) (hmm : J [m, m'])
    (level : LogLevel) (text : String) :
    Traces J (do mutate m; log level text; mutate m') := by
  intro st
  rw [outcome_bind, outcome_mutate]
  rcases happly : m.apply st.store with ⟨e | ⟨⟩, s⟩
  · rw [m.atomic_apply _ _ _ happly]
    exact .refl hJ st
  · simp only
    rw [outcome_bind, outcome_log]
    simp only [outcome_mutate, SessionState.note]
    rcases happly' : m'.apply s with ⟨e | ⟨⟩, s'⟩
    · rw [m'.atomic_apply _ _ _ happly']
      exact ⟨[.stored m, .logged level text], Array.toList_inj.1 (by simp),
        Event.changes_stored_eq_ok_iff.2 ⟨s, happly, rfl⟩, hm⟩
    · refine ⟨[.stored m, .logged level text, .stored m'], Array.toList_inj.1 (by simp), ?_, hmm⟩
      exact Event.changes_stored_eq_ok_iff.2 ⟨s, happly,
        Event.changes_stored_eq_ok_iff.2 ⟨s', happly', rfl⟩⟩

end Session

/-- Nor does it matter to a pull of an erasure how its removals end. -/
theorem Erasure.leads_pull {J : List Mutation → Prop} (hJ : Appends J) {κ : Type} (n : Nat)
    {e : Erasure κ} (h : ∀ k ∈ e.pending, Session.Traces J (e.remove k)) (st : SessionState) :
    st.Leads J ((e.pull n).run st).2 :=
  pull_induction (.refl hJ) (.trans hJ) n
    (fun k hk => (Session.compositional_traces hJ).removal (h k hk)) st

/-! ## Blocks of changes -/

/-- A property of lists of changes that goes through concatenation, and that the blocks have which
operations under the snapshot make. -/
structure Snapshot.Blocks (db : Snapshot) (J : List Mutation → Prop) : Prop extends Appends J where
  /-- A function's names get counts. -/
  names : ∀ f ∈ db.entries, J [.setNames (.contents f) (db.contentsCounts f).names]
  /-- Both tables of a function get counts, the names first. -/
  counts : ∀ f ∈ db.entries, J [.setNames (.contents f) (db.contentsCounts f).names,
    .setAddresses (.contents f) (db.contentsCounts f).addresses]
  /-- A reference is added at a head that is not the entry point. -/
  increment : ∀ f a name, db.functionOf? a = some f → a ≠ f → a ∈ db.boundedHeads →
    J [.increment (.contents f) a name]
  removeContents : ∀ f, J [.removeContents f]
  /-- Nothing but the index is changed. -/
  globals : ∀ m : Mutation, m.function? = none → J [m]

/-- Nothing is asked of the changes. -/
theorem Snapshot.blocks_true (db : Snapshot) : db.Blocks fun _ => True where
  nil := trivial
  append _ _ := trivial
  names _ _ := trivial
  counts _ _ := trivial
  increment _ _ _ _ _ _ := trivial
  removeContents _ := trivial
  globals _ _ := trivial

namespace Snapshot.Blocks

open Session

variable {db : Snapshot} {J : List Mutation → Prop} (hJ : db.Blocks J)
include hJ

/-- Building an address makes the changes of its function. -/
theorem traces_contents (a : Address) : Traces J (contents db a) := by
  have hlaw := compositional_traces hJ.toAppends
  unfold contents
  cases ha : db.functionOf? a with
  | none => exact hlaw.bind (hlaw.log _ _) fun _ => hlaw.pure _
  | some f =>
    have hf := mem_entries_of_functionOf? ha
    obtain ⟨i, hi⟩ := exists_function?_of_mem_entries hf
    refine hlaw.bind (hlaw.log _ _) fun _ =>
      Traces.bind_result hJ.toAppends (hlaw.countContents f) fun st counts hcounts => ?_
    -- the counts are those of the function, whatever the state is
    have hresult : counts = db.contentsCounts f := by
      obtain ⟨after, hrun⟩ := (reaches_countContents (s := st.store) hi).outcome_of_silent
        (sequential_silent.countContents f) st.room st.events
      rw [hrun] at hcounts
      exact (Except.ok.inj hcounts).symm
    subst hresult
    refine hlaw.bind (hlaw.visit a) fun _ => hlaw.bind (hlaw.log _ _) fun _ => ?_
    rw [filter_contentsCounts]
    have hpair := traces_mutate_mutate hJ.toAppends (hJ.names f hf) (hJ.counts f hf) .debug
      ("contents(" ++ a.text ++ "): "
        ++ ("updating the address references for function " ++ f.text))
    have hdone := hlaw.bind hpair fun _ => hlaw.pure (db.contentsCounts f)
    simp only [bind_assoc] at hdone
    exact hdone

/-- Removing a document makes one change. -/
theorem traces_removeContents (f : Address) : Traces J (mutate (.removeContents f)) :=
  traces_mutate hJ.toAppends (hJ.removeContents f)

/-- Removing a key of the index makes one change. -/
theorem traces_removeGlobal (k : GlobalKey) : Traces J (mutate (.removeGlobal k)) :=
  traces_mutate hJ.toAppends (hJ.globals _ rfl)

/-- Adding an implicit reference makes one change. -/
theorem traces_increment {a : Address} (ha : a ∈ db.boundedHeads) (name : String) :
    Traces J (mutate (.increment (implicitPartition db a) a name)) := by
  refine traces_mutate hJ.toAppends ?_
  cases hp : implicitPartition db a with
  | globals => exact hJ.globals _ rfl
  | contents f =>
    obtain ⟨howner, hne⟩ := implicitPartition_eq_contents_iff.1 hp
    exact hJ.increment f a name howner hne ha

/-- Every operation traces the changes of its parts. -/
theorem traces_run (op : Operation) : Traces J (op.run db) :=
  (compositional_traces hJ.toAppends).run op hJ.traces_contents
    (fun m hm => traces_mutate hJ.toAppends (hJ.globals m hm))
    (fun _ ha name => hJ.traces_increment ha name) fun f _ => hJ.traces_removeContents f

end Snapshot.Blocks

/-! ## Histories -/

namespace Call

/-- The state after a call that starts a session on a store. -/
def state (db : Snapshot) (s : Store) (room : Option Nat) : Call → SessionState
  | .operate op => (Session.outcome (op.run db) (.start s room)).2
  | .eraseContents pulls => (((Session.contentsErasure db).pull pulls).run (.start s room)).2
  | .eraseGlobals pulls =>
    match Session.outcome Session.globalsErasure (.start s room) with
    | (.ok e, st) => ((e.pull pulls).run st).2
    | (.error _, st) => st
  | .verifyIndex => (Session.outcome (Session.verifyIndex db) (.start s room)).2
  | .verifyContents a => (Session.outcome (Session.verifyContents db a) (.start s room)).2

/-- The changes that calls make in order, each with its own room. -/
def trace (db : Snapshot) : Store → List (Call × Option Nat) → List Mutation
  | _, [] => []
  | s, (call, room) :: history =>
    let st := call.state db s room
    st.mutations ++ trace db st.store history

variable {db : Snapshot} {s : Store} {J : List Mutation → Prop}

/-- The state after a call has the store that the call leaves. -/
theorem store_state (room : Option Nat) (call : Call) :
    (call.state db s room).store = call.run db s room := by
  cases call with
  | eraseGlobals pulls =>
    unfold state run
    rw [Session.outcome_globalsErasure]
    cases s.globalKeys <;> rfl
  | operate | eraseContents | verifyIndex | verifyContents => rfl

end Call

namespace Snapshot.Blocks

variable {db : Snapshot} {J : List Mutation → Prop} (hJ : db.Blocks J)
include hJ

/-- A call leads from the start of a session to the state after it. -/
theorem leads_state (s : Store) (room : Option Nat) (call : Call) :
    (SessionState.start s room).Leads J (call.state db s room) := by
  have hlaw := Session.compositional_traces hJ.toAppends
  cases call with
  | operate op => exact hJ.traces_run op _
  | eraseContents pulls =>
    exact Erasure.leads_pull hJ.toAppends pulls
      (fun f _ => hlaw.removeContents (hJ.traces_removeContents f)) _
  | eraseGlobals pulls =>
    unfold Call.state
    rw [Session.outcome_globalsErasure]
    cases s.globalKeys with
    | error e => exact .refl hJ.toAppends _
    | ok keys =>
      exact Erasure.leads_pull hJ.toAppends pulls (fun k _ => hJ.traces_removeGlobal k) _
  | verifyIndex => exact hlaw.verifyIndex _
  | verifyContents a => exact hlaw.verifyContents a _

/-- The changes of a history lead to the store after it, and they have every property of blocks. -/
theorem trace (s : Store) (history : List (Call × Option Nat)) :
    J (Call.trace db s history) ∧ ∃ es, es.filterMap Event.mutation? = Call.trace db s history ∧
      changes es s = (.ok (), Call.replay db s history) := by
  induction history generalizing s with
  | nil => exact ⟨hJ.nil, [], rfl, rfl⟩
  | cons c history ih =>
    obtain ⟨call, room⟩ := c
    obtain ⟨es, hevents, hchanges, hes⟩ := hJ.leads_state s room call
    have hmutations : (call.state db s room).mutations = es.filterMap Event.mutation? := by
      simp [SessionState.mutations, hevents, SessionState.start]
    rw [Call.store_state] at hchanges
    obtain ⟨htrace, fs, hfs, hrest⟩ := ih (call.run db s room)
    rw [Call.trace, hmutations, Call.store_state]
    refine ⟨hJ.append hes htrace, es ++ fs, ?_, ?_⟩
    · rw [List.filterMap_append, hfs]
    · exact Event.changes_append_eq_ok_iff.2 ⟨_, hchanges, hrest⟩

end Snapshot.Blocks

/-! ## The ledger after a trace -/

namespace Ledger

/-- Changes that are replayed as calls leave the changed ledger. -/
theorem replay_change (l : Ledger) (ms : List Mutation) :
    (replayCalls step (ms.map .change) l).2 = l.changed ms := by
  induction ms generalizing l with
  | nil => rfl
  | cons m ms ih => exact ih (l.change m).2

end Ledger

/-- Changes that are all made are calls of the store that all succeed. -/
theorem Event.replay_change {es : List Event} {s s' : Store} (h : changes es s = (.ok (), s')) :
    (replayCalls StoreCall.run ((es.filterMap mutation?).map .change) s).2 = s' := by
  induction es generalizing s with
  | nil => cases h; rfl
  | cons e es ih =>
    cases e with
    | stored m =>
      obtain ⟨mid, happly, hrest⟩ := changes_stored_eq_ok_iff.1 h
      have hrun : (StoreCall.run (.change m) s).2 = mid := congrArg Prod.snd happly
      show (replayCalls StoreCall.run _ (StoreCall.run (.change m) s).2).2 = s'
      rw [hrun]
      exact ih hrest
    | visited | logged | wrote => exact ih h

/-- As long as no count overflows, the store after a history is that of the ledger after its
trace. -/
theorem Call.replay_store {db : Snapshot} {l : Ledger} (hl : l.Fits)
    {history : List (Call × Option Nat)}
    (hadmits : l.AdmitsAll ((trace db l.store history).map .change)) :
    (l.changed (trace db l.store history)).Fits ∧
      replay db l.store history = (l.changed (trace db l.store history)).store := by
  obtain ⟨-, es, hes, hchanges⟩ := db.blocks_true.trace l.store history
  obtain ⟨hfits, hreplay⟩ := Ledger.replay_store hl hadmits
  rw [Ledger.replay_change] at hfits hreplay
  refine ⟨hfits, ?_⟩
  rw [← Event.replay_change hchanges, hes, hreplay]

end TagCache
