import TagCache.Proofs.Session.Run
import TagCache.Proofs.Store
import TagCache.Session.Operation
import TagCache.Session.Verify

/-!
# Properties that go through composition

Every operation is put together from a few primitives by sequencing and recovery, and a recovery
never gets past a full output. So a property that composition keeps (`Session.Sequential`), and that
writing a line has too (`Session.Compositional`), belongs to an operation as soon as the changes of
the store that it makes have it. One lemma for each operation says which changes these are; what an
operation keeps, what it does under an output with a limit and what it leaves in its trace all come
from here.
-/

namespace TagCache

namespace Session

/-- A property of operations that sequencing and recovery keep, and that the primitives have which
neither write a line nor change the store. A recovery has to pass a full output on. -/
structure Sequential (P : ∀ {α : Type}, Session α → Prop) : Prop where
  bind {α β : Type} {x : Session α} {f : α → Session β} : P x → (∀ a, P (f a)) → P (x >>= f)
  recover {α : Type} {x : Session α} {handler : Failure → Session α} : P x →
    (∀ e, P (handler e)) → handler .outputFull = throw .outputFull → P (tryCatch x handler)
  pure {α : Type} (a : α) : P (pure a : Session α)
  throw {α : Type} (e : Failure) : P (throw e : Session α)
  visit (a : Address) : P (visit a)
  log (level : LogLevel) (text : String) : P (log level text)
  asks {α : Type} (f : Store → Except Failure α) : P (asks f)

/-- A property that composition keeps, and that writing a line has. -/
structure Compositional (P : ∀ {α : Type}, Session α → Prop) : Prop extends Sequential P where
  takeLine (line : String) : P (takeLine line)

variable {P : ∀ {α : Type}, Session α → Prop} {α κ : Type} {db : Snapshot}

/-! ## Operations that write no line -/

namespace Sequential

variable (h : Sequential P)
include h

/-- A result may be discarded. -/
theorem discard {x : Session α} (hx : P x) : P (discard x) := by
  have heq : Functor.discard x = x >>= fun _ => Pure.pure () := rfl
  rw [heq]
  exact h.bind hx fun _ => h.pure ()

/-- A result computed beforehand is given or fails. -/
theorem ofExcept (r : Except Failure α) : P (ofExcept r) := by
  cases r with
  | ok a => exact h.pure a
  | error e => exact h.throw e

/-- What holds of an operation for each element holds of the row of them. -/
theorem forM {x : α → Session Unit} {l : List α} (hx : ∀ a ∈ l, P (x a)) : P (l.forM x) := by
  induction l with
  | nil => exact h.pure ()
  | cons a l ih =>
    exact h.bind (hx a List.mem_cons_self) fun _ => ih fun b hb => hx b (List.mem_cons_of_mem _ hb)

/-- Counting tags visits addresses and asks nothing. -/
theorem countTags (addresses : List Address) : P (countTags db addresses) := by
  unfold Session.countTags countReferences
  generalize (∅ : Counts) = c
  induction addresses generalizing c with
  | nil => exact h.pure c
  | cons a addresses ih =>
    rw [List.foldlM_cons]
    exact h.bind (h.bind (h.visit a) fun _ => h.bind (h.pure _) fun _ => h.pure _) ih

/-- Counting a function visits its addresses and asks nothing. -/
theorem countContents (f : Address) : P (countContents db f) :=
  h.bind (h.ofExcept _) fun _ => h.countTags _

/-- Building a function changes its own document. -/
theorem contents {a : Address} (hm : ∀ f m, db.functionOf? a = some f →
    m.function? = some f → P (mutate m)) : P (contents db a) := by
  unfold Session.contents
  cases ha : db.functionOf? a with
  | none => exact h.bind (h.log _ _) fun _ => h.pure _
  | some f =>
    exact h.bind (h.log _ _) fun _ => h.bind (h.countContents f) fun _ =>
      h.bind (h.visit a) fun _ => h.bind (h.log _ _) fun _ => h.bind (hm f _ ha rfl) fun _ =>
        h.bind (h.log _ _) fun _ => h.bind (hm f _ ha rfl) fun _ => h.pure _

/-- Adding references makes one change for each of them. -/
theorem addReferences {refs : List (Partition × Address × String)}
    (hr : ∀ r ∈ refs, P (mutate (.increment r.1 r.2.1 r.2.2))) : P (addReferences refs) := by
  induction refs with
  | nil => exact h.pure 0
  | cons r refs ih =>
    exact h.bind (hr r List.mem_cons_self) fun _ =>
      h.bind (ih fun r hr' => hr r (List.mem_cons_of_mem _ hr')) fun _ => h.pure _

/-- Each reference is added at a head within the bounds, and counted where implicit tags are. -/
theorem customNames (hm : ∀ a ∈ db.boundedHeads, ∀ name,
    P (mutate (.increment (implicitPartition db a) a name))) : P (customNames db) := by
  refine h.bind (h.addReferences fun r hr => ?_) fun _ => h.bind (h.log _ _) fun _ => h.pure _
  obtain ⟨a, ha, rfl⟩ := List.mem_map.1 hr
  exact hm a (List.mem_filter.1 ha).1 nameTag

/-- Extra comment lines are references at addresses of the snapshot. -/
theorem extraComments (hm : ∀ a ∈ db.boundedHeads, ∀ name,
    P (mutate (.increment (implicitPartition db a) a name))) : P (extraComments db) := by
  refine h.bind (h.addReferences fun r hr => ?_) fun _ => h.bind (h.log _ _) fun _ => h.pure _
  obtain ⟨a, ha, hr⟩ := List.mem_flatMap.1 hr
  obtain ⟨side, -, hr⟩ := List.mem_flatMap.1 hr
  rw [List.eq_of_mem_replicate hr]
  exact hm a ha side.tag

/-- A removal is logged, and its failure is passed on. -/
theorem removal {remove : κ → Session Unit} {k : κ} (hx : P (remove k)) :
    P (Erasure.removal remove k) := by
  refine h.recover hx (fun e => ?_) rfl
  split
  · exact h.pure ()
  · exact h.throw _

/-- The removal of a function's document, as its erasure makes it. -/
theorem removeContents {f : Address} (hm : P (mutate (.removeContents f))) :
    P (do Session.visit f; mutate (.removeContents f)) :=
  h.bind (h.visit f) fun _ => hm

end Sequential

/-! ## Operations that write lines -/

namespace Compositional

variable (h : Compositional P)
include h

/-- A text is written line by line. -/
theorem writeLine (text : String) : P (writeLine text) := h.forM fun line _ => h.takeLine line

/-- Counting the tags of functions visits them and writes lines. -/
theorem countFunctionTags (total position : Nat) (counts : Counts) (fs : List Address) :
    P (countFunctionTags db total position counts fs) := by
  induction fs generalizing position counts with
  | nil => exact h.pure counts
  | cons f fs ih =>
    exact h.bind (h.visit f) fun _ => h.bind (h.ofExcept _) fun _ => h.bind (h.writeLine _) fun _ =>
      ih _ _

/-- Counting the index counts functions and then the addresses outside them. -/
theorem countGlobals : P (countGlobals db) :=
  h.bind (h.countFunctionTags _ _ _ _) fun _ => h.bind (h.writeLine _) fun _ =>
    h.bind (h.countTags _) fun _ => h.bind (h.writeLine _) fun _ => h.bind (h.writeLine _) fun _ =>
      h.bind (h.writeLine _) fun _ => h.pure _

/-- Building the index changes no function's document. -/
theorem globals (hm : ∀ m, m.function? = none → P (mutate m)) : P (globals db) :=
  h.bind h.countGlobals fun _ => h.bind (h.writeLine _) fun _ => h.bind (hm _ rfl) fun _ =>
    h.bind (h.writeLine _) fun _ => h.bind (hm _ rfl) fun _ => h.pure _

/-- Building functions builds one after another and writes lines between them. -/
theorem allContents (total position : Nat) {fs : List Address}
    (hf : ∀ f ∈ fs, P (Session.contents db f)) : P (allContents db total position fs) := by
  induction fs generalizing position with
  | nil => exact h.pure ()
  | cons f fs ih =>
    exact h.bind (h.writeLine _) fun _ => h.bind (h.discard (hf f List.mem_cons_self)) fun _ =>
      ih _ fun g hg => hf g (List.mem_cons_of_mem _ hg)

/-- Building everything builds the functions and then the index. -/
theorem all (hf : ∀ f ∈ db.entries, P (Session.contents db f)) (hg : P (Session.globals db)) :
    P (all db) :=
  h.bind (h.allContents _ _ hf) fun _ => h.bind (h.writeLine _) fun _ => h.discard hg

/-- Draining keys removes each of them and reports it. -/
theorem drainFrom {remove : κ → Session Unit} {report : Nat → κ → Session Unit} {keys : List κ}
    (index : Nat) (hx : ∀ k ∈ keys, P (remove k)) (hr : ∀ i k, P (report i k)) :
    P (Erasure.drainFrom remove report index keys) := by
  induction keys generalizing index with
  | nil => exact h.pure ()
  | cons k keys ih =>
    exact h.bind (h.removal (hx k List.mem_cons_self)) fun _ => h.bind (hr index k) fun _ =>
      ih _ fun k hk => hx k (List.mem_cons_of_mem _ hk)

/-- The erasure removes the documents of the functions and keys of the index. -/
theorem erase (hf : ∀ f ∈ db.entries, P (mutate (.removeContents f)))
    (hk : ∀ k, P (mutate (.removeGlobal k))) : P (erase db) := by
  simp only [Session.erase, Session.globalsErasure, bind_assoc, pure_bind]
  refine h.bind (h.asks _) fun _ => ?_
  refine h.bind (h.drainFrom _ (fun f hf' => h.removeContents (hf f hf'))
    fun _ _ => h.writeLine _) fun _ => ?_
  refine h.bind (h.asks _) fun _ => ?_
  refine h.bind (h.drainFrom _ (fun k _ => hk k) fun _ _ => h.writeLine _) fun _ => ?_
  exact h.bind (h.log _ _) fun _ => h.pure _

/-- A whole rebuild is an erasure before everything is built. -/
theorem everything (he : P (Session.erase db)) (ha : P (Session.all db)) : P (everything db) :=
  h.bind (h.discard he) fun _ => ha

/-- An operation builds functions, and otherwise changes the index, adds references and removes
functions' documents. -/
theorem run (op : Operation) (hc : ∀ a, P (Session.contents db a))
    (hg : ∀ m, m.function? = none → P (mutate m))
    (hi : ∀ a ∈ db.boundedHeads, ∀ name, P (mutate (.increment (implicitPartition db a) a name)))
    (hr : ∀ f ∈ db.entries, P (mutate (.removeContents f))) : P (op.run db) := by
  have hglobals : P (Session.globals db) := h.globals hg
  have hall : P (Session.all db) := h.all (fun f _ => hc f) hglobals
  have herase : P (Session.erase db) := h.erase hr fun k => hg _ rfl
  cases op with
  | everything => exact h.bind (h.everything herase hall) fun _ => h.pure _
  | all => exact h.bind hall fun _ => h.pure _
  | contents a => exact h.bind (hc a) fun _ => h.pure _
  | globals => exact h.bind hglobals fun _ => h.pure _
  | customNames => exact h.bind (h.customNames hi) fun _ => h.pure _
  | extraComments => exact h.bind (h.extraComments hi) fun _ => h.pure _
  | erase => exact h.bind herase fun _ => h.pure _

/-! ## Checks -/

/-- A finding is reported in lines. -/
theorem report (a : Address) (finding : Finding) : P (report a finding) :=
  h.bind (h.forM fun line _ => h.writeLine line) fun _ => h.pure _

/-- Checking the contents of a function asks the store and writes reports. -/
theorem verifyContents (a : Address) : P (verifyContents db a) := by
  unfold Session.verifyContents
  split
  · exact h.report a _
  · refine h.bind (h.asks _) fun e => ?_
    split
    · exact h.report a _
    · split
      · exact h.report a _
      · split
        · exact h.throw _
        · split
          · exact h.report a _
          · exact h.bind (h.forM fun a _ => h.visit a) fun _ => h.report a _

/-- Checking the fields of an entry writes reports. -/
theorem verifyFields (a : Address) (e : Entry) : P (verifyFields a e) := by
  unfold Session.verifyFields
  dsimp only
  split
  · refine h.bind (h.writeLine _) fun _ => ?_
    split
    · exact h.bind (h.writeLine _) fun _ => h.pure _
    · exact h.pure _
  · split
    · exact h.bind (h.writeLine _) fun _ => h.pure _
    · exact h.pure _

/-- Checking a key asks for its entry and checks the fields. -/
theorem verifyKey (a : Address) : P (verifyKey db a) := by
  unfold Session.verifyKey
  split
  · exact h.bind (h.writeLine _) fun _ => h.pure _
  · refine h.bind (h.visit _) fun _ => ?_
    split
    · exact h.bind (h.writeLine _) fun _ => h.pure _
    · refine h.bind (h.asks _) fun e => ?_
      split
      · exact h.pure _
      · exact h.verifyFields a _

/-- Checking keys checks one after another. -/
theorem verifyKeys (keys : List Address) : P (verifyKeys db keys) := by
  induction keys with
  | nil => exact h.pure true
  | cons a keys ih => exact h.bind (h.verifyKey a) fun _ => h.bind ih fun _ => h.pure _

/-- Checking the index asks for the keys and checks them. -/
theorem verifyIndex : P (verifyIndex db) := h.bind (h.asks _) fun _ => h.verifyKeys _

end Compositional

/-! ## Invariants -/

/-- What holds of the store however an operation ends goes through composition. -/
theorem compositional_preserves (P : Store → Prop) : Compositional (Preserves P) where
  bind := Preserves.bind
  recover hx hh _ := hx.tryCatch hh
  pure := Preserves.pure
  throw := Preserves.throw
  visit := Preserves.visit
  log := Preserves.log
  asks := Preserves.asks
  takeLine := Preserves.takeLine

end Session

/-- States that the removals of an erasure relate, one after another, are related by a pull. -/
theorem Erasure.pull_induction {R : SessionState → SessionState → Prop} (hrefl : ∀ st, R st st)
    (htrans : ∀ {st st' st''}, R st st' → R st' st'' → R st st'') {κ : Type} (n : Nat)
    {e : Erasure κ}
    (h : ∀ k ∈ e.pending, ∀ st, R st (Session.outcome (removal e.remove k) st).2)
    (st : SessionState) : R st ((e.pull n).run st).2 := by
  induction n generalizing e st with
  | zero => exact hrefl st
  | succ n ih =>
    unfold pull next?
    obtain ⟨remove, total, index, pending⟩ := e
    cases pending with
    | nil => exact hrefl st
    | cons k pending =>
      have hstep : R st (Session.outcome (do removal remove k; return (index, k)) st).2 := by
        have hremoval := h k List.mem_cons_self st
        rw [Session.outcome_bind]
        generalize Session.outcome (removal remove k) st = r at hremoval ⊢
        rcases r with ⟨_ | _, _⟩ <;> exact hremoval
      have hrest : ∀ k' ∈ pending, ∀ st, R st (Session.outcome (removal remove k') st).2 :=
        fun k' hk' => h k' (List.mem_cons_of_mem k hk')
      exact htrans hstep (ih (e := ⟨remove, total, index + 1, pending⟩) hrest _)

end TagCache
