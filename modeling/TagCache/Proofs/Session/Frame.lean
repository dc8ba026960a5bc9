import TagCache.Proofs.Session.Compositional
import TagCache.Proofs.Snapshot.WellFormed

/-!
# What no operation touches

Under any output, and however it ends, an operation under a snapshot leaves the documents of all
other functions alone, with the history and the tables' presence
(`Operation.frames_run`, `Erasure.sameOutside_pull`): the functions whose documents it changes are
those that the snapshot names. The snapshot need not be well-formed.
-/

namespace TagCache

open Session

/-- The operation leaves the documents of functions that the snapshot does not name alone. -/
abbrev Snapshot.Frames (db : Snapshot) (s₀ : Store) {α : Type} (x : Session α) : Prop :=
  Preserves (Store.SameOutside db.foreign s₀) x

namespace Session

variable {db : Snapshot} {s₀ : Store}

/-- A change frames if its function is one of the snapshot. -/
theorem frames_mutate {m : Mutation} (hm : ∀ f, m.function? = some f → f ∈ db.entries) :
    db.Frames s₀ (mutate m) :=
  Preserves.mutate fun s h =>
    h.trans (m.apply_sameOutside (fun f hf => Snapshot.foreign_eq_false_iff.2 (hm f hf)) s)

/-! ## Implicit tags -/

/-- An implicit tag is counted with the function that owns its address, if that is not the entry
point. -/
theorem implicitPartition_eq_contents_iff {a f : Address} :
    implicitPartition db a = .contents f ↔ db.functionOf? a = some f ∧ a ≠ f := by
  unfold implicitPartition
  cases db.functionOf? a with
  | none => simp
  | some g =>
    by_cases hga : g = a
    · subst hga
      rw [Option.some.injEq]
      simp
    · rw [Option.some.injEq]
      simp only [hga, if_false, Partition.contents.injEq]
      refine ⟨fun hgf => ⟨hgf, ?_⟩, And.left⟩
      rintro rfl
      exact hga hgf

/-- An implicit tag is counted in the index or with a function of the snapshot. -/
theorem mem_entries_of_implicitPartition {a f : Address}
    (h : implicitPartition db a = .contents f) : f ∈ db.entries :=
  Snapshot.mem_entries_of_functionOf? (implicitPartition_eq_contents_iff.1 h).1

/-! ## Operations and checks -/

/-- Building an address keeps what the snapshot has no part in. -/
theorem frames_contents (a : Address) : db.Frames s₀ (contents db a) := by
  refine (compositional_preserves _).contents fun f m hf hm => frames_mutate fun g hg => ?_
  rw [Option.some.inj (hg.symm.trans hm)]
  exact Snapshot.mem_entries_of_functionOf? hf

/-- Adding an implicit reference keeps what the snapshot has no part in. -/
theorem frames_increment (a : Address) (name : String) :
    db.Frames s₀ (mutate (.increment (implicitPartition db a) a name)) := by
  refine frames_mutate fun f hf => ?_
  cases hp : implicitPartition db a with
  | globals =>
    rw [hp] at hf
    cases hf
  | contents g =>
    rw [hp] at hf
    cases hf
    exact mem_entries_of_implicitPartition hp

/-- Removing the document of a function of the snapshot keeps the others. -/
theorem frames_removeContents {f : Address} (hf : f ∈ db.entries) :
    db.Frames s₀ (do visit f; mutate (.removeContents f)) := by
  refine (compositional_preserves _).removeContents (frames_mutate ?_)
  rintro _ ⟨⟩
  exact hf

/-- Removing a key of the index keeps all documents. -/
theorem frames_removeGlobal (k : GlobalKey) : db.Frames s₀ (mutate (.removeGlobal k)) := by
  refine frames_mutate ?_
  rintro _ ⟨⟩

/-- Checking a function changes nothing. -/
theorem frames_verifyContents (a : Address) : db.Frames s₀ (verifyContents db a) :=
  (compositional_preserves _).verifyContents a

/-- Checking the index changes nothing. -/
theorem frames_verifyIndex : db.Frames s₀ (verifyIndex db) :=
  (compositional_preserves _).verifyIndex

end Session

variable {db : Snapshot} {s₀ : Store}

/-- No operation touches a document of a function that the snapshot does not name. -/
theorem Operation.frames_run (op : Operation) : db.Frames s₀ (op.run db) := by
  refine (compositional_preserves _).run op frames_contents (fun m hm => frames_mutate ?_)
    (fun a _ name => frames_increment a name) fun f hf => frames_mutate ?_
  · intro f hf
    rw [hm] at hf
    cases hf
  · rintro _ ⟨⟩
    exact hf

/-- Nor does a pull of an erasure, if none of its removals does. -/
theorem Erasure.sameOutside_pull {κ : Type} (n : Nat) {e : Erasure κ} {st : SessionState}
    (h : ∀ k ∈ e.pending, db.Frames s₀ (e.remove k))
    (hst : Store.SameOutside db.foreign s₀ st.store) :
    Store.SameOutside db.foreign s₀ ((e.pull n).run st).2.store := by
  have hframe : ∀ k ∈ e.pending, db.Frames s₀ (removal e.remove k) :=
    fun k hk => (compositional_preserves _).removal (h k hk)
  exact pull_induction (R := fun st st' => Store.SameOutside db.foreign s₀ st.store →
    Store.SameOutside db.foreign s₀ st'.store) (fun _ => id) (fun h h' => h' ∘ h) n hframe st hst

end TagCache
