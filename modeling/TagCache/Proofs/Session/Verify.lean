import TagCache.Proofs.Recount
import TagCache.Proofs.Session.Everything

/-!
# Verification under an output without a limit

The check of a function's cache goes through its stages in order, with one run for each stage that
may end it, and accepts exactly the counts that a recount explains
(`Session.verifyContents_eq_true_iff`): the fields are the expected ones, both tables decode, the
cached addresses lie in the function, and the counts are those of the tags at the cached addresses
with some implicit tags of the entry point left out (`Recount.Explains`). An accepted cache is
reported in silence (`Finding.lines_eq_nil_of_accepts`).
-/

namespace TagCache

/-! ## Stages of the check -/

/-- Sets of which neither has a key beyond the other are the same. -/
theorem Table.keysBeyond_eq_nil_and_iff {κ : Type} [Ord κ] [Std.TransOrd κ] [Std.LawfulEqOrd κ]
    {s t : KeySet κ} : s.keysBeyond t = [] ∧ t.keysBeyond s = [] ↔ t = s := by
  rw [keysBeyond_eq_nil_iff, keysBeyond_eq_nil_iff]
  constructor
  · rintro ⟨h, h'⟩
    exact ext_contains fun k => by rw [Bool.eq_iff_iff]; exact ⟨h k, h' k⟩
  · rintro rfl; exact ⟨fun _ h => h, fun _ h => h⟩

/-- Nothing is wrong with the fields of an entry that has the expected ones. -/
theorem checkFields_eq_none_iff {f : Address} {e : Entry} :
    checkFields f e = none ↔ e.keys = expectedFields := by
  rw [← Table.keysBeyond_eq_nil_and_iff]
  unfold checkFields
  dsimp only
  split
  · next h => simp_all
  · split <;> simp_all

/-- What is wrong with the fields is not accepted. -/
theorem accepts_of_checkFields {f : Address} {e : Entry} {finding : Finding}
    (h : checkFields f e = some finding) : finding.accepts = false := by
  unfold checkFields at h
  dsimp only at h
  split at h
  · cases h; rfl
  · split at h
    · cases h; rfl
    · cases h

/-- There are no strays if every cached address is in the function. -/
theorem checkStrays_eq_none_iff {db : Snapshot} {f : Address} {cached : Counts} :
    checkStrays db f cached = none ↔
      ∀ a, cached.addresses.contains a = true → db.functionContains f a = true := by
  simp only [← Table.mem_keys_iff_contains]
  unfold checkStrays
  dsimp only
  split
  · next h => simpa using h
  · next h => simpa using h

/-- Strays are not accepted. -/
theorem accepts_of_checkStrays {db : Snapshot} {f : Address} {cached : Counts} {finding : Finding}
    (h : checkStrays db f cached = some finding) : finding.accepts = false := by
  unfold checkStrays at h
  dsimp only at h
  split at h
  · cases h
  · cases h; rfl

/-- An accepted cache has nothing to report. -/
theorem Finding.lines_eq_nil_of_accepts {finding : Finding} (a : Address)
    (h : finding.accepts = true) : finding.lines a = [] := by
  unfold accepts at h
  split at h
  · rfl
  · cases h

namespace Session

variable {db : Snapshot} {s : Store} {a f : Address} {e : Entry} {cached : Counts}

/-! ## Runs of the check -/

/-- The lines of a report are written one by one. -/
def reportEvents (a : Address) (finding : Finding) : List Event :=
  (finding.lines a).flatMap fun l => (Text.lines l).map .wrote

/-- A report runs, adds its events and tells whether the finding is accepted. -/
theorem runs_report (a : Address) (finding : Finding) :
    Runs (report a finding) s finding.accepts s (reportEvents a finding) := by
  have h : Runs (report a finding) s finding.accepts s (reportEvents a finding ++ []) :=
    (runs_forM runs_writeLine (finding.lines a)).bind Runs.pure
  rwa [List.append_nil] at h

/-- A cache with the wrong fields is rejected. -/
theorem runs_verifyContents_of_fields {finding : Finding} (ha : db.functionOf? a = some f)
    (he : s.readContents f = .ok (some e)) (hfields : checkFields f e = some finding) :
    Runs (verifyContents db a) s finding.accepts s (reportEvents a finding) := by
  unfold verifyContents
  rw [ha]
  show Runs _ _ _ _ ([] ++ _)
  refine (runs_asks he).bind ?_
  simp only [hfields]
  exact runs_report a finding

/-- A cache with a stray address is rejected. -/
theorem runs_verifyContents_of_strays {finding : Finding} (ha : db.functionOf? a = some f)
    (he : s.readContents f = .ok (some e)) (hfields : checkFields f e = none)
    (hcounts : e.counts = .ok cached) (hstrays : checkStrays db f cached = some finding) :
    Runs (verifyContents db a) s finding.accepts s (reportEvents a finding) := by
  unfold verifyContents
  rw [ha]
  show Runs _ _ _ _ ([] ++ _)
  refine (runs_asks he).bind ?_
  simp only [hfields, hcounts, hstrays]
  exact runs_report a finding

/-- A cache that passes so far is compared with the recount. -/
theorem runs_verifyContents_of_recount (ha : db.functionOf? a = some f)
    (he : s.readContents f = .ok (some e)) (hfields : checkFields f e = none)
    (hcounts : e.counts = .ok cached) (hstrays : checkStrays db f cached = none) :
    Runs (verifyContents db a) s (compareCounts f cached (Recount.found db f cached)).accepts s
      (cached.addresses.keys.flatMap (fun b => [.visited b])
        ++ reportEvents a (compareCounts f cached (Recount.found db f cached))) := by
  unfold verifyContents
  rw [ha]
  show Runs _ _ _ _ ([] ++ (_ ++ _))
  refine (runs_asks he).bind ?_
  simp only [hfields, hcounts, hstrays]
  exact (runs_forM runs_visit _).bind (runs_report a _)

/-- A cache whose tables do not decode is an error. -/
theorem outcome_verifyContents_of_malformed {reason : Malformation} (ha : db.functionOf? a = some f)
    (he : s.readContents f = .ok (some e)) (hfields : checkFields f e = none)
    (hcounts : e.counts = .error reason) (room : Option Nat) :
    outcome (verifyContents db a) (.start s room)
      = (.error (.malformedEntry (.contents f) reason), .start s room) := by
  unfold verifyContents
  rw [ha]
  simp only
  rw [outcome_bind, outcome_asks]
  have hread : (SessionState.start s room).store.readContents f = .ok (some e) := he
  simp only [hread, hfields, hcounts]
  rfl

/-- The check accepts a cache that passes all its stages. -/
theorem verifyContents_eq_true_iff (ha : db.functionOf? a = some f)
    (he : s.readContents f = .ok (some e)) :
    (outcome (verifyContents db a) (.start s none)).1 = .ok true ↔
      e.keys = expectedFields ∧ ∃ cached, e.counts = .ok cached ∧
        (∀ b, cached.addresses.contains b = true → db.functionContains f b = true) ∧
        ∃ dropped, Recount.Explains db f dropped cached := by
  rw [← checkFields_eq_none_iff]
  cases hfields : checkFields f e with
  | some finding =>
    have hresult := (runs_verifyContents_of_fields ha he hfields).reaches.result
    rw [hresult, accepts_of_checkFields hfields]
    simp
  | none =>
    cases hcounts : e.counts with
    | error reason =>
      rw [outcome_verifyContents_of_malformed ha he hfields hcounts]
      simp
    | ok cached =>
      cases hstrays : checkStrays db f cached with
      | some finding =>
        have hresult := (runs_verifyContents_of_strays ha he hfields hcounts hstrays).reaches.result
        have hout : ¬∀ b, cached.addresses.contains b = true → db.functionContains f b = true := by
          rw [← checkStrays_eq_none_iff, hstrays]
          simp
        rw [hresult, accepts_of_checkStrays hstrays]
        simp [hout]
      | none =>
        have hresult :=
          (runs_verifyContents_of_recount ha he hfields hcounts hstrays).reaches.result
        have hin := checkStrays_eq_none_iff.1 hstrays
        rw [hresult, Except.ok.injEq, compareCounts_accepts_iff, Recount.eq_found_iff]
        constructor
        · exact fun h => ⟨rfl, cached, rfl, hin, h⟩
        · rintro ⟨-, _, hc, -, h⟩
          cases hc
          exact h

end Session

/-- The check of a function's cache accepts exactly the counts that a recount explains. -/
theorem verifyContents_accepts_iff {db : Snapshot} (hdb : db.check = .ok ()) {f : FunctionInfo}
    (hf : f ∈ db.functions) {a : Address} (ha : f.contains a = true) {s : Store} {e : Entry}
    (he : s.readContents f.entry = .ok (some e)) :
    (Session.outcome (Session.verifyContents db a) (.start s none)).1 = .ok true ↔
      e.keys = expectedFields ∧ ∃ cached, e.counts = .ok cached ∧
        (∀ b, cached.addresses.contains b = true → f.contains b = true) ∧
        ∃ dropped, Recount.Explains db f.entry dropped cached := by
  have hwf := Snapshot.check_eq_ok_iff.1 hdb
  rw [Session.verifyContents_eq_true_iff (hwf.functionOf?_of_contains hf ha) he]
  simp only [hwf.functionContains_entry hf]

/-- A snapshot of one function whose entry point has a name and no other tag. -/
def Snapshot.named : Snapshot :=
  ((Snapshot.empty 0 64).withFunction 16 16 32).withTag 16 nameTag .null

/-- The counts of that function with the name left out. -/
def Counts.unnamed : Counts := ⟨Table.ofList [(16, 0)], ∅⟩

/-- The sample counts hold a single address, with the count zero. -/
theorem Counts.find?_unnamed {a : Address} {m : Nat} (h : unnamed.addresses.find? a = some m) :
    a = 16 ∧ m = 0 := by
  have hentries : unnamed.addresses.entries = [(16, 0)] := rfl
  have hmem := Table.find?_eq_some_iff.1 h
  rw [hentries, List.mem_singleton] at hmem
  exact Prod.mk.inj hmem

/-- The sample counts fit. -/
theorem Counts.fits_unnamed : unnamed.Fits where
  addresses a n h := by
    rw [(find?_unnamed h).2]
    decide
  names _ _ h := by cases h

/-- Dropping the name explains the sample counts. -/
theorem Recount.explains_unnamed :
    Explains .named 16 (KeySet.ofList [nameTag]) .unnamed where
  implicit k hk := by
    rw [List.mem_singleton.1 (KeySet.contains_ofList.1 hk)]
    decide
  uncached h := by cases h
  tagged a ha := by
    obtain ⟨m, hm⟩ := Option.isSome_iff_exists.1 ha
    rw [(Counts.find?_unnamed hm).1]
    rfl
  addresses a m hm := by
    obtain ⟨rfl, rfl⟩ := Counts.find?_unnamed hm
    decide
  names k m := by
    have hkeys : Counts.unnamed.addresses.keys = [16] := rfl
    have htags : tagsWithout .named 16 (KeySet.ofList [nameTag]) 16 = ∅ := by decide
    rw [hkeys, List.countP_singleton, htags]
    constructor
    · intro h; cases h
    · rintro ⟨rfl, h⟩; exact absurd rfl h

/-- The check accepts a cached count of zero at an entry point whose only tag is left out. -/
theorem verifyContents_accepts_unnamed :
    Snapshot.named.check = .ok () ∧
      ∃ f ∈ Snapshot.named.functions, ∃ s : Store, ∃ e, f.contains 16 = true ∧
      s.readContents f.entry = .ok (some e) ∧
      (Session.outcome (Session.verifyContents .named 16) (.start s none)).1 = .ok true := by
  have hf : (⟨16, [⟨16, 32⟩], ∅⟩ : FunctionInfo) ∈ Snapshot.named.functions := List.mem_cons_self
  have htext : { Store.stale with contents := some (Table.ofList
      [(16, (Entry.ofCounts (.contents 16) .unnamed).text)]) }.document? 16
      = some (Entry.ofCounts (.contents 16) .unnamed).text := rfl
  have he := Store.readContents_of_document? htext
  rw [Entry.parse_ofCounts _ Counts.fits_unnamed] at he
  refine ⟨rfl, _, hf, _, _, rfl, he, ?_⟩
  rw [verifyContents_accepts_iff rfl hf rfl he]
  refine ⟨Entry.keys_ofCounts _ _, _, Entry.counts_ofCounts _ _, fun b hb => ?_, _,
    Recount.explains_unnamed⟩
  obtain ⟨m, hm⟩ := Option.isSome_iff_exists.1 hb
  rw [(Counts.find?_unnamed hm).1]
  rfl

end TagCache
