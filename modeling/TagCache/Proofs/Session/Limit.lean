import TagCache.Proofs.Session.Everything
import TagCache.Proofs.Session.Script
import TagCache.Proofs.Text.Lines

/-!
# Outputs with a limit

A limit of the output cuts the run of any operation at a line (`output_cuts_at_lines`). What was
done before that line depends on the order of changes and lines. An erasure writes the line of a key
after it is deleted, so it has deleted one key more than it has reported
(`Session.outcome_erase_limited`); a rebuild writes the line of a function before it is built, so it
has built as many functions as it has announced (`Session.outcome_all_limited`). Both rest on this:
neither the deletion of a key nor the building of a function writes a line (`Session.Silent`).
-/

namespace TagCache

open Text (SingleLine)

namespace Session

/-! ## Erasing under a limit -/

/-- A text of one line takes one line of the output. -/
theorem writeLine_eq_takeLine {text : String} (h : SingleLine text) :
    writeLine text = takeLine text := by
  unfold writeLine
  rw [Text.lines_of_singleLine h]
  exact bind_pure_unit

/-- A text without line breaks is written as one line. -/
theorem Writes.writeLine_of_singleLine {s : Store} {text : String} (h : SingleLine text) :
    Writes (Session.writeLine text) s () s [text] := by
  rw [writeLine_eq_takeLine h]
  exact ⟨_, runs_takeLine text, rfl⟩

/-- The report of progress is one line. -/
theorem singleLine_progress (position total : Nat) : SingleLine (progress position total) :=
  .append (.append (Text.singleLine_decimal _) .literal) (Text.singleLine_decimal _)

section
variable {κ σ : Type} {remove : κ → Session Unit} {line : Nat → κ → String}

/-- A drain whose removals write nothing and whose reports are one line each deletes one key more
than the output has room for, if there are as many. -/
theorem outcome_drainFrom_limited (store : σ → Store) (step : σ → κ → σ)
    (hsilent : ∀ k, Silent (remove k))
    (hremove : ∀ x k, Reaches (Erasure.removal remove k) (store x) () (store (step x k)))
    (hline : ∀ i k, SingleLine (line i k)) (keys : List κ) (x : σ) (i n : Nat)
    (before : Array Event) :
    ∃ after, outcome (Erasure.drainFrom remove (fun i k => writeLine (line i k)) i keys)
        ⟨store x, some n, before⟩
      = if keys.length ≤ n then (.ok (), ⟨store (keys.foldl step x), some (n - keys.length), after⟩)
        else (.error .outputFull, ⟨store ((keys.take (n + 1)).foldl step x), some 0, after⟩) := by
  induction keys generalizing x i n before with
  | nil => exact ⟨before, rfl⟩
  | cons k keys ih =>
    obtain ⟨after, hrun⟩ := (hremove x k).outcome_of_silent
      (sequential_silent.removal (hsilent k)) (some n) before
    rw [Erasure.drainFrom, outcome_bind, hrun]
    simp only
    rw [outcome_bind, writeLine_eq_takeLine (hline i k), outcome_takeLine]
    cases n with
    | zero => exact ⟨after, rfl⟩
    | succ n =>
      obtain ⟨after', hrest⟩ := ih (step x k) (i + 1) n (after.push (.wrote (line i k)))
      refine ⟨after', hrest.trans ?_⟩
      rw [List.length_cons, Nat.add_sub_add_right]
      by_cases hle : keys.length ≤ n
      · rw [if_pos hle, if_pos (Nat.succ_le_succ hle)]
        rfl
      · rw [if_neg hle, if_neg fun h => hle (Nat.le_of_succ_le_succ h)]
        rfl

end

end Session

/-- The store with a key deleted, if it is there. -/
def Store.without (s : Store) : CacheKey → Store
  | .contents f => { s with contents := s.contents.map (·.erase f) }
  | .global (.name k) => { s with names := s.names.map (·.erase k) }
  | .global (.address a) => { s with addresses := s.addresses.map (·.erase a) }

/-- What an erasure deletes, in order: the documents of the functions, then the given keys of the
index. -/
def Snapshot.targets (db : Snapshot) (keys : List GlobalKey) : List CacheKey :=
  db.entries.map .contents ++ keys.map .global

section
variable (s : Store) (c : Table Address String) (n : Table String StoredCount)
  (a : Table Address StoredCount)

/-- A store without the documents of functions has erased them from their table. -/
theorem Store.foldl_without_contents (fs : List Address) :
    (fs.map CacheKey.contents).foldl without (s.withTables c n a)
      = s.withTables (fs.foldl Table.erase c) n a := by
  induction fs generalizing c with
  | nil => rfl
  | cons f fs ih => exact ih (c.erase f)

/-- A store without keys of the index has erased them from its tables. -/
theorem Store.foldl_without_global (keys : List GlobalKey) :
    (keys.map CacheKey.global).foldl without (s.withTables c n a)
      = s.withTables c (keys.foldl Session.eraseGlobal (n, a)).1
          (keys.foldl Session.eraseGlobal (n, a)).2 := by
  induction keys generalizing n a with
  | nil => rfl
  | cons k keys ih =>
    cases k with
    | name k => exact ih (n.erase k) a
    | address k => exact ih n (a.erase k)

end

namespace Session

variable {db : Snapshot} {s s' : Store}

/-- Under a limit, the documents of functions are erased one further than there is room for. -/
theorem outcome_drain_contents (db : Snapshot) (s : Store) (c : Table Address String)
    (n : Table String StoredCount) (a : Table Address StoredCount) (total room : Nat)
    (before : Array Event) :
    ∃ after, outcome ((contentsErasure db).drain fun i f =>
        writeLine ("removing the cache for function " ++ f.text ++ " : " ++ progress (1 + i) total))
        ⟨s.withTables c n a, some room, before⟩
      = if db.entries.length ≤ room then (.ok (),
          ⟨s.withTables (db.entries.foldl Table.erase c) n a, some (room - db.entries.length),
            after⟩)
        else (.error .outputFull,
          ⟨s.withTables ((db.entries.take (room + 1)).foldl Table.erase c) n a, some 0,
            after⟩) := by
  have hline (i : Nat) (f : Address) : SingleLine ("removing the cache for function " ++ f.text
      ++ " : " ++ progress (1 + i) total) :=
    .append (.append (.append .literal f.singleLine_text) .literal) (singleLine_progress _ _)
  exact outcome_drainFrom_limited (fun c => s.withTables c n a) Table.erase
    (fun f => sequential_silent.removeContents (Silent.mutate (.removeContents f)))
    (fun c f => reaches_removal_contents s c n a f) hline db.entries c 0 room before

/-- Under a limit, the keys of the index are erased one further than there is room for. -/
theorem outcome_drain_globals (s : Store) (c : Table Address String)
    (x : Table String StoredCount × Table Address StoredCount) (keys : List GlobalKey)
    (start total room : Nat) (before : Array Event) :
    ∃ after, outcome ((Erasure.ofKeys (fun k => mutate (.removeGlobal k)) keys).drain fun i k =>
        writeLine ("removing the global " ++ k.text ++ " from the index : "
          ++ progress (1 + start + i) total)) ⟨s.withTables c x.1 x.2, some room, before⟩
      = if keys.length ≤ room then (.ok (), ⟨s.withTables c (keys.foldl eraseGlobal x).1
          (keys.foldl eraseGlobal x).2, some (room - keys.length), after⟩)
        else (.error .outputFull, ⟨s.withTables c ((keys.take (room + 1)).foldl eraseGlobal x).1
          ((keys.take (room + 1)).foldl eraseGlobal x).2, some 0, after⟩) := by
  have hline (i : Nat) (k : GlobalKey) : SingleLine ("removing the global " ++ k.text
      ++ " from the index : " ++ progress (1 + start + i) total) :=
    .append (.append (.append .literal k.singleLine_text) .literal) (singleLine_progress _ _)
  exact outcome_drainFrom_limited (fun x => s.withTables c x.1 x.2) eraseGlobal
    (fun k => Silent.mutate (.removeGlobal k)) (fun x k => reaches_removal_globals s c x.1 x.2 k)
    hline keys x 0 room before

/-- With less room than targets, an erasure deletes one target more than the output has room
for. -/
theorem outcome_erase_limited (hs : s.HasTables) {keys : List GlobalKey}
    (hkeys : s.globalKeys = .ok keys) {n : Nat} (hn : n < (db.targets keys).length) :
    ∃ events, outcome (erase db) (.start s (some n)) = (.error .outputFull,
      ⟨((db.targets keys).take (n + 1)).foldl Store.without s, some 0, events⟩) := by
  obtain ⟨s, c, names, addresses, rfl⟩ := hs.exists_eq
  have hasked (c' : Table Address String) :
      (s.withTables c' names addresses).globalKeys = .ok keys := hkeys
  have hlength : n < db.entries.length + keys.length := by
    simpa [Snapshot.targets] using hn
  have htargets : (db.targets keys).take (n + 1) = (db.entries.take (n + 1)).map .contents
      ++ (keys.take (n + 1 - db.entries.length)).map .global := by
    rw [Snapshot.targets, List.take_append, List.length_map, List.map_take, List.map_take]
  rw [htargets, List.foldl_append, Store.foldl_without_contents, Store.foldl_without_global]
  simp only [erase, globalsErasure, bind_assoc, pure_bind]
  rw [outcome_bind, outcome_asks]
  simp only [SessionState.start, hasked]
  generalize (contentsErasure db).total + keys.length = total
  obtain ⟨after, hcontents⟩ := outcome_drain_contents db s c names addresses total n #[]
  rw [outcome_bind, hcontents]
  -- the limit is met among the documents, or behind all of them among the keys
  by_cases hle : db.entries.length ≤ n
  · rw [if_pos hle, List.take_of_length_le (Nat.le_succ_of_le hle), Nat.succ_sub hle]
    obtain ⟨after', hglobals⟩ := outcome_drain_globals s (db.entries.foldl Table.erase c)
      (names, addresses) keys (contentsErasure db).total total (n - db.entries.length) after
    rw [if_neg (by omega)] at hglobals
    simp only
    rw [outcome_bind, outcome_asks, hasked]
    simp only
    rw [outcome_bind, hglobals]
    exact ⟨after', rfl⟩
  · rw [if_neg hle, Nat.sub_eq_zero_of_le (Nat.not_le.1 hle), List.take_zero]
    exact ⟨after, rfl⟩

/-! ## Rebuilding under a limit -/

/-- Building an address writes nothing. -/
theorem silent_contents (db : Snapshot) (a : Address) : Silent (contents db a) :=
  sequential_silent.contents fun _ m _ _ => Silent.mutate m

/-- Build the contents caches of functions in order, without a word. -/
def buildEach (db : Snapshot) (fs : List Address) : Session Unit :=
  fs.forM fun f => discard (contents db f)

/-- Building an address follows a script. -/
theorem scripted_contents (db : Snapshot) (a : Address) : Scripted (contents db a) :=
  compositional_scripted.contents fun _ m _ _ => Scripted.mutate m

/-- It does so if its result is discarded. -/
theorem scripted_discard_contents (db : Snapshot) (a : Address) :
    Scripted (discard (contents db a)) := compositional_scripted.discard (scripted_contents db a)

/-- Building functions in a row follows a script. -/
theorem scripted_buildEach (db : Snapshot) (fs : List Address) : Scripted (buildEach db fs) :=
  compositional_scripted.forM fun f _ => scripted_discard_contents db f

/-- With less room than functions, as many functions are built as the output has room for, if that
succeeds. -/
theorem outcome_allContents_limited (total position : Nat) {fs : List Address} {n : Nat}
    (hn : n < fs.length) (h : Reaches (buildEach db (fs.take n)) s () s') (before : Array Event) :
    ∃ after, outcome (allContents db total position fs) ⟨s, some n, before⟩
      = (.error .outputFull, ⟨s', some 0, after⟩) := by
  induction fs generalizing s n position before with
  | nil => cases hn
  | cons f fs ih =>
    have hline : SingleLine ("updating the cache for the tags belonging to function (" ++ f.text
        ++ ") : " ++ progress position total) :=
      .append (.append (.append .literal f.singleLine_text) .literal)
        (singleLine_progress _ _)
    rw [allContents, outcome_bind, writeLine_eq_takeLine hline, outcome_takeLine]
    cases n with
    | zero =>
      obtain ⟨es, h⟩ := h
      obtain ⟨-, hstate⟩ := Prod.mk.inj (h before)
      obtain ⟨rfl, -, -⟩ := SessionState.mk.inj hstate
      exact ⟨before, rfl⟩
    | succ n =>
      have hn : n < fs.length := Nat.lt_of_succ_lt_succ hn
      obtain ⟨⟨⟩, s₁, hfirst, hrest⟩ := Reaches.of_bind (scripted_discard_contents db f)
        (fun _ => scripted_buildEach db (fs.take n)) h
      obtain ⟨after, hrun⟩ := hfirst.outcome_of_silent
        (sequential_silent.discard (silent_contents db f)) (some n) _
      obtain ⟨after', hlast⟩ := ih (position + 1) hn hrest after
      refine ⟨after', ?_⟩
      simp only [SessionState.note]
      rw [outcome_bind, hrun]
      exact hlast

/-- Under an output with room for fewer lines than functions, building everything stops behind the
functions that it has lines for. -/
theorem outcome_all_limited {n : Nat} (hn : n < db.entries.length)
    (h : Reaches (buildEach db (db.entries.take n)) s () s') :
    ∃ events, outcome (all db) (.start s (some n))
      = (.error .outputFull, ⟨s', some 0, events⟩) := by
  obtain ⟨after, hrun⟩ := outcome_allContents_limited db.entries.length 1 hn h #[]
  refine ⟨after, ?_⟩
  show outcome (all db) ⟨s, some n, #[]⟩ = _
  rw [all, outcome_bind, hrun]

end Session

open Session

/-- A limit of the output cuts a run at a line, whatever the snapshot and the store are: the
operations that write lines do under it what they do without a limit before the line that is one too
many. So an erasure has deleted one target more than it has reported, and a rebuild has built the
functions that it has announced. -/
theorem output_cuts_at_lines (db : Snapshot) (s : Store) :
    (∀ n,
      CutAt n s (outcome (globals db) (.start s none)) (outcome (globals db) (.start s (some n))) ∧
      CutAt n s (outcome (all db) (.start s none)) (outcome (all db) (.start s (some n))) ∧
      CutAt n s (outcome (everything db) (.start s none))
        (outcome (everything db) (.start s (some n))) ∧
      CutAt n s (outcome (erase db) (.start s none)) (outcome (erase db) (.start s (some n)))) ∧
    (s.HasTables → ∀ keys, s.globalKeys = .ok keys → ∀ n < (db.targets keys).length,
      ∃ events, outcome (erase db) (.start s (some n)) = (.error .outputFull,
        ⟨((db.targets keys).take (n + 1)).foldl Store.without s, some 0, events⟩)) ∧
    ∀ n < db.entries.length,
      (outcome (buildEach db (db.entries.take n)) (.start s none)).1 = .ok () →
      ∃ events, outcome (all db) (.start s (some n)) = (.error .outputFull,
        ⟨(outcome (buildEach db (db.entries.take n)) (.start s none)).2.store, some 0, events⟩) := by
  have hglobals : Scripted (globals db) :=
    compositional_scripted.globals fun m _ => Scripted.mutate m
  have hall : Scripted (all db) :=
    compositional_scripted.all (fun f _ => scripted_contents db f) hglobals
  have herase : Scripted (erase db) :=
    compositional_scripted.erase (fun _ _ => Scripted.mutate _) fun _ => Scripted.mutate _
  have heverything : Scripted (everything db) := compositional_scripted.everything herase hall
  refine ⟨fun n => ⟨hglobals.cutAt s n, hall.cutAt s n, heverything.cutAt s n, herase.cutAt s n⟩,
    fun hs keys hkeys n hn => outcome_erase_limited hs hkeys hn, fun n hn hbuilt => ?_⟩
  exact outcome_all_limited hn ((scripted_buildEach db _).reaches hbuilt)

/-- The erasure of the sample is cut behind one line, and its build before the first one. -/
theorem output_cuts_at_lines_small :
    Store.stale.HasTables ∧ Store.stale.globalKeys = .ok [.name "stale"] ∧
    (∃ events, outcome (erase .small) (.start .stale (some 1)) = (.error .outputFull,
      ⟨{ Store.stale with contents := some (.ofList [(48, "kept")]), names := some ∅ },
        some 0, events⟩)) ∧
    ∃ events, outcome (all .small) (.start .stale (some 0))
      = (.error .outputFull, ⟨.stale, some 0, events⟩) := by
  obtain ⟨-, herase, hall⟩ := output_cuts_at_lines .small .stale
  have hkeys : Store.stale.globalKeys = .ok [.name "stale"] := rfl
  exact ⟨Store.hasTables_stale, hkeys, herase Store.hasTables_stale _ hkeys 1 (by decide),
    hall 0 (by decide) rfl⟩

end TagCache
