import Mathlib.Data.List.Induction
import TagCache.Proofs.Store.Documents
import TagCache.Proofs.Store.Raise

/-!
# What is done to a key of the index

Calls of the store give a key of the index a count, raise it, or remove it (`KeyEvent`,
`StoreCall.event?`). A row of the index depends on nothing else. Of these events only the last ones
count: what the key was last given and how often it was raised since (`KeyEvent.Since`). They tell
what its row holds (`KeyEvent.Since.row_eq`): the sum cut to 64 bits, or a real number once a raise
met the greatest signed word (`KeyEvent.overflowed_iff`). One call does to a row what it does to the
key (`Store.row?_run`), and so do many (`Store.row?_replay`).
-/

namespace TagCache

/-! ## Calls and the keys that they are about -/

/-- What is done to one key of the index. -/
inductive KeyEvent where
  /-- It is given a count. -/
  | given (n : Nat)
  /-- Its count is raised by one. A key that is absent is created. -/
  | raised
  | removed
deriving DecidableEq, Repr

namespace StoreCall

/-- What a call does to a key of the index, if anything. -/
def event? (k : GlobalKey) : StoreCall → Option KeyEvent
  | .change (.setNames .globals t) =>
    match k with
    | .name n => (t.find? n).map .given
    | .address _ => none
  | .change (.setAddresses .globals t) =>
    match k with
    | .name _ => none
    | .address a => (t.find? a).map .given
  | .change (.increment .globals a n) => if k = .name n ∨ k = .address a then some .raised else none
  | .change (.removeGlobal k') => if k = k' then some .removed else none
  | .deleteAll .globals => some .removed
  | _ => none

/-- What calls do to a key of the index, in order. -/
def events (k : GlobalKey) (calls : List StoreCall) : List KeyEvent := calls.filterMap (event? k)

end StoreCall

namespace KeyEvent

/-- The key is there: it was last given the count `c` and raised `n` times since, or it was created
by the first of `n` raises since, from the count zero. -/
inductive Since : List KeyEvent → Nat → Nat → Prop
  | given (before : List KeyEvent) (c n : Nat) :
    Since (before ++ .given c :: List.replicate n .raised) c n
  | created (n : Nat) : Since (List.replicate (n + 1) .raised) 0 (n + 1)
  | recreated (before : List KeyEvent) (n : Nat) :
    Since (before ++ .removed :: List.replicate (n + 1) .raised) 0 (n + 1)

/-- The key is not there: nothing made it, or it was removed last. -/
inductive Absent : List KeyEvent → Prop
  | never : Absent []
  | removed (before : List KeyEvent) : Absent (before ++ [.removed])

/-- One of `n` raises from a count meets the greatest signed word. -/
def Crosses (c n : Nat) : Prop := ∃ m < n, (c + m) % 2 ^ 64 = 2 ^ 63 - 1

/-- Since the key was last given a count or created, it was raised at the greatest signed word. -/
def Overflowed (events : List KeyEvent) : Prop := ∃ c n, Since events c n ∧ Crosses c n

instance (c n : Nat) : Decidable (Crosses c n) := inferInstanceAs (Decidable (∃ m < n, _))

/-- The row of a key after an event. -/
def after (row : Option StoredCount) : KeyEvent → Option StoredCount
  | .given n => some (.ofNat n)
  | .raised => some (.raised row)
  | .removed => none

/-- The row of a key after events. -/
def row (events : List KeyEvent) : Option StoredCount := events.foldl after none

end KeyEvent

/-! ## Counts that are raised in a row -/

/-- The next row after a count of 64 bits becomes a real number at the largest signed word only. -/
theorem StoredCount.next_ofNat_eq (n : Nat) : (ofNat n).next
    = if n % 2 ^ 64 = 2 ^ 63 - 1 then .real else .ofNat (n + 1) := by
  have hmod : ofNat (n % UInt64.size) = ofNat n := congrArg whole UInt64.ofNat_mod_size
  have hsize : UInt64.size = 2 ^ 64 := rfl
  split
  · next hlimit =>
    rw [← hmod, hsize, hlimit]
    rfl
  · next hlimit =>
    have hlt : n % UInt64.size < UInt64.size := Nat.mod_lt _ (by decide)
    rw [← hmod, next_ofNat hlt hlimit]
    refine congrArg whole ?_
    rw [UInt64.ofNat_add, UInt64.ofNat_mod_size, ← UInt64.ofNat_add]

namespace KeyEvent

/-- One raise more meets the limit itself, or one before it did. -/
theorem crosses_succ {c n : Nat} :
    Crosses c (n + 1) ↔ Crosses c n ∨ (c + n) % 2 ^ 64 = 2 ^ 63 - 1 := by
  constructor
  · rintro ⟨m, hm, hlimit⟩
    obtain hm | rfl := Nat.lt_succ_iff_lt_or_eq.1 hm
    · exact .inl ⟨m, hm, hlimit⟩
    · exact .inr hlimit
  · rintro (⟨m, hm, hlimit⟩ | hlimit)
    · exact ⟨m, Nat.lt_succ_of_lt hm, hlimit⟩
    · exact ⟨n, Nat.lt_succ_self n, hlimit⟩

/-- A count that is raised stays a word, cut to 64 bits, until it meets the limit. -/
theorem iterate_next_ofNat (c n : Nat) : StoredCount.next^[n] (.ofNat c)
    = if Crosses c n then .real else .ofNat (c + n) := by
  induction n with
  | zero =>
    have hnone : ¬Crosses c 0 := fun ⟨m, hm, _⟩ => absurd hm (Nat.not_lt_zero m)
    rw [if_neg hnone]
    rfl
  | succ n ih =>
    rw [Function.iterate_succ_apply', ih, if_congr crosses_succ rfl rfl]
    by_cases hcrossed : Crosses c n
    · rw [if_pos hcrossed, if_pos (.inl hcrossed)]
      rfl
    · rw [if_neg hcrossed, StoredCount.next_ofNat_eq]
      simp only [hcrossed, false_or]
      rfl

/-! ## Rows after events -/

variable {events : List KeyEvent} {c n : Nat}

/-- The row after one event more. -/
theorem row_append (events : List KeyEvent) (e : KeyEvent) :
    row (events ++ [e]) = after (row events) e := by
  rw [row, List.foldl_append]
  rfl

/-- Raising a row several times moves it on as often. -/
theorem foldl_after_raised (v : StoredCount) (n : Nat) :
    (List.replicate n .raised).foldl after (some v) = some (StoredCount.next^[n] v) := by
  induction n generalizing v with
  | zero => rfl
  | succ n ih => exact ih v.next

/-- What a key was last given and how often it was raised since is all that its row depends on. -/
theorem Since.row_eq (h : Since events c n) :
    row events = some (if Crosses c n then .real else .ofNat (c + n)) := by
  rw [← iterate_next_ofNat]
  have hcreated (n : Nat) : (List.replicate (n + 1) .raised).foldl after none
      = some (StoredCount.next^[n + 1] (.ofNat 0)) := foldl_after_raised (.whole 1) n
  cases h with
  | given before c n =>
    rw [row, List.foldl_append]
    exact foldl_after_raised (.ofNat c) n
  | created n => exact hcreated n
  | recreated before n =>
    rw [row, List.foldl_append]
    exact hcreated n

/-- A key that was not given or raised since its removal has no row. -/
theorem Absent.row_eq (h : Absent events) : row events = none := by
  cases h with
  | never => rfl
  | removed before => exact row_append before .removed

/-- A raise counts on from what the key was last given. -/
theorem Since.raise (h : Since events c n) : Since (events ++ [.raised]) c (n + 1) := by
  cases h with
  | given before c n =>
    rw [List.append_assoc, List.cons_append, ← List.replicate_succ']
    exact .given before c (n + 1)
  | created n =>
    rw [← List.replicate_succ']
    exact .created (n + 1)
  | recreated before n =>
    rw [List.append_assoc, List.cons_append, ← List.replicate_succ']
    exact .recreated before (n + 1)

/-- A key is absent, or there with a history. -/
theorem absent_or_since (events : List KeyEvent) :
    Absent events ∨ ∃ c n, Since events c n := by
  induction events using List.reverseRecOn with
  | nil => exact .inl .never
  | append_singleton events e ih =>
    cases e with
    | given c => exact .inr ⟨c, 0, .given events c 0⟩
    | removed => exact .inl (.removed events)
    | raised =>
      obtain habsent | ⟨c, n, hsince⟩ := ih
      · cases habsent with
        | never => exact .inr ⟨0, 1, .created 0⟩
        | removed before =>
          rw [List.append_assoc]
          exact .inr ⟨0, 1, .recreated before 0⟩
      · exact .inr ⟨c, n + 1, hsince.raise⟩

/-- A key is absent exactly if it has no row. -/
theorem absent_iff : Absent events ↔ row events = none := by
  refine ⟨Absent.row_eq, fun hrow => (absent_or_since events).resolve_right ?_⟩
  rintro ⟨c, n, hsince⟩
  rw [hsince.row_eq] at hrow
  cases hrow

/-- A key has overflowed exactly if its row is a real number. -/
theorem overflowed_iff : Overflowed events ↔ row events = some .real := by
  constructor
  · rintro ⟨c, n, hsince, hcrosses⟩
    rw [hsince.row_eq, if_pos hcrosses]
  · intro hrow
    obtain habsent | ⟨c, n, hsince⟩ := absent_or_since events
    · rw [habsent.row_eq] at hrow
      cases hrow
    · refine ⟨c, n, hsince, ?_⟩
      by_contra hcrosses
      rw [hsince.row_eq, if_neg hcrosses] at hrow
      cases hrow

/-- What ends an overflow is a count that is given or a removal. -/
theorem overflowed_append_iff (h : Overflowed events) (e : KeyEvent) :
    Overflowed (events ++ [e]) ↔ e = .raised := by
  rw [overflowed_iff, row_append, overflowed_iff.1 h]
  cases e <;> simp [after, StoredCount.ofNat, StoredCount.raised, StoredCount.next]

end KeyEvent

/-! ## Rows after calls -/

/-- The row of a key of the index. -/
def Store.row? (s : Store) : GlobalKey → Option StoredCount
  | .name n => s.nameCount? n
  | .address a => s.addressCount? a

namespace StoreCall

section
variable {κ : Type} [Ord κ] [Std.TransOrd κ] [Std.LawfulEqOrd κ]

/-- Laying counts over a table gives their keys new rows. -/
theorem find?_overlay_given (u : Table κ Nat) (t : Table κ StoredCount) (k : κ) :
    (StoreM.overlay u t).find? k
      = ((u.find? k).map KeyEvent.given).elim (t.find? k) (KeyEvent.after (t.find? k)) := by
  rw [StoreM.overlay, Table.find?_overlay, Table.find?_mapValues]
  cases u.find? k <;> rfl

variable [DecidableEq κ]

/-- Raising a key moves on its row and no other. -/
theorem find?_raise_raised (t : Table κ StoredCount) (k k' : κ) : (StoreM.raise k t).find? k'
    = (if k' = k then some KeyEvent.raised else none).elim (t.find? k')
        (KeyEvent.after (t.find? k')) := by
  rw [Table.raise_eq]
  by_cases hk : k' = k
  · subst hk
    rw [Table.find?_insert_self, if_pos rfl]
    rfl
  · rw [Table.find?_insert_of_ne _ _ hk, if_neg hk]
    rfl

/-- Erasing a key removes its row and no other. -/
theorem find?_erase_removed (t : Table κ StoredCount) (k k' : κ) : (t.erase k).find? k'
    = (if k' = k then some KeyEvent.removed else none).elim (t.find? k')
        (KeyEvent.after (t.find? k')) := by
  by_cases hk : k' = k
  · subst hk
    rw [Table.find?_erase_self, if_pos rfl]
    rfl
  · rw [Table.find?_erase_of_ne _ hk, if_neg hk]
    rfl

end

section
variable {r : Store} {c : Table Address String} {n : Table String StoredCount}
  {a : Table Address StoredCount}

/-- A removal leaves the table without the key, which may not have been there. -/
theorem store_removeGlobal_name (k : String) :
    (run (.change (.removeGlobal (.name k))) (r.withTables c n a)).2
      = r.withTables c (n.erase k) a := by
  rw [run, apply_removeGlobal_name]
  cases hk : n.contains k with
  | true => rfl
  | false => rw [Table.erase_eq_self hk]; rfl

/-- Removing an address from the index erases its row, if there is one. -/
theorem store_removeGlobal_address (b : Address) :
    (run (.change (.removeGlobal (.address b))) (r.withTables c n a)).2
      = r.withTables c n (a.erase b) := by
  rw [run, apply_removeGlobal_address]
  cases hb : a.contains b with
  | true => rfl
  | false => rw [Table.erase_eq_self hb]; rfl

/-- A reference that is added to the index raises the rows of its two keys. -/
theorem row?_increment (b : Address) (name : String) (k : GlobalKey) :
    (run (.change (.increment .globals b name)) (r.withTables c n a)).2.row? k
      = (event? k (.change (.increment .globals b name))).elim ((r.withTables c n a).row? k)
          (KeyEvent.after ((r.withTables c n a).row? k)) := by
  cases k with
  | name k =>
    have hevent : event? (.name k) (.change (.increment .globals b name))
        = if k = name then some .raised else none := by simp [event?]
    rw [hevent]
    exact find?_raise_raised n name k
  | address b' =>
    have hevent : event? (.address b') (.change (.increment .globals b name))
        = if b' = b then some .raised else none := by simp [event?]
    rw [hevent]
    exact find?_raise_raised a b b'

/-- Removing a key of the index removes its row and no other. -/
theorem row?_removeGlobal (k' k : GlobalKey) :
    (run (.change (.removeGlobal k')) (r.withTables c n a)).2.row? k
      = (event? k (.change (.removeGlobal k'))).elim ((r.withTables c n a).row? k)
          (KeyEvent.after ((r.withTables c n a).row? k)) := by
  cases k' with
  | name k' =>
    rw [store_removeGlobal_name]
    cases k with
    | name k =>
      have hevent : event? (.name k) (.change (.removeGlobal (.name k')))
          = if k = k' then some .removed else none := by simp [event?]
      rw [hevent]
      exact find?_erase_removed n k' k
    | address b => rfl
  | address b' =>
    rw [store_removeGlobal_address]
    cases k with
    | name k => rfl
    | address b =>
      have hevent : event? (.address b) (.change (.removeGlobal (.address b')))
          = if b = b' then some .removed else none := by simp [event?]
      rw [hevent]
      exact find?_erase_removed a b' b

end

/-- A call about the index does to the row of a key what it does to the key. -/
theorem row?_run_index {call : StoreCall} (h : call.isOnDocument = false) {s : Store}
    (hs : s.HasTables) (k : GlobalKey) : (call.run s).2.row? k
      = (call.event? k).elim (s.row? k) (KeyEvent.after (s.row? k)) := by
  obtain ⟨r, c, n, a, rfl⟩ := hs.exists_eq
  cases call with
  | change m =>
    cases m with
    | setNames p t =>
      cases p with
      | contents f => cases h
      | globals =>
        cases k with
        | name k => exact find?_overlay_given t n k
        | address b => rfl
    | setAddresses p t =>
      cases p with
      | contents f => cases h
      | globals =>
        cases k with
        | name k => rfl
        | address b => exact find?_overlay_given t a b
    | increment p b name =>
      cases p with
      | contents f => cases h
      | globals => exact row?_increment b name k
    | removeContents f => cases h
    | removeGlobal k' => exact row?_removeGlobal k' k
  | deleteAll p =>
    cases p with
    | contents f => cases h
    | globals =>
      have hrun : StoreM.deleteAll .globals (r.withTables c n a) = _ :=
        deleteAll_globals_withTables n a
      rw [run, hrun]
      cases k <;> rfl

/-- A call about a document does nothing to the keys of the index. -/
theorem event?_document {call : StoreCall} (h : call.isOnDocument = true) (k : GlobalKey) :
    call.event? k = none := by
  cases call with
  | change m =>
    cases m with
    | setNames p t | setAddresses p t | increment p a name =>
      cases p with
      | contents f => rfl
      | globals => cases h
    | removeContents f => rfl
    | removeGlobal k' => cases h
  | deleteAll p =>
    cases p with
    | contents f => rfl
    | globals => cases h

/-- One call more adds the event of the key in it. -/
theorem events_append (k : GlobalKey) (calls : List StoreCall) (call : StoreCall) :
    events k (calls ++ [call]) = events k calls ++ (call.event? k).toList := by
  rw [events, List.filterMap_append]
  cases h : call.event? k <;> simp [events, h]

/-- A key that has overflowed stays so until a call gives it a count or removes it. -/
theorem overflowed_events_append_iff {k : GlobalKey} {calls : List StoreCall}
    (h : KeyEvent.Overflowed (events k calls)) (call : StoreCall) :
    KeyEvent.Overflowed (events k (calls ++ [call])) ↔
      call.event? k = none ∨ call.event? k = some .raised := by
  rw [events_append]
  cases call.event? k with
  | none => simpa using h
  | some e => simpa using KeyEvent.overflowed_append_iff h e

end StoreCall

namespace Store

variable {s : Store}

/-- A call does to the row of a key what its event for the key says. -/
theorem row?_run (hs : s.HasTables) (call : StoreCall) (k : GlobalKey) :
    (call.run s).2.row? k = (call.event? k).elim (s.row? k) (KeyEvent.after (s.row? k)) := by
  cases h : call.isOnDocument with
  | false => exact StoreCall.row?_run_index h hs k
  | true =>
    rw [(StoreCall.run_document h s).1, StoreCall.event?_document h]
    cases k <;> rfl

/-- Calls in a row leave the store with its tables. -/
theorem hasTables_replay (hs : s.HasTables) (calls : List StoreCall) :
    (replayCalls StoreCall.run calls s).2.HasTables := by
  induction calls generalizing s with
  | nil => exact hs
  | cons call calls ih => exact ih (StoreCall.hasTables_run hs call)

/-- The events of a key make of its row what the calls make of it. -/
theorem row?_replay (hs : s.HasTables) (calls : List StoreCall) (k : GlobalKey) :
    (replayCalls StoreCall.run calls s).2.row? k
      = (StoreCall.events k calls).foldl KeyEvent.after (s.row? k) := by
  induction calls generalizing s with
  | nil => rfl
  | cons call calls ih =>
    refine (ih (StoreCall.hasTables_run hs call)).trans ?_
    rw [row?_run hs, StoreCall.events, StoreCall.events, List.filterMap_cons]
    cases call.event? k <;> rfl

/-- From an empty store on, the events of a key tell its row. -/
theorem row?_replay_fresh (calls : List StoreCall) (k : GlobalKey) :
    (replayCalls StoreCall.run calls .fresh).2.row? k
      = KeyEvent.row (StoreCall.events k calls) := by
  have hfresh : fresh.row? k = none := by cases k <;> rfl
  rw [row?_replay ⟨rfl, rfl, rfl⟩, hfresh, KeyEvent.row]

end Store

end TagCache
