import TagCache.Proofs.Session.Trace
import TagCache.Session.Course

/-!
# Sessions under conditions

A session whose sums are not checked returns. One whose sums are checked may stop at a change in
which a sum does not fit (`Session.StopsAt`): then the changes before that one are made, and no
other. An operation takes one of these two courses (`Session.course_cases`), and on neither does it
touch the history (`Operation.sameOutside_course`).
-/

namespace TagCache

open Event (changes)

/-- Changes leave the history and the layout as they are. -/
theorem Event.sameOutside_changes {es : List Event} {s s' : Store}
    (h : changes es s = (.ok (), s')) : Store.SameOutside (fun _ => false) s s' := by
  induction es generalizing s with
  | nil =>
    cases h
    exact .refl _
  | cons e es ih =>
    cases e with
    | stored m =>
      obtain ⟨s₁, happly, hrest⟩ := changes_stored_eq_ok_iff.1 h
      have hfirst : Store.SameOutside (fun _ => false) s (m.apply s).2 :=
        m.apply_sameOutside (fun _ _ => rfl) s
      rw [happly] at hfirst
      exact hfirst.trans (ih hrest)
    | visited | logged | wrote => exact ih h

/-- The result, unless the session stopped at a sum. -/
def Ending.result? {α : Type} : Ending α → Option (Except Failure α)
  | .returned result => some result
  | .overflowed => none

namespace Session

variable {s s' found : Store} {es before after : List Event} {m : Mutation}

/-! ## The first change that overflows -/

/-- The store that is found is the one that the changes before lead to, none of which overflows. -/
theorem exists_of_overflow?_eq_some (h : overflow? s es = some (before, found))
    (hchanges : changes es s = (.ok (), s')) : ∃ m after, es = before ++ .stored m :: after ∧
      overflow? s before = none ∧ changes before s = (.ok (), found) ∧
      m.overflows found = true := by
  -- induction on the events, of which only changes count
  induction es generalizing s before with
  | nil => cases h
  | cons e es ih =>
    cases e with
    | stored m =>
      obtain ⟨s₁, happly, hrest⟩ := Event.changes_stored_eq_ok_iff.1 hchanges
      have heffect : (Event.stored m).effect s = s₁ := congrArg Prod.snd happly
      rw [overflow?, heffect] at h
      split at h
      · next hoverflows =>
        cases h
        exact ⟨m, es, rfl, rfl, rfl, hoverflows⟩
      · next hfits =>
        obtain ⟨⟨before', found'⟩, hlater, heq⟩ := Option.map_eq_some_iff.1 h
        cases heq
        obtain ⟨m', after, rfl, hnone, hbefore, hoverflows⟩ := ih hlater hrest
        refine ⟨m', after, rfl, ?_, Event.changes_stored_eq_ok_iff.2 ⟨s₁, happly, hbefore⟩,
          hoverflows⟩
        rw [overflow?, if_neg hfits, heffect, hnone]
        rfl
    | visited | logged | wrote =>
      obtain ⟨⟨before', found'⟩, hlater, heq⟩ := Option.map_eq_some_iff.1 h
      cases heq
      obtain ⟨m, after, rfl, hnone, hbefore, hoverflows⟩ := ih hlater hchanges
      exact ⟨m, after, rfl, Option.map_eq_none_iff.2 hnone, hbefore, hoverflows⟩

/-- Where none is found, no change overflows in the store that the changes before it lead to. -/
theorem overflows_eq_false_of_overflow?_eq_none
    (h : overflow? s (before ++ .stored m :: after) = none)
    (hbefore : changes before s = (.ok (), found)) : m.overflows found = false := by
  induction before generalizing s with
  | nil =>
    cases hbefore
    rw [List.nil_append, overflow?] at h
    split at h
    · cases h
    · next hoverflows => exact Bool.eq_false_iff.2 hoverflows
  | cons e before ih =>
    cases e with
    | stored m' =>
      obtain ⟨s₁, happly, hrest⟩ := Event.changes_stored_eq_ok_iff.1 hbefore
      have heffect : (Event.stored m').effect s = s₁ := congrArg Prod.snd happly
      rw [List.cons_append, overflow?, heffect] at h
      split at h
      · cases h
      · exact ih (Option.map_eq_none_iff.1 h) hrest
    | visited | logged | wrote => exact ih (Option.map_eq_none_iff.1 h) hbefore

/-! ## The two courses -/

/-- The session comes to a change in which a sum does not fit, in the store to which the changes
before it lead. In none of those does a sum overflow. -/
def StopsAt {α : Type} (x : Session α) (room : Option Nat) (s found : Store) : Prop :=
  ∃ before m after, (outcome x (.start s room)).2.events.toList = before ++ .stored m :: after ∧
    overflow? s before = none ∧ changes before s = (.ok (), found) ∧ m.overflows found = true

/-- Under conditions a session returns what it comes to, or it stops at a change. It stops exactly
if sums are checked and there is such a change. -/
theorem course_cases {α : Type} {x : Session α} (hx : Traces (fun _ => True) x) (c : Conditions)
    (s : Store) :
    (∃ events, x.course c s = ⟨.returned (outcome x (.start s c.room)).1, events,
        (outcome x (.start s c.room)).2.store⟩ ∧
      (c.checksSums = true → ∀ found, ¬x.StopsAt c.room s found)) ∨
    ∃ events found, x.course c s = ⟨.overflowed, events, found⟩ ∧ c.checksSums = true ∧
      x.StopsAt c.room s found := by
  obtain ⟨es, hevents, hchanges, -⟩ := hx (.start s c.room)
  have hevents : (outcome x (.start s c.room)).2.events.toList = es := by
    rw [hevents]
    simp [SessionState.start]
  -- the conditions only decide whether the events are searched for one that overflows
  have hcourse : x.course c s = (if c.checksSums then overflow? s es else none).elim
      ⟨.returned (outcome x (.start s c.room)).1, es, (outcome x (.start s c.room)).2.store⟩
      fun stop => ⟨.overflowed, stop.1, stop.2⟩ := by
    rw [← hevents]
    unfold course outcome
    rcases x (.start s c.room) with ⟨result, s'⟩
    dsimp only
    cases if c.checksSums then overflow? s s'.events.toList else none <;> rfl
  rw [hcourse]
  cases hchecks : c.checksSums with
  | false => exact .inl ⟨es, rfl, fun h => absurd h Bool.false_ne_true⟩
  | true =>
    rw [if_pos rfl]
    cases hoverflow : overflow? s es with
    | none =>
      refine .inl ⟨es, rfl, fun _ found hstops => ?_⟩
      obtain ⟨before, m, after, hsplit, -, hbefore, hoverflows⟩ := hstops
      rw [← hevents, hsplit] at hoverflow
      have hfits := overflows_eq_false_of_overflow?_eq_none hoverflow hbefore
      rw [hoverflows] at hfits
      cases hfits
    | some stop =>
      obtain ⟨before, found⟩ := stop
      obtain ⟨m, after, hsplit, hstop⟩ := exists_of_overflow?_eq_some hoverflow hchanges
      exact .inr ⟨before, found, rfl, rfl, before, m, after, hevents.trans hsplit, hstop⟩

end Session

namespace Operation

variable (op : Operation) (db : Snapshot) (c : Conditions) (s : Store)

/-- An operation makes the changes of its trace. -/
theorem traces : Session.Traces (fun _ => True) (op.run db) := db.blocks_true.traces_run op

/-- On whatever course, an operation leaves the history and the layout as they are. -/
theorem sameOutside_course :
    Store.SameOutside (fun _ => false) s ((op.run db).course c s).store := by
  obtain ⟨events, hcourse, -⟩ | ⟨events, found, hcourse, -, before, m, after, -, -, hbefore, -⟩ :=
    Session.course_cases (op.traces db) c s
  · obtain ⟨es, -, hchanges, -⟩ := op.traces db (.start s c.room)
    rw [hcourse]
    exact Event.sameOutside_changes hchanges
  · rw [hcourse]
    exact Event.sameOutside_changes hbefore

end Operation

end TagCache
