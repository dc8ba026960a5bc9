import TagCache.Proofs.Session.Compositional

/-!
# Runs as scripts

On each store an operation is a script: the events of its run without a limit, one after another,
and then its result (`Session.Scripted`). The output decides only how far the script gets. One with
room for all lines lets it through (`Session.outcome_performAll_fits`), and one without stops it at
the line that it has no room for (`Session.outcome_performAll_full`). So a limit cuts a run at a
line, with everything before that line done and nothing after it (`Session.Scripted.cutAt`), and an
operation that succeeds under a limit does the same without one (`Session.Scripted.relaxes`).
-/

namespace TagCache

namespace Event

/-- Make the changes among events, in order. -/
def changes : List Event → StoreM Unit
  | [] => return ()
  | .stored m :: es => do m.apply; changes es
  | .visited _ :: es | .logged _ _ :: es | .wrote _ :: es => changes es

/-- The number of lines among events. -/
def lineCount (es : List Event) : Nat := (es.filterMap line?).length

/-- Let an event happen. -/
def perform : Event → Session Unit
  | .visited a => Session.visit a
  | .logged level text => Session.log level text
  | .wrote line => Session.takeLine line
  | .stored m => Session.mutate m

/-- Let events happen in order. -/
def performAll : List Event → Session Unit
  | [] => return ()
  | e :: es => do e.perform; performAll es

variable {s s' : Store} {es fs : List Event}

/-- A change is made first if it comes first. -/
theorem changes_stored_eq_ok_iff {m : Mutation} : changes (.stored m :: es) s = (.ok (), s') ↔
    ∃ s₁, m.apply s = (.ok (), s₁) ∧ changes es s₁ = (.ok (), s') := by
  rw [changes, StoreM.bind_apply]
  constructor
  · intro h
    rcases happly : m.apply s with ⟨e | ⟨⟩, s₁⟩
    · rw [happly] at h
      cases h
    · rw [happly] at h
      exact ⟨s₁, rfl, h⟩
  · rintro ⟨s₁, happly, hes⟩
    rw [happly]
    exact hes

/-- Changes in a row are made if the first ones are, and then the others. -/
theorem changes_append_eq_ok_iff : changes (es ++ fs) s = (.ok (), s') ↔
    ∃ s₁, changes es s = (.ok (), s₁) ∧ changes fs s₁ = (.ok (), s') := by
  induction es generalizing s with
  | nil =>
    constructor
    · exact fun h => ⟨s, rfl, h⟩
    · rintro ⟨s₁, ⟨⟩, h⟩
      exact h
  | cons e es ih =>
    cases e with
    | visited a => exact ih
    | logged level text => exact ih
    | wrote line => exact ih
    | stored m =>
      rw [List.cons_append, changes_stored_eq_ok_iff]
      simp only [changes_stored_eq_ok_iff, ih]
      constructor
      · rintro ⟨s₁, hm, s₂, hes, hfs⟩
        exact ⟨s₂, ⟨s₁, hm, hes⟩, hfs⟩
      · rintro ⟨s₂, ⟨s₁, hm, hes⟩, hfs⟩
        exact ⟨s₁, hm, s₂, hes, hfs⟩

/-- Before the line that is one too many stand as many lines as there is room for. -/
theorem exists_eq_append_of_lt {n : Nat} (h : n < lineCount es) :
    ∃ es₁ line es₂, es = es₁ ++ .wrote line :: es₂ ∧ lineCount es₁ = n := by
  induction es generalizing n with
  | nil => cases h
  | cons e es ih =>
    cases e with
    | wrote line =>
      cases n with
      | zero => exact ⟨[], line, es, rfl, rfl⟩
      | succ n =>
        obtain ⟨es₁, line', es₂, rfl, rfl⟩ := ih (Nat.lt_of_succ_lt_succ h)
        exact ⟨.wrote line :: es₁, line', es₂, rfl, rfl⟩
    | visited a =>
      obtain ⟨es₁, line', es₂, rfl, rfl⟩ := ih h
      exact ⟨.visited a :: es₁, line', es₂, rfl, rfl⟩
    | logged level text =>
      obtain ⟨es₁, line', es₂, rfl, rfl⟩ := ih h
      exact ⟨.logged level text :: es₁, line', es₂, rfl, rfl⟩
    | stored m =>
      obtain ⟨es₁, line', es₂, rfl, rfl⟩ := ih h
      exact ⟨.stored m :: es₁, line', es₂, rfl, rfl⟩

end Event

open Event (changes lineCount perform performAll)

namespace Session

variable {s s' : Store} {es fs : List Event} {α β : Type}

/-! ## Letting events happen -/

/-- Events are performed one group after the other. -/
theorem outcome_performAll_append (st : SessionState) :
    outcome (performAll (es ++ fs)) st
      = outcome (performAll es >>= fun _ => performAll fs) st := by
  induction es generalizing st with
  | nil => rfl
  | cons e es ih =>
    rw [List.cons_append, performAll, performAll, bind_assoc, outcome_bind, outcome_bind]
    rcases outcome e.perform st with ⟨_ | _, st'⟩
    · rfl
    · exact ih st'

/-- What an output with room for all lines lets happen, and what room it has then. -/
theorem outcome_performAll_fits (room : Option Nat) (h : changes es s = (.ok (), s'))
    (hroom : ∀ n ∈ room, lineCount es ≤ n) (before : Array Event) :
    outcome (performAll es) ⟨s, room, before⟩
      = (.ok (), ⟨s', room.map (· - lineCount es), before ++ es.toArray⟩) := by
  -- induction on the events, of which only a line takes room
  induction es generalizing s room before with
  | nil =>
    cases h
    cases room <;> simp [performAll, lineCount]
  | cons e es ih =>
    have happend : before ++ (e :: es).toArray = before.push e ++ es.toArray := by simp
    rw [performAll, outcome_bind, happend]
    cases e with
    | visited a => exact ih room h hroom _
    | logged level text => exact ih room h hroom _
    | wrote line =>
      have hcount : lineCount (.wrote line :: es) = lineCount es + 1 := rfl
      rw [hcount] at hroom ⊢
      rw [perform, outcome_takeLine]
      cases room with
      | none => exact ih none h (by simp) _
      | some n =>
        cases n with
        | zero => exact absurd (hroom 0 rfl) (Nat.not_succ_le_zero _)
        | succ n =>
          rw [Option.map_some, Nat.add_sub_add_right]
          refine ih (some n) h (fun m hm => ?_) _
          cases hm
          exact Nat.le_of_succ_le_succ (hroom _ rfl)
    | stored m =>
      obtain ⟨s₁, hm, hes⟩ := Event.changes_stored_eq_ok_iff.1 h
      rw [perform, outcome_mutate, hm]
      exact ih room hes hroom _

/-- An output that is full at a line stops there, with everything before that line done. -/
theorem outcome_performAll_full (h : changes es s = (.ok (), s')) (line : String)
    (fs : List Event) (before : Array Event) :
    outcome (performAll (es ++ .wrote line :: fs)) ⟨s, some (lineCount es), before⟩
      = (.error .outputFull, ⟨s', some 0, before ++ es.toArray⟩) := by
  have hfits : ∀ n ∈ some (lineCount es), lineCount es ≤ n := by simp
  rw [outcome_performAll_append, outcome_bind, outcome_performAll_fits _ h hfits, Option.map_some,
    Nat.sub_self]
  rfl

/-- Events that succeed without a limit all happen, or the output is full. -/
theorem outcome_performAll_cases (h : changes es s = (.ok (), s')) (room : Option Nat)
    (before : Array Event) :
    (∃ room', outcome (performAll es) ⟨s, room, before⟩
      = (.ok (), ⟨s', room', before ++ es.toArray⟩)) ∨
    ∃ st, outcome (performAll es) ⟨s, room, before⟩ = (.error .outputFull, st) := by
  by_cases hroom : ∀ n ∈ room, lineCount es ≤ n
  · exact .inl ⟨_, outcome_performAll_fits room h hroom before⟩
  · right
    obtain ⟨n, hn⟩ := Classical.not_forall.1 hroom
    obtain ⟨rfl, hlt⟩ := Classical.not_imp.1 hn
    obtain ⟨es₁, line, es₂, rfl, rfl⟩ := Event.exists_eq_append_of_lt (Nat.not_le.1 hlt)
    obtain ⟨s₁, h₁, -⟩ := Event.changes_append_eq_ok_iff.1 h
    exact ⟨_, outcome_performAll_full h₁ line es₂ before⟩

/-! ## Scripts of operations -/

/-- On a store, the operation lets events happen that succeed without a limit, and then has a
result. -/
def ScriptedAs (x : Session α) (s : Store) (es : List Event) (r : Except Failure α) : Prop :=
  ∃ s', changes es s = (.ok (), s') ∧ ∀ room before,
    outcome x ⟨s, room, before⟩ = outcome (performAll es >>= fun _ => ofExcept r) ⟨s, room, before⟩

/-- On each store the operation has a script. -/
def Scripted (x : Session α) : Prop := ∀ s, ∃ es r, ScriptedAs x s es r

/-- A result computed beforehand follows a script. -/
theorem Scripted.ofExcept (r : Except Failure α) : Scripted (ofExcept r) :=
  fun s => ⟨[], r, s, rfl, fun _ _ => rfl⟩

/-- A row of scripted operations is scripted. -/
theorem Scripted.bind {x : Session α} {f : α → Session β} (hx : Scripted x)
    (hf : ∀ a, Scripted (f a)) : Scripted (x >>= f) := by
  intro s
  obtain ⟨es, r, s', hes, hx⟩ := hx s
  cases r with
  | error e =>
    refine ⟨es, .error e, s', hes, fun room before => ?_⟩
    rw [outcome_bind, hx, outcome_bind, outcome_bind]
    rcases outcome_performAll_cases hes room before with ⟨room', hrun⟩ | ⟨st, hrun⟩ <;> simp [hrun]
  | ok a =>
    obtain ⟨fs, r, s'', hfs, hf⟩ := hf a s'
    refine ⟨es ++ fs, r, s'', Event.changes_append_eq_ok_iff.2 ⟨s', hes, hfs⟩,
      fun room before => ?_⟩
    rw [outcome_bind, hx, outcome_bind, outcome_bind, outcome_performAll_append, outcome_bind]
    rcases outcome_performAll_cases hes room before with ⟨room', hrun⟩ | ⟨st, hrun⟩
    · simp only [hrun, outcome_ofExcept, hf, outcome_bind]
    · simp only [hrun]

/-- An operation with a handler that passes on a full output is scripted if both are. -/
theorem Scripted.recover {x : Session α} {handler : Failure → Session α} (hx : Scripted x)
    (hh : ∀ e, Scripted (handler e)) (hfull : handler .outputFull = throw .outputFull) :
    Scripted (tryCatch x handler) := by
  intro s
  obtain ⟨es, r, s', hes, hx⟩ := hx s
  cases r with
  | ok a =>
    refine ⟨es, .ok a, s', hes, fun room before => ?_⟩
    rw [outcome_tryCatch, hx, outcome_bind]
    rcases outcome_performAll_cases hes room before with ⟨room', hrun⟩ | ⟨st, hrun⟩
    · simp only [hrun, outcome_ofExcept]
    · simp only [hrun, hfull]
      rfl
  | error e =>
    obtain ⟨fs, r, s'', hfs, hh⟩ := hh e s'
    refine ⟨es ++ fs, r, s'', Event.changes_append_eq_ok_iff.2 ⟨s', hes, hfs⟩,
      fun room before => ?_⟩
    rw [outcome_tryCatch, hx, outcome_bind, outcome_bind, outcome_performAll_append, outcome_bind]
    rcases outcome_performAll_cases hes room before with ⟨room', hrun⟩ | ⟨st, hrun⟩
    · simp only [hrun, outcome_ofExcept, hh, outcome_bind]
    · simp only [hrun, hfull]
      rfl

/-- An event is its own script, wherever it succeeds without a limit. -/
theorem ScriptedAs.perform {e : Event} (h : changes [e] s = (.ok (), s')) :
    ScriptedAs (perform e) s [e] (.ok ()) := by
  refine ⟨s', h, fun room before => ?_⟩
  have hone : performAll [e] = e.perform >>= fun _ => pure () := rfl
  rw [hone, outcome_bind, outcome_bind]
  rcases outcome (Event.perform e) ⟨s, room, before⟩ with ⟨_ | _, st⟩ <;> rfl

/-- A change is scripted. -/
theorem Scripted.mutate (m : Mutation) : Scripted (mutate m) := by
  intro s
  rcases happly : m.apply s with ⟨e | ⟨⟩, s'⟩
  · refine ⟨[], .error e, s, rfl, fun room before => ?_⟩
    rw [outcome_mutate, happly, m.atomic_apply s e s' happly]
    rfl
  · have hchange : changes [.stored m] s = (.ok (), s') :=
      Event.changes_stored_eq_ok_iff.2 ⟨s', happly, rfl⟩
    exact ⟨_, _, ScriptedAs.perform hchange⟩

/-- Scripts go through the operations that are put together. -/
theorem compositional_scripted : Compositional Scripted where
  bind := Scripted.bind
  recover := Scripted.recover
  pure a := Scripted.ofExcept (.ok a)
  throw e := Scripted.ofExcept (.error e)
  visit a := fun s => ⟨_, _, ScriptedAs.perform (e := .visited a) (s := s) rfl⟩
  log level text := fun s => ⟨_, _, ScriptedAs.perform (e := .logged level text) (s := s) rfl⟩
  asks f := by
    intro s
    refine ⟨[], f s, s, rfl, fun room before => ?_⟩
    rw [outcome_asks]
    exact (outcome_ofExcept _ _).symm
  takeLine line := fun s => ⟨_, _, ScriptedAs.perform (e := .wrote line) (s := s) rfl⟩

/-- Where the script of an operation ends with a result, the operation reaches it. -/
theorem ScriptedAs.reaches {x : Session α} {a : α} (h : ScriptedAs x s es (.ok a)) :
    ∃ s', Reaches x s a s' := by
  obtain ⟨s', hes, hscript⟩ := h
  refine ⟨s', es, fun before => ?_⟩
  have hrun := outcome_performAll_fits none hes (by simp) before
  rw [hscript, outcome_bind, hrun]
  simp

/-- An operation that succeeds does the same under an output that takes every line. -/
def Relaxes (x : Session α) : Prop :=
  ∀ st a st', outcome x st = (.ok a, st') →
    outcome x { st with room := none } = (.ok a, { st' with room := none })

/-- The result under an output that lets the whole script through is that of the script. -/
theorem Scripted.relaxes {x : Session α} (hx : Scripted x) : Relaxes x := by
  rintro ⟨s, room, before⟩ a st' h
  obtain ⟨es, r, s', hes, hscript⟩ := hx s
  have hrun := outcome_performAll_fits none hes (by simp) before
  rw [hscript, outcome_bind] at h
  show outcome x ⟨s, none, before⟩ = _
  rw [hscript, outcome_bind, hrun]
  rcases outcome_performAll_cases hes room before with ⟨room', hfits⟩ | ⟨st, hfull⟩
  · simp only [hfits, outcome_ofExcept] at h
    obtain ⟨rfl, rfl⟩ := Prod.mk.inj h
    simp
  · simp only [hfull] at h
    cases h

/-- A result under an output with a limit is the one without a limit. -/
theorem Relaxes.result {x : Session α} (hx : Relaxes x) {room : Option Nat} {a : α}
    (h : (outcome x (.start s room)).1 = .ok a) : (outcome x (.start s none)).1 = .ok a := by
  have houtcome : outcome x (.start s room) = (.ok a, (outcome x (.start s room)).2) :=
    Prod.ext h rfl
  have hrelaxed := hx _ _ _ houtcome
  exact congrArg Prod.fst hrelaxed

/-- A success without a limit is reached, whatever happened before. -/
theorem Scripted.reaches {x : Session α} (hx : Scripted x) {a : α} {before : Array Event}
    (h : (outcome x ⟨s, none, before⟩).1 = .ok a) :
    Reaches x s a (outcome x ⟨s, none, before⟩).2.store := by
  obtain ⟨es, r, s', hes, hscript⟩ := hx s
  have hrun := outcome_performAll_fits none hes (by simp) before
  have hr : r = .ok a := by
    rw [hscript, outcome_bind, hrun] at h
    simpa using h
  subst hr
  obtain ⟨s'', hreach⟩ := ScriptedAs.reaches ⟨s', hes, hscript⟩
  obtain ⟨fs, hruns⟩ := id hreach
  rw [hruns before]
  exact hreach

/-- What a sequence reaches its first part and then its second part reach. -/
theorem Reaches.of_bind {x : Session α} {f : α → Session β} (hx : Scripted x)
    (hf : ∀ a, Scripted (f a)) {b : β} (h : Reaches (x >>= f) s b s') :
    ∃ a s₁, Reaches x s a s₁ ∧ Reaches (f a) s₁ b s' := by
  obtain ⟨es, h⟩ := h
  have hrun := h #[]
  rw [outcome_bind] at hrun
  cases hfirst : (outcome x ⟨s, none, #[]⟩).1 with
  | error e =>
    rw [← Prod.eta (outcome x ⟨s, none, #[]⟩), hfirst] at hrun
    cases hrun
  | ok a =>
    have hreach := hx.reaches hfirst
    obtain ⟨fs, hruns⟩ := id hreach
    rw [hruns #[]] at hrun
    have hsecond := (hf a).reaches (congrArg Prod.fst hrun)
    simp only at hrun
    rw [hrun] at hsecond
    exact ⟨a, _, hreach, hsecond⟩

/-! ## Operations that write no line -/

/-- What the operation does is the same under every output, and takes no room of it. -/
def Silent (x : Session α) : Prop :=
  ∀ s before, ∃ r s' after, ∀ room, outcome x ⟨s, room, before⟩ = (r, ⟨s', room, after⟩)

/-- A row of silent operations is silent. -/
theorem Silent.bind {x : Session α} {f : α → Session β} (hx : Silent x) (hf : ∀ a, Silent (f a)) :
    Silent (x >>= f) := by
  intro s before
  obtain ⟨r, s', after, hx⟩ := hx s before
  cases r with
  | error e => exact ⟨.error e, s', after, fun room => by rw [outcome_bind, hx]⟩
  | ok a =>
    obtain ⟨r, s'', after', hf⟩ := hf a s' after
    exact ⟨r, s'', after', fun room => by rw [outcome_bind, hx]; exact hf room⟩

/-- A silent operation with a silent handler is silent. -/
theorem Silent.recover {x : Session α} {handler : Failure → Session α} (hx : Silent x)
    (hh : ∀ e, Silent (handler e)) : Silent (tryCatch x handler) := by
  intro s before
  obtain ⟨r, s', after, hx⟩ := hx s before
  cases r with
  | ok a => exact ⟨.ok a, s', after, fun room => by rw [outcome_tryCatch, hx]⟩
  | error e =>
    obtain ⟨r, s'', after', hh⟩ := hh e s' after
    exact ⟨r, s'', after', fun room => by rw [outcome_tryCatch, hx]; exact hh room⟩

/-- A change is silent. -/
theorem Silent.mutate (m : Mutation) : Silent (mutate m) := by
  intro s before
  rcases happly : m.apply s with ⟨e | ⟨⟩, s'⟩
  · exact ⟨.error e, s', before, fun room => by rw [outcome_mutate, happly]⟩
  · exact ⟨.ok (), s', before.push (.stored m), fun room => by rw [outcome_mutate, happly]; rfl⟩

/-- Silence goes through the operations that write nothing. -/
theorem sequential_silent : Sequential Silent where
  bind := Silent.bind
  recover hx hh _ := hx.recover hh
  pure a := fun s before => ⟨.ok a, s, before, fun _ => rfl⟩
  throw e := fun s before => ⟨.error e, s, before, fun _ => rfl⟩
  visit a := fun s before => ⟨.ok (), s, before.push (.visited a), fun _ => rfl⟩
  log level text := fun s before => ⟨.ok (), s, before.push (.logged level text), fun _ => rfl⟩
  asks f := fun s before => ⟨f s, s, before, fun _ => outcome_asks f _⟩

/-- An operation that writes no line reaches the same store under every output. -/
theorem Reaches.outcome_of_silent {x : Session α} {a : α} (h : Reaches x s a s') (hx : Silent x)
    (room : Option Nat) (before : Array Event) :
    ∃ after, outcome x ⟨s, room, before⟩ = (.ok a, ⟨s', room, after⟩) := by
  obtain ⟨es, h⟩ := h
  obtain ⟨r, s₁, after, hx⟩ := hx s before
  have hnone := hx none
  rw [h before] at hnone
  obtain ⟨rfl, hstate⟩ := Prod.mk.inj hnone
  obtain ⟨rfl, -, rfl⟩ := SessionState.mk.inj hstate
  exact ⟨_, hx room⟩

/-! ## Runs under a limit -/

/-- How a run under an output that takes `n` lines compares with the run under one that takes every
line, from the same store. -/
structure CutAt (n : Nat) (s : Store) (full cut : Except Failure α × SessionState) : Prop where
  /-- With room for all lines there is no difference. -/
  whole : full.2.lines.length ≤ n →
    cut.1 = full.1 ∧ cut.2.lines = full.2.lines ∧ cut.2.store = full.2.store
  /-- Otherwise the run ends with the events before the line that is one too many, and its store is
  the one that their changes lead to. -/
  short : n < full.2.lines.length →
    cut.1 = .error .outputFull ∧ cut.2.lines = full.2.lines.take n ∧
    ∃ line rest, full.2.events.toList = cut.2.events.toList ++ .wrote line :: rest ∧
      changes cut.2.events.toList s = (.ok (), cut.2.store)

/-- A limit cuts the run of a script at a line. -/
theorem Scripted.cutAt {x : Session α} (hx : Scripted x) (s : Store) (n : Nat) :
    CutAt n s (outcome x (.start s none)) (outcome x (.start s (some n))) := by
  obtain ⟨es, r, s', hes, hscript⟩ := hx s
  have hfull : outcome x (.start s none) = (r, ⟨s', none, es.toArray⟩) := by
    have hrun := outcome_performAll_fits none hes (by simp) #[]
    show outcome x ⟨s, none, #[]⟩ = _
    rw [hscript, outcome_bind, hrun]
    simp
  have hlines : (SessionState.mk s' none es.toArray).lines = es.filterMap Event.line? := rfl
  rw [hfull]
  refine ⟨fun hn => ?_, fun hn => ?_⟩
  · have hrun := outcome_performAll_fits (some n) hes (fun m hm => by cases hm; exact hn) #[]
    have hcut : outcome x (.start s (some n)) = (r, ⟨s', some (n - lineCount es), es.toArray⟩) := by
      show outcome x ⟨s, some n, #[]⟩ = _
      rw [hscript, outcome_bind, hrun]
      simp
    rw [hcut]
    exact ⟨rfl, rfl, rfl⟩
  -- the first line without room splits the script
  · obtain ⟨es₁, line, es₂, rfl, rfl⟩ := Event.exists_eq_append_of_lt hn
    obtain ⟨s₁, h₁, -⟩ := Event.changes_append_eq_ok_iff.1 hes
    have hrun := outcome_performAll_full h₁ line es₂ #[]
    have hcut : outcome x (.start s (some (lineCount es₁)))
        = (.error .outputFull, ⟨s₁, some 0, es₁.toArray⟩) := by
      show outcome x ⟨s, some (lineCount es₁), #[]⟩ = _
      rw [hscript, outcome_bind, hrun]
      simp
    rw [hcut, hlines]
    refine ⟨rfl, ?_, line, es₂, rfl, h₁⟩
    rw [List.filterMap_append, lineCount, List.take_left]
    rfl

end Session

end TagCache
