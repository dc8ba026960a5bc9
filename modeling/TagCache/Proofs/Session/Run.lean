import TagCache.Session.Basic

/-!
# Runs of a session

What an operation comes to in a state is its `Session.outcome`. Five relations are built on it.
`Session.Runs` describes a success under an output that takes every line: the result, the store it
leaves and the events it adds; such runs follow each other (`Runs.bind`). `Session.Writes` tells of
the events the lines only, and `Session.Reaches` nothing; `Session.Ends` is the same with a failure
in place of the result, where there is one. `Session.Preserves` describes what an operation does to
the store under any output and however it ends, and goes through failures and their recovery
(`Preserves.bind`, `Preserves.tryCatch`).
-/

namespace TagCache

namespace Session

variable {α β : Type}

/-- The result of an operation in a state, and the state after it. -/
def outcome (x : Session α) (st : SessionState) : Except Failure α × SessionState := x st

/-! ## Outcomes -/

/-- A value is given without touching the state. -/
@[simp] theorem outcome_pure (a : α) (st : SessionState) :
    outcome (pure a) st = (.ok a, st) := rfl

/-- A failure ends a row of operations; a result goes to what follows, with the state it left. -/
theorem outcome_bind (x : Session α) (f : α → Session β) (st : SessionState) :
    outcome (x >>= f) st = match outcome x st with
      | (.ok a, st') => outcome (f a) st'
      | (.error e, st') => (.error e, st') := by
  unfold outcome
  show (match x st with | (r, st') => ExceptT.bindCont f r st') = _
  rcases x st with ⟨_ | _, _⟩ <;> rfl

/-- The handler goes on from the state in which the failure left the session. -/
theorem outcome_tryCatch (x : Session α) (h : Failure → Session α) (st : SessionState) :
    outcome (tryCatch x h) st = match outcome x st with
      | (.ok a, st') => (.ok a, st')
      | (.error e, st') => outcome (h e) st' := by
  have hx : outcome (tryCatch x h) st = ExceptT.tryCatch x h st := rfl
  rw [hx]
  unfold ExceptT.tryCatch ExceptT.mk outcome
  simp only [bind, StateT.bind]
  rcases x st with ⟨_ | _, _⟩ <;> rfl

/-- A visit is only noted. -/
@[simp] theorem outcome_visit (a : Address) (st : SessionState) :
    outcome (visit a) st = (.ok (), st.note (.visited a)) := rfl

/-- A log record is only noted. -/
@[simp] theorem outcome_log (level : LogLevel) (text : String) (st : SessionState) :
    outcome (log level text) st = (.ok (), st.note (.logged level text)) := rfl

/-- A result computed beforehand is given without touching the state. -/
@[simp] theorem outcome_ofExcept (r : Except Failure α) (st : SessionState) :
    outcome (ofExcept r) st = (r, st) := by
  cases r <;> rfl

/-- A question to the store leaves the session as it was. -/
@[simp] theorem outcome_asks (f : Store → Except Failure α) (st : SessionState) :
    outcome (asks f) st = (f st.store, st) := by
  show outcome (ofExcept (f st.store)) st = _
  rw [outcome_ofExcept]

/-- A line takes one place of a limited output, and fails where none is left. -/
theorem outcome_takeLine (line : String) (st : SessionState) :
    outcome (takeLine line) st = match st.room with
      | none => (.ok (), st.note (.wrote line))
      | some 0 => (.error .outputFull, st)
      | some (n + 1) => (.ok (), { st.note (.wrote line) with room := some n }) := by
  unfold takeLine
  show outcome (match st.room with | none => _ | some 0 => _ | some (n + 1) => _) st = _
  rcases st.room with _ | _ | n <;> rfl

/-- A change that succeeds is noted; one that fails is not, though it may have changed the store. -/
theorem outcome_mutate (m : Mutation) (st : SessionState) :
    outcome (mutate m) st = match m.apply st.store with
      | (.ok (), store) => (.ok (), { st with store }.note (.stored m))
      | (.error e, store) => (.error e, { st with store }) := by
  unfold mutate
  show outcome (match m.apply st.store with | (.ok (), store) => _ | (.error e, store) => _) st = _
  rcases m.apply st.store with ⟨_ | _, _⟩ <;> rfl

/-! ## Successful runs -/

/-- Under an output that takes every line, the operation succeeds on a store with a result, leaves
a store and adds events, whatever happened before. -/
def Runs (x : Session α) (s : Store) (a : α) (s' : Store) (es : List Event) : Prop :=
  ∀ before, outcome x ⟨s, none, before⟩ = (.ok a, ⟨s', none, before ++ es.toArray⟩)

/-- Under an output that takes every line, the operation succeeds on a store with a result and
leaves a store. -/
def Reaches (x : Session α) (s : Store) (a : α) (s' : Store) : Prop := ∃ es, Runs x s a s' es

section
variable {s s' s'' : Store} {a : α} {b : β} {es fs : List Event}

/-- What runs with events reaches its result. -/
theorem Runs.reaches {x : Session α} (h : Runs x s a s' es) : Reaches x s a s' := ⟨es, h⟩

/-- Nothing happens in giving a value. -/
theorem Runs.pure : Runs (pure a) s a s [] := by
  intro before
  simp

/-- The events of a row of operations follow each other. -/
theorem Runs.bind {x : Session α} {f : α → Session β} (hx : Runs x s a s' es)
    (hf : Runs (f a) s' b s'' fs) : Runs (x >>= f) s b s'' (es ++ fs) := by
  intro before
  rw [outcome_bind, hx before]
  simp only
  rw [hf, Array.append_assoc]
  simp

/-- A visit is one event. -/
theorem runs_visit (c : Address) : Runs (visit c) s () s [.visited c] := by
  intro before
  simp [SessionState.note]

/-- A log record is one event. -/
theorem runs_log (level : LogLevel) (text : String) :
    Runs (log level text) s () s [.logged level text] := by
  intro before
  simp [SessionState.note]

/-- An output without a limit takes the line. -/
theorem runs_takeLine (line : String) : Runs (takeLine line) s () s [.wrote line] := by
  intro before
  simp [outcome_takeLine, SessionState.note]

/-- Operations that leave the store and run on every element have their events one after another. -/
theorem runs_forM {x : α → Session Unit} {events : α → List Event}
    (hx : ∀ a, Runs (x a) s () s (events a)) (l : List α) :
    Runs (l.forM x) s () s (l.flatMap events) := by
  induction l with
  | nil => exact Runs.pure
  | cons a l ih => exact (hx a).bind ih

/-- A text is written line by line. -/
theorem runs_writeLine (text : String) :
    Runs (writeLine text) s () s ((Text.lines text).map .wrote) := by
  unfold writeLine
  rw [List.map_eq_flatMap]
  exact runs_forM runs_takeLine _

/-- A result computed beforehand has no events. -/
theorem runs_ofExcept {r : Except Failure α} (h : r = .ok a) : Runs (ofExcept r) s a s [] := by
  intro before
  simp [h]

/-- A question to the store has no events. -/
theorem runs_asks {f : Store → Except Failure α} (h : f s = .ok a) : Runs (asks f) s a s [] := by
  intro before
  simp [h]

/-- A change is one event. -/
theorem runs_mutate {m : Mutation} (h : m.apply s = (.ok (), s')) :
    Runs (mutate m) s () s' [.stored m] := by
  intro before
  simp [outcome_mutate, h, SessionState.note]

/-! ## Results and stores of runs -/

/-- Giving a value leaves the store. -/
theorem Reaches.pure : Reaches (pure a) s a s := Runs.pure.reaches

/-- A row of operations reaches what the last one reaches. -/
theorem Reaches.bind {x : Session α} {f : α → Session β} (hx : Reaches x s a s')
    (hf : Reaches (f a) s' b s'') : Reaches (x >>= f) s b s'' := by
  obtain ⟨es, hx⟩ := hx
  obtain ⟨fs, hf⟩ := hf
  exact ⟨es ++ fs, hx.bind hf⟩

/-- The result may be dropped. -/
theorem Reaches.discard {x : Session α} (hx : Reaches x s a s') :
    Reaches (discard x) s () s' := by
  have heq : Functor.discard x = x >>= fun _ => Pure.pure () := rfl
  rw [heq]
  exact hx.bind Reaches.pure

/-- A visit leaves the store. -/
theorem Reaches.visit (c : Address) : Reaches (visit c) s () s := (runs_visit c).reaches

/-- A log record leaves the store. -/
theorem Reaches.log (level : LogLevel) (text : String) : Reaches (log level text) s () s :=
  (runs_log level text).reaches

/-- A text that is written leaves the store. -/
theorem Reaches.writeLine (text : String) : Reaches (writeLine text) s () s :=
  (runs_writeLine text).reaches

/-- A result computed beforehand leaves the store. -/
theorem Reaches.ofExcept {r : Except Failure α} (h : r = .ok a) : Reaches (ofExcept r) s a s :=
  (runs_ofExcept h).reaches

/-- A question leaves the store that answers it. -/
theorem Reaches.asks {f : Store → Except Failure α} (h : f s = .ok a) : Reaches (asks f) s a s :=
  (runs_asks h).reaches

/-- A change reaches the store that it makes. -/
theorem Reaches.mutate {m : Mutation} (h : m.apply s = (.ok (), s')) : Reaches (mutate m) s () s' :=
  (runs_mutate h).reaches

/-- The outcome at the start of a session without a limit. -/
theorem Reaches.outcome_start {x : Session α} (h : Reaches x s a s') :
    ∃ events, outcome x (.start s none) = (.ok a, ⟨s', none, events⟩) := by
  obtain ⟨es, h⟩ := h
  exact ⟨_, h #[]⟩

/-- The result of a session without a limit. -/
theorem Reaches.result {x : Session α} (h : Reaches x s a s') :
    (outcome x (.start s none)).1 = .ok a := by
  obtain ⟨events, h⟩ := h.outcome_start
  rw [h]

/-- The store after a session without a limit. -/
theorem Reaches.store {x : Session α} (h : Reaches x s a s') :
    (outcome x (.start s none)).2.store = s' := by
  obtain ⟨events, h⟩ := h.outcome_start
  rw [h]

/-! ## Lines of runs -/

/-- Under an output that takes every line, the operation succeeds on a store with a result, leaves
a store and writes lines. -/
def Writes (x : Session α) (s : Store) (a : α) (s' : Store) (ls : List String) : Prop :=
  ∃ es, Runs x s a s' es ∧ es.filterMap Event.line? = ls

variable {ls ms : List String}

/-- The lines of a row of operations follow each other. -/
theorem Writes.bind {x : Session α} {f : α → Session β} (hx : Writes x s a s' ls)
    (hf : Writes (f a) s' b s'' ms) : Writes (x >>= f) s b s'' (ls ++ ms) := by
  obtain ⟨es, hx, rfl⟩ := hx
  obtain ⟨fs, hf, rfl⟩ := hf
  exact ⟨es ++ fs, hx.bind hf, List.filterMap_append⟩

/-- What writes no line adds none. -/
theorem Writes.bind_wordless {x : Session α} {f : α → Session β} (hx : Writes x s a s' [])
    (hf : Writes (f a) s' b s'' ls) : Writes (x >>= f) s b s'' ls := hx.bind hf

/-- What follows without a line adds none. -/
theorem Writes.then_wordless {x : Session α} {f : α → Session β} (hx : Writes x s a s' ls)
    (hf : Writes (f a) s' b s'' []) : Writes (x >>= f) s b s'' ls := by
  rw [← List.append_nil ls]
  exact hx.bind hf

/-- What succeeds with lines reaches its result. -/
theorem Writes.reaches {x : Session α} (h : Writes x s a s' ls) : Reaches x s a s' := by
  obtain ⟨es, hruns, -⟩ := h
  exact ⟨es, hruns⟩

/-- Giving a value writes nothing. -/
theorem Writes.pure : Writes (pure a) s a s [] := ⟨[], .pure, rfl⟩

/-- A visit writes nothing. -/
theorem Writes.visit (c : Address) : Writes (visit c) s () s [] := ⟨_, runs_visit c, rfl⟩

/-- A log record writes nothing. -/
theorem Writes.log (level : LogLevel) (text : String) : Writes (log level text) s () s [] :=
  ⟨_, runs_log level text, rfl⟩

/-- A question writes nothing. -/
theorem Writes.asks {f : Store → Except Failure α} (h : f s = .ok a) : Writes (asks f) s a s [] :=
  ⟨_, runs_asks h, rfl⟩

/-- A text is written line by line. -/
theorem Writes.writeLine (text : String) : Writes (writeLine text) s () s (Text.lines text) := by
  refine ⟨_, runs_writeLine text, ?_⟩
  induction Text.lines text with
  | nil => rfl
  | cons l ls ih => exact congrArg (l :: ·) ih

/-- The outcome at the start of a session without a limit. -/
theorem Writes.outcome_start {x : Session α} (h : Writes x s a s' ls) :
    (outcome x (.start s none)).1 = .ok a ∧ (outcome x (.start s none)).2.lines = ls := by
  obtain ⟨es, hruns, rfl⟩ := h
  have hrun : outcome x (.start s none) = (.ok a, ⟨s', none, #[] ++ es.toArray⟩) := hruns #[]
  rw [hrun]
  exact ⟨rfl, by simp [SessionState.lines]⟩

/-! ## Runs that may fail -/

variable {x : Session α} {f : α → Session β}

/-- Under an output that takes every line, the operation ends on a store with a result or a failure,
and leaves a store. -/
def Ends (x : Session α) (s : Store) (r : Except Failure α) (s' : Store) : Prop :=
  ∃ es : List Event, ∀ before, outcome x ⟨s, none, before⟩ = (r, ⟨s', none, before ++ es.toArray⟩)

/-- Reaching a result is one way to end. -/
theorem Reaches.ends (h : Reaches x s a s') : Ends x s (.ok a) s' := h

/-- Behind an operation that reaches its result, a row ends as what follows does. -/
theorem Reaches.ends_bind {r : Except Failure β} (hx : Reaches x s a s')
    (hf : Ends (f a) s' r s'') : Ends (x >>= f) s r s'' := by
  obtain ⟨es, hx⟩ := hx
  obtain ⟨fs, hf⟩ := hf
  refine ⟨es ++ fs, fun before => ?_⟩
  rw [outcome_bind, hx before]
  simp only
  rw [hf, Array.append_assoc]
  simp

/-- A failure of the first operation ends the row. -/
theorem Ends.bind {e : Failure} (h : Ends x s (.error e) s') : Ends (x >>= f) s (.error e) s' := by
  obtain ⟨es, h⟩ := h
  refine ⟨es, fun before => ?_⟩
  rw [outcome_bind, h before]

/-- A question that has no answer ends the operation on the same store. -/
theorem Ends.asks {g : Store → Except Failure α} {e : Failure} (h : g s = .error e) :
    Ends (asks g) s (.error e) s := by
  refine ⟨[], fun before => ?_⟩
  rw [outcome_asks, h]
  simp

/-- A change that is refused ends the operation on the same store. -/
theorem Ends.mutate {m : Mutation} {e : Failure} (h : m.apply s = (.error e, s)) :
    Ends (mutate m) s (.error e) s := by
  refine ⟨[], fun before => ?_⟩
  rw [outcome_mutate, h]
  simp

/-- The outcome of a session without a limit, up to its events. -/
theorem Ends.outcome_start {r : Except Failure α} (h : Ends x s r s') :
    ∃ events, outcome x (.start s none) = (r, ⟨s', none, events⟩) := by
  obtain ⟨es, h⟩ := h
  exact ⟨_, h #[]⟩

end

/-! ## What holds of the store however an operation ends -/

/-- A property of the store that the operation keeps, under any output and however it ends. -/
def Preserves (P : Store → Prop) (x : Session α) : Prop :=
  ∀ st, P st.store → P (outcome x st).2.store

section
variable {P : Store → Prop}

/-- Giving a value keeps every property. -/
theorem Preserves.pure (a : α) : Preserves P (pure a : Session α) := fun _ h => h

/-- A failure keeps every property. -/
theorem Preserves.throw (e : Failure) : Preserves P (throw e : Session α) := fun _ h => h

/-- What every operation of a row keeps, the row keeps. -/
theorem Preserves.bind {x : Session α} {f : α → Session β} (hx : Preserves P x)
    (hf : ∀ a, Preserves P (f a)) : Preserves P (x >>= f) := by
  intro st h
  have hstep := hx st h
  rw [outcome_bind]
  generalize outcome x st = r at hstep
  rcases r with ⟨e | a, st'⟩
  · exact hstep
  · exact hf a st' hstep

/-- What an operation and its handler keep is kept where a failure is caught. -/
theorem Preserves.tryCatch {x : Session α} {handler : Failure → Session α} (hx : Preserves P x)
    (hh : ∀ e, Preserves P (handler e)) : Preserves P (tryCatch x handler) := by
  intro st h
  have hstep := hx st h
  rw [outcome_tryCatch]
  generalize outcome x st = r at hstep
  rcases r with ⟨e | a, st'⟩
  · exact hh e st' hstep
  · exact hstep

/-- A visit keeps every property of the store. -/
theorem Preserves.visit (a : Address) : Preserves P (visit a) := fun _ h => h

/-- A log record keeps every property of the store. -/
theorem Preserves.log (level : LogLevel) (text : String) : Preserves P (log level text) :=
  fun _ h => h

/-- A question keeps every property of the store. -/
theorem Preserves.asks (f : Store → Except Failure α) : Preserves P (asks f) := by
  intro st h
  rw [outcome_asks]
  exact h

/-- A line keeps every property of the store, taken or not. -/
theorem Preserves.takeLine (line : String) : Preserves P (takeLine line) := by
  intro st h
  rw [outcome_takeLine]
  rcases st.room with _ | _ | n <;> exact h

/-- A change keeps what its effect on the store keeps. -/
theorem Preserves.mutate {m : Mutation} (hm : ∀ s, P s → P (m.apply s).2) :
    Preserves P (mutate m) := by
  intro st h
  have hstep := hm st.store h
  rw [outcome_mutate]
  generalize m.apply st.store = r at hstep
  rcases r with ⟨_ | _, _⟩ <;> exact hstep

end

end Session

end TagCache
