import TagCache.Proofs.Json.Float
import TagCache.Proofs.Table

/-!
# Values that can be written and read

`Json.Writable` describes the values whose text is read: integers are of 64 bits, doubles are in the
format, and the members of each object stand in ascending key order. What the text is read as
(`Json.reread`) differs from the value in doubles only. So a value without a double in it
(`Json.Floatless`) is given back exactly, and it is then called plain (`Json.Plain`). For a text to
follow the grammar it is enough that its doubles are in the format (`Json.Legible`).
-/

namespace TagCache.Json

/-! ## Kinds of values -/

mutual

/-- A value that its text gives back. -/
def Plain : Json → Prop
  | .null => True
  | .bool _ => True
  | .int i => -(Literal.signedCount : Int) ≤ i ∧ i < Literal.wordCount
  | .float _ => False
  | .string _ => True
  | .array xs => PlainItems xs
  | .object ms => Bindings.Ascending ms ∧ PlainMembers ms
termination_by structural v => v

/-- `Plain` over the items of an array. -/
def PlainItems : List Json → Prop
  | [] => True
  | x :: xs => Plain x ∧ PlainItems xs
termination_by structural xs => xs

/-- `Plain` over the members of an object. -/
def PlainMembers : List (String × Json) → Prop
  | [] => True
  | (_, x) :: ms => Plain x ∧ PlainMembers ms
termination_by structural ms => ms

end

mutual

/-- There is no double in the value. -/
def Floatless : Json → Prop
  | .float _ => False
  | .array xs => FloatlessItems xs
  | .object ms => FloatlessMembers ms
  | .null | .bool _ | .int _ | .string _ => True
termination_by structural v => v

/-- `Floatless` over the items of an array. -/
def FloatlessItems : List Json → Prop
  | [] => True
  | x :: xs => Floatless x ∧ FloatlessItems xs
termination_by structural xs => xs

/-- `Floatless` over the members of an object. -/
def FloatlessMembers : List (String × Json) → Prop
  | [] => True
  | (_, x) :: ms => Floatless x ∧ FloatlessMembers ms
termination_by structural ms => ms

end

mutual

/-- Every double in the value is in the format. -/
def Legible : Json → Prop
  | .float x => x.InRange
  | .array xs => LegibleItems xs
  | .object ms => LegibleMembers ms
  | .null | .bool _ | .int _ | .string _ => True
termination_by structural v => v

/-- `Legible` over the items of an array. -/
def LegibleItems : List Json → Prop
  | [] => True
  | x :: xs => Legible x ∧ LegibleItems xs
termination_by structural xs => xs

/-- `Legible` over the members of an object. -/
def LegibleMembers : List (String × Json) → Prop
  | [] => True
  | (_, x) :: ms => Legible x ∧ LegibleMembers ms
termination_by structural ms => ms

end

mutual

/-- A value that can be read from its text. -/
def Writable : Json → Prop
  | .int i => -(Literal.signedCount : Int) ≤ i ∧ i < Literal.wordCount
  | .float x => x.InRange
  | .array xs => WritableItems xs
  | .object ms => Bindings.Ascending ms ∧ WritableMembers ms
  | .null | .bool _ | .string _ => True
termination_by structural v => v

/-- `Writable` over the items of an array. -/
def WritableItems : List Json → Prop
  | [] => True
  | x :: xs => Writable x ∧ WritableItems xs
termination_by structural xs => xs

/-- `Writable` over the members of an object. -/
def WritableMembers : List (String × Json) → Prop
  | [] => True
  | (_, x) :: ms => Writable x ∧ WritableMembers ms
termination_by structural ms => ms

end

mutual

/-- The greatest number of arrays and objects inside each other. -/
def depth : Json → Nat
  | .array xs => depthItems xs + 1
  | .object ms => depthMembers ms + 1
  | _ => 0
termination_by structural v => v

/-- `depth` over the items of an array. -/
def depthItems : List Json → Nat
  | [] => 0
  | x :: xs => max (depth x) (depthItems xs)
termination_by structural xs => xs

/-- `depth` over the members of an object. -/
def depthMembers : List (String × Json) → Nat
  | [] => 0
  | (_, x) :: ms => max (depth x) (depthMembers ms)
termination_by structural ms => ms

end

mutual

/-- What the text of the value is read as. -/
def reread : Json → Json
  | .float x => .float x.reread
  | .array xs => .array (rereadItems xs)
  | .object ms => .object (rereadMembers ms)
  | v => v
termination_by structural v => v

/-- `reread` over the items of an array. -/
def rereadItems : List Json → List Json
  | [] => []
  | x :: xs => reread x :: rereadItems xs
termination_by structural xs => xs

/-- `reread` over the members of an object. -/
def rereadMembers : List (String × Json) → List (String × Json)
  | [] => []
  | (k, x) :: ms => (k, reread x) :: rereadMembers ms
termination_by structural ms => ms

end

/-! ## The parts of a value -/

/-- The items of an array are plain if each of them is. -/
theorem plainItems_iff (xs : List Json) : PlainItems xs ↔ ∀ x ∈ xs, Plain x := by
  induction xs with
  | nil => simp [PlainItems]
  | cons x xs ih => simp [PlainItems, ih]

/-- `PlainMembers` in the per-member form. -/
theorem plainMembers_iff (ms : List (String × Json)) :
    PlainMembers ms ↔ ∀ b ∈ ms, Plain b.2 := by
  induction ms with
  | nil => simp [PlainMembers]
  | cons b ms ih => obtain ⟨k, v⟩ := b; simp [PlainMembers, ih]

/-- The items of an array are without floats if each of them is. -/
theorem floatlessItems_iff (xs : List Json) : FloatlessItems xs ↔ ∀ x ∈ xs, Floatless x := by
  induction xs with
  | nil => simp [FloatlessItems]
  | cons x xs ih => simp [FloatlessItems, ih]

/-- `FloatlessMembers` in the per-member form. -/
theorem floatlessMembers_iff (ms : List (String × Json)) :
    FloatlessMembers ms ↔ ∀ b ∈ ms, Floatless b.2 := by
  induction ms with
  | nil => simp [FloatlessMembers]
  | cons b ms ih => obtain ⟨k, v⟩ := b; simp [FloatlessMembers, ih]

/-- The items of an array are legible if each of them is. -/
theorem legibleItems_iff (xs : List Json) : LegibleItems xs ↔ ∀ x ∈ xs, Legible x := by
  induction xs with
  | nil => simp [LegibleItems]
  | cons x xs ih => simp [LegibleItems, ih]

/-- `LegibleMembers` in the per-member form. -/
theorem legibleMembers_iff (ms : List (String × Json)) :
    LegibleMembers ms ↔ ∀ b ∈ ms, Legible b.2 := by
  induction ms with
  | nil => simp [LegibleMembers]
  | cons b ms ih => obtain ⟨k, v⟩ := b; simp [LegibleMembers, ih]

/-- The items of an array can be written if each of them can. -/
theorem writableItems_iff (xs : List Json) : WritableItems xs ↔ ∀ x ∈ xs, Writable x := by
  induction xs with
  | nil => simp [WritableItems]
  | cons x xs ih => simp [WritableItems, ih]

/-- `WritableMembers` in the per-member form. -/
theorem writableMembers_iff (ms : List (String × Json)) :
    WritableMembers ms ↔ ∀ b ∈ ms, Writable b.2 := by
  induction ms with
  | nil => simp [WritableMembers]
  | cons b ms ih => obtain ⟨k, v⟩ := b; simp [WritableMembers, ih]

/-- `depthMembers` in the per-member form. -/
theorem depthMembers_le_iff (ms : List (String × Json)) (n : Nat) :
    depthMembers ms ≤ n ↔ ∀ b ∈ ms, depth b.2 ≤ n := by
  induction ms with
  | nil => simp [depthMembers]
  | cons b ms ih => obtain ⟨k, v⟩ := b; simp [depthMembers, ih]

/-- The items of an array are read again one by one. -/
theorem rereadItems_eq (xs : List Json) : rereadItems xs = xs.map reread := by
  induction xs with
  | nil => rfl
  | cons x xs ih => rw [rereadItems, ih, List.map_cons]

/-- The members of an object are read again one by one. -/
theorem rereadMembers_eq (ms : List (String × Json)) :
    rereadMembers ms = ms.map fun b => (b.1, b.2.reread) := by
  induction ms with
  | nil => rfl
  | cons b ms ih => obtain ⟨k, v⟩ := b; rw [rereadMembers, ih, List.map_cons]

/-- What arrays and objects take over from their parts holds of every value, if it holds of those
without parts. -/
theorem of_parts {P : Json → Prop} (hleaf : ∀ v : Json, v.depth = 0 → P v)
    (harray : ∀ xs : List Json, (∀ x ∈ xs, P x) → P (.array xs))
    (hobject : ∀ ms : List (String × Json), (∀ b ∈ ms, P b.2) → P (.object ms)) (v : Json) : P v :=
  @Json.rec P (fun xs => ∀ x ∈ xs, P x) (fun ms => ∀ b ∈ ms, P b.2) (fun b => P b.2)
    (hleaf .null rfl) (fun b => hleaf (.bool b) rfl) (fun i => hleaf (.int i) rfl)
    (fun x => hleaf (.float x) rfl) (fun s => hleaf (.string s) rfl) harray hobject
    (fun _ hx => absurd hx List.not_mem_nil)
    (fun _ _ hv hvs => List.forall_mem_cons.2 ⟨hv, hvs⟩)
    (fun _ hb => absurd hb List.not_mem_nil)
    (fun _ _ hb hms => List.forall_mem_cons.2 ⟨hb, hms⟩) (fun _ _ hv => hv) v

/-! ## Legible values -/

/-- What a value has only if its parts do makes it legible if it does so for doubles. -/
theorem legible_of {P : Json → Prop} (hfloat : ∀ x, P (.float x) → x.InRange)
    (harray : ∀ xs, P (.array xs) → ∀ x ∈ xs, P x)
    (hobject : ∀ ms, P (.object ms) → ∀ b ∈ ms, P b.2) {v : Json} (h : P v) : v.Legible := by
  induction v using of_parts with
  | hleaf v hv =>
    cases v with
    | array xs => simp [depth] at hv
    | object ms => simp [depth] at hv
    | float x => exact hfloat x h
    | null | bool b | int i | string s => trivial
  | harray xs ih => exact (legibleItems_iff xs).2 fun x hx => ih x hx (harray xs h x hx)
  | hobject ms ih => exact (legibleMembers_iff ms).2 fun b hb => ih b hb (hobject ms h b hb)

/-- A value that can be written is legible. -/
theorem Writable.legible {v : Json} (h : v.Writable) : v.Legible :=
  legible_of (fun _ h => h) (fun xs h => (writableItems_iff xs).1 h)
    (fun ms h => (writableMembers_iff ms).1 h.2) h

/-- A value without floats is legible. -/
theorem Floatless.legible {v : Json} (h : v.Floatless) : v.Legible :=
  legible_of (fun _ h => h.elim) (fun xs h => (floatlessItems_iff xs).1 h)
    (fun ms h => (floatlessMembers_iff ms).1 h) h

/-! ## Plain values -/

/-- A value that its text gives back is one that can be written and has no floats. -/
theorem plain_iff (v : Json) : v.Plain ↔ v.Writable ∧ v.Floatless := by
  induction v using of_parts with
  | hleaf v hv =>
    cases v with
    | array xs => simp [depth] at hv
    | object ms => simp [depth] at hv
    | null | bool b | int i | float x | string s => simp [Plain, Writable, Floatless]
  | harray xs ih =>
    show PlainItems xs ↔ WritableItems xs ∧ FloatlessItems xs
    rw [plainItems_iff, writableItems_iff, floatlessItems_iff, ← forall₂_and]
    exact forall₂_congr ih
  | hobject ms ih =>
    show _ ∧ PlainMembers ms ↔ (_ ∧ WritableMembers ms) ∧ FloatlessMembers ms
    rw [plainMembers_iff, writableMembers_iff, floatlessMembers_iff, and_assoc, ← forall₂_and]
    exact and_congr_right fun _ => forall₂_congr ih

/-- Without a double nothing changes. -/
theorem Floatless.reread_eq {v : Json} (h : v.Floatless) : v.reread = v := by
  induction v using of_parts with
  | hleaf v hv => cases v <;> first | rfl | exact h.elim | simp [depth] at hv
  | harray xs ih =>
    have hitems := (floatlessItems_iff xs).1 h
    rw [reread, rereadItems_eq]
    exact congrArg array ((List.map_congr_left fun x hx => ih x hx (hitems x hx)).trans
      (List.map_id xs))
  | hobject ms ih =>
    have hmembers := (floatlessMembers_iff ms).1 h
    rw [reread, rereadMembers_eq]
    refine congrArg object ((List.map_congr_left fun b hb => ?_).trans (List.map_id ms))
    exact Prod.ext rfl (ih b hb (hmembers b hb))

/-- A property that an object has exactly if its members stand in key order and have it. -/
def Hereditary (P : Json → Prop) : Prop :=
  ∀ ms, P (.object ms) ↔ Bindings.Ascending ms ∧ ∀ b ∈ ms, P b.2

/-- The parts of a plain value are plain. -/
theorem hereditary_plain : Hereditary Plain :=
  fun ms => and_congr_right fun _ => plainMembers_iff ms

/-- The parts of a value that can be written can be. -/
theorem hereditary_writable : Hereditary Writable :=
  fun ms => and_congr_right fun _ => writableMembers_iff ms

/-! ## Values that were read again -/

/-- What is read of a written value can be written again. -/
theorem Writable.reread {v : Json} (h : v.Writable) : v.reread.Writable := by
  induction v using of_parts with
  | hleaf v hv =>
    cases v with
    | float x => exact Binary64.inRange_reread h
    | array xs => simp [depth] at hv
    | object ms => simp [depth] at hv
    | null | bool b | int i | string s => exact h
  | harray xs ih =>
    have hitems := (writableItems_iff xs).1 h
    show WritableItems (rereadItems xs)
    rw [rereadItems_eq, writableItems_iff]
    rintro _ hy
    obtain ⟨x, hx, rfl⟩ := List.mem_map.1 hy
    exact ih x hx (hitems x hx)
  | hobject ms ih =>
    have hmembers := (writableMembers_iff ms).1 h.2
    show Bindings.Ascending (rereadMembers ms) ∧ WritableMembers (rereadMembers ms)
    rw [rereadMembers_eq, writableMembers_iff]
    refine ⟨List.pairwise_map.2 h.1, ?_⟩
    rintro _ hc
    obtain ⟨b, hb, rfl⟩ := List.mem_map.1 hc
    exact ih b hb (hmembers b hb)

end TagCache.Json
