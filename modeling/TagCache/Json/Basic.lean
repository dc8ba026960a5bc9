import TagCache.Number.Binary64

/-!
# JSON values

The values of a JSON text once its numbers and strings are understood (`Json`). The members of an
object stand in the order in which they are written out; those of an object that was read stand in
ascending key order, each key once.
-/

namespace TagCache

/-- A JSON value. A number is an integer of at most 64 bits or a double. -/
inductive Json where
  | null
  | bool (b : Bool)
  | int (i : Int)
  | float (x : Binary64)
  | string (s : String)
  | array (items : List Json)
  | object (members : List (String × Json))
deriving Repr, Inhabited

namespace Json

mutual

/-- Equality of values. -/
def beq : Json → Json → Bool
  | .null, .null => true
  | .bool b, .bool b' => b == b'
  | .int i, .int i' => i == i'
  | .float x, .float x' => x == x'
  | .string s, .string s' => s == s'
  | .array xs, .array xs' => beqItems xs xs'
  | .object ms, .object ms' => beqMembers ms ms'
  | _, _ => false
termination_by structural v => v

/-- Equality of arrays. -/
def beqItems : List Json → List Json → Bool
  | [], [] => true
  | x :: xs, x' :: xs' => beq x x' && beqItems xs xs'
  | _, _ => false
termination_by structural vs => vs

/-- Equality of objects, member by member. -/
def beqMembers : List (String × Json) → List (String × Json) → Bool
  | [], [] => true
  | (k, x) :: ms, (k', x') :: ms' => k == k' && beq x x' && beqMembers ms ms'
  | _, _ => false
termination_by structural ms => ms

end

mutual

theorem eq_of_beq : ∀ {v w : Json}, beq v w = true → v = w
  | .null, w, h => by cases w <;> simp_all [beq]
  | .bool b, w, h => by cases w <;> simp_all [beq]
  | .int i, w, h => by cases w <;> simp_all [beq]
  | .float x, w, h => by cases w <;> simp_all [beq]
  | .string s, w, h => by cases w <;> simp_all [beq]
  | .array xs, w, h => by
    cases w <;> simp only [beq, Bool.false_eq_true] at h
    rw [items_eq_of_beq h]
  | .object ms, w, h => by
    cases w <;> simp only [beq, Bool.false_eq_true] at h
    rw [members_eq_of_beq h]

theorem items_eq_of_beq : ∀ {vs ws : List Json}, beqItems vs ws = true → vs = ws
  | [], [], _ => rfl
  | [], _ :: _, h => by simp [beqItems] at h
  | _ :: _, [], h => by simp [beqItems] at h
  | v :: vs, w :: ws, h => by
    simp only [beqItems, Bool.and_eq_true] at h
    rw [eq_of_beq h.1, items_eq_of_beq h.2]

theorem members_eq_of_beq :
    ∀ {ms ns : List (String × Json)}, beqMembers ms ns = true → ms = ns
  | [], [], _ => rfl
  | [], _ :: _, h => by simp [beqMembers] at h
  | _ :: _, [], h => by simp [beqMembers] at h
  | (k, v) :: ms, (k', w) :: ns, h => by
    simp only [beqMembers, Bool.and_eq_true, beq_iff_eq] at h
    rw [h.1.1, eq_of_beq h.1.2, members_eq_of_beq h.2]

end

mutual

theorem beq_refl : ∀ v : Json, beq v v = true
  | .null => by simp [beq]
  | .bool _ => by simp [beq]
  | .int _ => by simp [beq]
  | .float _ => by simp [beq]
  | .string _ => by simp [beq]
  | .array xs => by simp [beq, beqItems_refl xs]
  | .object ms => by simp [beq, beqMembers_refl ms]

theorem beqItems_refl : ∀ vs : List Json, beqItems vs vs = true
  | [] => by simp [beqItems]
  | v :: vs => by simp [beqItems, beq_refl v, beqItems_refl vs]

theorem beqMembers_refl : ∀ ms : List (String × Json), beqMembers ms ms = true
  | [] => by simp [beqMembers]
  | (_, v) :: ms => by simp [beqMembers, beq_refl v, beqMembers_refl ms]

end

instance : DecidableEq Json := fun v w =>
  if h : beq v w = true then isTrue (eq_of_beq h)
  else isFalse fun e => h (e ▸ beq_refl v)

/-- The number as a count: an integer that is not negative. -/
def count? : Json → Option Nat
  | .int i => if 0 ≤ i then some i.toNat else none
  | _ => none

/-- A count as a number. -/
def ofCount (n : Nat) : Json := .int n

/-- A value, or null where there is none. -/
def ofOption {α : Type} (f : α → Json) : Option α → Json
  | none => .null
  | some a => f a

end Json

end TagCache
