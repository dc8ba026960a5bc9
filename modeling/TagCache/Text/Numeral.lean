/-!
# Numerals

Natural numbers in positional notation. `digits` writes a number in a radix with lower-case
letters, `value?` reads a non-empty run of digits of either case, and `readBelow?` also takes one
plus sign in front and refuses a number that reaches a bound.
-/

namespace TagCache.Text

/-- The value of a digit in a radix of at most sixteen. Letters may have either case. -/
def digit? (radix : Nat) (c : Char) : Option Nat :=
  let d : Option Nat :=
    if '0' ≤ c ∧ c ≤ '9' then some (c.toNat - '0'.toNat)
    else if 'a' ≤ c ∧ c ≤ 'f' then some (c.toNat - 'a'.toNat + 10)
    else if 'A' ≤ c ∧ c ≤ 'F' then some (c.toNat - 'A'.toNat + 10)
    else none
  d.filter (· < radix)

/-- The number that a list of digit values denotes, the most significant digit first. -/
def ofDigits (radix : Nat) (ds : List Nat) : Nat := ds.foldl (fun n d => n * radix + d) 0

/-- The number that a non-empty run of digits denotes. -/
def value? (radix : Nat) : List Char → Option Nat
  | [] => none
  | cs => (cs.mapM (digit? radix)).map (ofDigits radix)

/-- Read digits, after at most one plus sign, as a number below the bound. -/
def readBelow? (radix bound : Nat) (cs : List Char) : Option Nat :=
  let digits := match cs with
    | '+' :: rest => rest
    | cs => cs
  (value? radix digits).filter (· < bound)

/-- The digits of a number, with no needless zero in front. -/
def digits (radix n : Nat) : List Char := Nat.toDigits radix n

/-- A number in decimal notation. -/
def decimal (n : Nat) : String := String.ofList (digits 10 n)

/-- A number in lower-case hexadecimal notation, without a marker in front. -/
def hex (n : Nat) : String := String.ofList (digits 16 n)

end TagCache.Text
