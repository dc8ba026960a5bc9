/-!
# Double precision numbers

The finite values of the 64-bit binary format, as a sign and a mantissa times a power of two
(`Binary64`), in exact integer arithmetic. `round?` takes a non-negative rational to the nearest
such value, a tie to the even mantissa, and fails beyond the largest one; products, quotients and
powers of ten round the exact result once.
-/

namespace TagCache

/-- The number `mantissa * 2 ^ exponent`, negated where `negative` says so. A mantissa has at most
53 bits; below 53 bits the exponent is the least one. -/
structure Binary64 where
  negative : Bool
  mantissa : Nat
  exponent : Int
deriving DecidableEq, Repr, Inhabited

namespace Binary64

/-- The exponent of the smallest numbers. -/
def minExponent : Int := -1074

/-- The exponent of the greatest numbers. -/
def maxExponent : Int := 971

/-- The number of mantissas, and the first mantissa of full width. -/
def fullMantissa : Nat := Nat.pow 2 52

/-- Zero with a sign. -/
def zero (negative : Bool) : Binary64 := ⟨negative, 0, minExponent⟩

/-- Whether the number is a zero of either sign. -/
def isZero (x : Binary64) : Bool := x.mantissa = 0

/-- The number with the other sign. -/
def neg (x : Binary64) : Binary64 := { x with negative := !x.negative }

/-- The fraction `n / d` divided by `2 ^ e`, as numerator and denominator. -/
def scaleDown (n d : Nat) (e : Int) : Nat × Nat := (n * Nat.pow 2 (-e).toNat, d * Nat.pow 2 e.toNat)

/-- The integer nearest to a fraction, an even one if two are. -/
def nearest (n d : Nat) : Nat :=
  let q := n / d
  let r := n % d
  if 2 * r < d then q else if d < 2 * r then q + 1 else q + q % 2

/-- The exponent at which a positive fraction has a mantissa of full width, or the least one. -/
def exponentOf (n d : Nat) : Int :=
  let e : Int := (Nat.log2 n : Int) - Nat.log2 d - 52
  let s := scaleDown n d e
  max (if s.1 / s.2 < fullMantissa then e - 1 else e) minExponent

/-- The number nearest to a fraction, with the given sign, if it is not too great. -/
def round? (negative : Bool) (n d : Nat) : Option Binary64 :=
  if n = 0 then some (zero negative)
  else
    let e := exponentOf n d
    let s := scaleDown n d e
    let m := nearest s.1 s.2
    let x : Binary64 :=
      if m = 2 * fullMantissa then ⟨negative, fullMantissa, e + 1⟩ else ⟨negative, m, e⟩
    if x.exponent ≤ maxExponent then some x else none

/-- The magnitude as a fraction. -/
def fraction (x : Binary64) : Nat × Nat := scaleDown x.mantissa 1 (-x.exponent)

/-- The number nearest to a product, if it is not too great. -/
def mul? (x y : Binary64) : Option Binary64 :=
  round? (x.negative != y.negative) (x.fraction.1 * y.fraction.1) (x.fraction.2 * y.fraction.2)

/-- The number nearest to a quotient by a number other than zero, if it is not too great. -/
def div? (x y : Binary64) : Option Binary64 :=
  round? (x.negative != y.negative) (x.fraction.1 * y.fraction.2) (x.fraction.2 * y.fraction.1)

/-- The number nearest to a natural number, if it is not too great. -/
def ofNat? (n : Nat) : Option Binary64 := round? false n 1

/-- The number nearest to a power of ten, if it is not too great. -/
def tenPow? (k : Nat) : Option Binary64 := ofNat? (Nat.pow 10 k)

/-- The greatest power of ten in the format. -/
def maxTenPow : Nat := 308

/-- The number nearest to `n * 10 ^ e`, if it is not too great. -/
def ofDecimal? (negative : Bool) (n : Nat) (e : Int) : Option Binary64 :=
  round? negative (n * Nat.pow 10 e.toNat) (Nat.pow 10 (-e).toNat)

end Binary64

end TagCache
