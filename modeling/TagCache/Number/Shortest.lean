import TagCache.Number.Binary64
import TagCache.Text.Numeral

/-!
# Shortest decimals

The decimal with the fewest digits that still rounds to a given double (`Binary64.shortest`). For
one digit, two digits, and so on the two neighbours of the value on the decimal grid are tried, and
the first grid with a neighbour inside the rounding interval is taken; of two such neighbours the
nearer one, and the even one if both are equally near.
-/

namespace TagCache.Binary64

/-- A decimal `digits * 10 ^ exponent`. -/
structure Decimal where
  digits : Nat
  exponent : Int
deriving DecidableEq, Repr, Inhabited

/-- The fraction `n * 2 ^ two * 10 ^ ten`. -/
def mixed (n : Nat) (two ten : Int) : Nat × Nat :=
  (n * Nat.pow 2 two.toNat * Nat.pow 10 ten.toNat,
    Nat.pow 2 (-two).toNat * Nat.pow 10 (-ten).toNat)

/-- Whether the first fraction is below the second. -/
def fractionLt (x y : Nat × Nat) : Bool := x.1 * y.2 < y.1 * x.2

/-- The distance of two fractions, as a fraction. -/
def fractionDist (x y : Nat × Nat) : Nat × Nat :=
  (max (x.1 * y.2) (y.1 * x.2) - min (x.1 * y.2) (y.1 * x.2), x.2 * y.2)

/-- The lower end of the interval of numbers that round to a positive double. -/
def lowerEnd (x : Binary64) : Nat × Nat :=
  let half := if x.mantissa = fullMantissa ∧ x.exponent ≠ minExponent then 1 else 2
  mixed (4 * x.mantissa - half) (x.exponent - 2) 0

/-- The upper end of that interval. -/
def upperEnd (x : Binary64) : Nat × Nat := mixed (4 * x.mantissa + 2) (x.exponent - 2) 0

/-- Whether a fraction rounds to a positive double. The ends round to an even mantissa. -/
def roundsTo (x : Binary64) (f : Nat × Nat) : Bool :=
  if x.mantissa % 2 = 0 then !fractionLt f x.lowerEnd && !fractionLt x.upperEnd f
  else fractionLt x.lowerEnd f && fractionLt f x.upperEnd

/-- The exponent of the greatest power of ten that is at most a positive fraction. -/
def tenExponent (f : Nat × Nat) : Int :=
  if f.2 ≤ f.1 then (Text.digits 10 (f.1 / f.2)).length - 1
  else
    let k := (Text.digits 10 (f.2 / f.1)).length
    if f.2 ≤ f.1 * Nat.pow 10 (k - 1) then 1 - k else -k

/-- The nearer of the neighbours on the grid of multiples of `10 ^ k` that round to the double. -/
def onGrid? (x : Binary64) (k : Int) : Option Nat :=
  let f := x.fraction
  let s := mixed 1 0 k
  let below := (f.1 * s.2) / (f.2 * s.1)
  let above := below + 1
  let hit (c : Nat) : Bool := x.roundsTo (mixed c 0 k)
  let dist (c : Nat) : Nat × Nat := fractionDist (mixed c 0 k) f
  match hit below, hit above with
  | false, false => none
  | true, false => some below
  | false, true => some above
  | true, true =>
    if fractionLt (dist below) (dist above) then some below
    else if fractionLt (dist above) (dist below) then some above
    else some (if below % 2 = 0 then below else above)

/-- The decimal without zeros at the end of its digits. -/
def Decimal.strip : Nat → Decimal → Decimal
  | 0, d => d
  | fuel + 1, d =>
    if d.digits ≠ 0 ∧ d.digits % 10 = 0 then strip fuel ⟨d.digits / 10, d.exponent + 1⟩ else d

/-- The number of digits that suffices for every double. -/
def maxDigits : Nat := 17

/-- The shortest decimal that rounds to a double other than zero, without its sign. -/
def shortest (x : Binary64) : Decimal :=
  let p := tenExponent x.fraction
  let grids : List Int := (List.range maxDigits).map fun (n : Nat) => p - n
  match grids.findSome? fun k => (x.onGrid? k).map (Decimal.mk · k) with
  | some d => d.strip maxDigits
  | none => ⟨x.mantissa, x.exponent⟩

end TagCache.Binary64
