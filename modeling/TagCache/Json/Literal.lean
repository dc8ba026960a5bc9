import TagCache.Json.Basic
import TagCache.Text.Numeral

/-!
# JSON numbers as written

A number of a JSON text is a sign, whole digits, a fraction and an exponent (`Literal`). An integer
of 64 bits keeps its value; any other number becomes a double (`Literal.toJson?`): its digits are
gathered into a 64-bit word for as long as they fit, the word is rounded, and the result is then
multiplied or divided by a rounded power of ten.
-/

namespace TagCache

/-- A number as it is written. -/
structure Literal where
  negative : Bool
  /-- The digits before the point. -/
  whole : List Char
  /-- The digits after the point, none where there is no point. -/
  fraction : List Char
  /-- The sign and the digits of the exponent. -/
  exponent : Option (Bool × List Char)
deriving DecidableEq, Repr, Inhabited

namespace Literal

/-- Whether a character is a decimal digit. -/
def isDigit (c : Char) : Bool := '0' ≤ c && c ≤ '9'

/-- The longest run of digits in front, if there is one, and the rest. -/
def scanDigits? (cs : List Char) : Option (List Char × List Char) :=
  match cs.takeWhile isDigit with
  | [] => none
  | ds => some (ds, cs.dropWhile isDigit)

/-- The digits of the whole part: a zero stands alone. -/
def scanWhole? (cs : List Char) : Option (List Char × List Char) :=
  match scanDigits? cs with
  | some ('0' :: _ :: _, _) => none
  | r => r

/-- The digits after a point, none where there is no point. -/
def scanFraction? : List Char → Option (List Char × List Char)
  | '.' :: cs => scanDigits? cs
  | cs => some ([], cs)

/-- A sign, where there is one, and whether it is a minus. -/
def scanSign : List Char → Bool × List Char
  | '-' :: cs => (true, cs)
  | '+' :: cs => (false, cs)
  | cs => (false, cs)

/-- The exponent, where there is one. -/
def scanExponent? (cs : List Char) : Option (Option (Bool × List Char) × List Char) :=
  match cs with
  | c :: rest =>
    if c = 'e' ∨ c = 'E' then
      let (negative, rest) := scanSign rest
      (scanDigits? rest).map fun (ds, rest) => (some (negative, ds), rest)
    else some (none, cs)
  | [] => some (none, [])

/-- The minus sign of a number, where there is one. -/
def scanMinus : List Char → Bool × List Char
  | '-' :: cs => (true, cs)
  | cs => (false, cs)

/-- Read a number in front of a text, and the rest. -/
def scan? (cs : List Char) : Option (Literal × List Char) := do
  let (negative, cs) := scanMinus cs
  let (whole, cs) ← scanWhole? cs
  let (fraction, cs) ← scanFraction? cs
  let (exponent, cs) ← scanExponent? cs
  return (⟨negative, whole, fraction, exponent⟩, cs)

/-- Whether the number is written without fraction and exponent. -/
def isInteger (l : Literal) : Bool := l.fraction.isEmpty && l.exponent.isNone

/-- The values of digits. -/
def digitValues (ds : List Char) : List Nat := ds.map fun c => c.toNat - '0'.toNat

/-- The number that the digits before the point denote. -/
def wholeValue (l : Literal) : Nat := Text.ofDigits 10 (digitValues l.whole)

/-- One more than the greatest unsigned word. -/
def wordCount : Nat := UInt64.size

/-- One more than the greatest signed word. -/
def signedCount : Nat := UInt64.size / 2

/-- One more than the greatest exponent that is told from a greater one. -/
def exponentCount : Nat := UInt32.size / 2

/-- Put digits behind those of a word for as long as the word can hold them. -/
def gather : Nat → List Nat → Nat × List Nat
  | n, [] => (n, [])
  | n, d :: ds => if n * 10 + d < wordCount then gather (n * 10 + d) ds else (n, d :: ds)

/-- A double times a power of ten, in steps within the format. No double other than zero survives
two steps down. -/
def timesTenPow? : Nat → Binary64 → Int → Option Binary64
  | 0, x, _ => some x
  | steps + 1, x, e =>
    if e.natAbs ≤ Binary64.maxTenPow then do
      let ten ← Binary64.tenPow? e.natAbs
      if 0 ≤ e then x.mul? ten else x.div? ten
    else if x.isZero then some x
    else if 0 ≤ e then none
    else do
      let ten ← Binary64.tenPow? Binary64.maxTenPow
      let x ← x.div? ten
      timesTenPow? steps x (e + Binary64.maxTenPow)

/-- The double that a word and a power of ten stand for, with a sign. -/
def ofParts? (negative : Bool) (word : Nat) (e : Int) : Option Binary64 := do
  let x ← Binary64.ofNat? word
  let x ← timesTenPow? 4 x e
  return if negative then x.neg else x

/-- The number as a double, if it is not too great. -/
def real? (l : Literal) : Option Binary64 :=
  let (word, dropped) := gather 0 (digitValues l.whole)
  let fraction := digitValues l.fraction
  let (word, unread) := gather word fraction
  let e : Int := (dropped.length : Int) - (fraction.length - unread.length : Nat)
  match l.exponent with
  | none => ofParts? l.negative word e
  | some (below, ds) =>
    let n := Text.ofDigits 10 (digitValues ds)
    if n < exponentCount then ofParts? l.negative word (if below then e - n else e + n)
    else if word ≠ 0 ∧ !below then none
    else some (Binary64.zero l.negative)

/-- The number as an unsigned word, where it is written as an integer in its range. -/
def word? (l : Literal) : Option Nat :=
  if l.isInteger && !l.negative && l.wholeValue < wordCount then some l.wholeValue else none

/-- The value of the number, if it is not too great. -/
def toJson? (l : Literal) : Option Json :=
  match l.word? with
  | some n => some (.int n)
  | none =>
    if l.isInteger && l.negative && l.wholeValue ≠ 0 && l.wholeValue ≤ signedCount then
      some (.int (-l.wholeValue))
    else l.real?.map .float

end Literal

end TagCache
