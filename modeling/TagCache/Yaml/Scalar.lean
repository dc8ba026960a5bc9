import TagCache.Document
import TagCache.Text.Numeral

/-!
# YAML scalars

What a scalar of a YAML text can be read as: a quoted one is a text, and a plain one may also be
null, a truth value, an integer in one of four radices, a floating point number (`Leaf.ofPlain`).
A run of digits with a needless zero in front is a text.
-/

namespace TagCache.Yaml

/-- A text without one leading plus sign. -/
def dropPlus : List Char → List Char
  | '+' :: cs => cs
  | cs => cs

/-- A text without one leading sign. -/
def dropSign : List Char → List Char
  | '+' :: cs => cs
  | '-' :: cs => cs
  | cs => cs

/-- Whether a character is a decimal digit. -/
def isDigit (c : Char) : Bool := '0' ≤ c && c ≤ '9'

/-- Whether a text is digits, after at most one sign, with a needless zero in front. -/
def isPaddedDigits (cs : List Char) : Bool :=
  match dropSign cs with
  | '0' :: d :: ds => (d :: ds).all isDigit
  | _ => false

/-- The magnitude of an integer without a sign: after a marker in its radix, else in decimal. -/
def magnitude? : List Char → Option Nat
  | '0' :: 'x' :: ds => Text.value? 16 ds
  | '0' :: 'o' :: ds => Text.value? 8 ds
  | '0' :: 'b' :: ds => Text.value? 2 ds
  | ds => if isPaddedDigits ds then none else Text.value? 10 ds

/-- An integer that is not negative, after at most one plus sign. -/
def natural? (cs : List Char) : Option Nat := magnitude? (dropPlus cs)

/-- The magnitude of an integer with a minus sign. -/
def negated? : List Char → Option Nat
  | '-' :: ds => magnitude? ds
  | _ => none

/-- Digits of a decimal fraction with an exponent: those before and after the point, of which one
may be missing, and the exponent. -/
def decimal? (cs : List Char) : Option (List Char × List Char × Int) := do
  let whole := cs.takeWhile isDigit
  let (fraction, rest) := match cs.dropWhile isDigit with
    | '.' :: rest => (rest.takeWhile isDigit, rest.dropWhile isDigit)
    | rest => ([], rest)
  if whole.isEmpty && fraction.isEmpty then none
  match rest with
  | [] => return (whole, fraction, 0)
  | c :: rest =>
    if c = 'e' ∨ c = 'E' then
      let n ← Text.value? 10 (dropSign rest)
      return (whole, fraction, if rest.head? = some '-' then -n else n)
    else none

/-- A floating point number: the nearest double, where it is finite. -/
def real? (cs : List Char) : Option Binary64 := do
  let negative := cs.head? = some '-'
  let (whole, fraction, e) ← decimal? (dropSign cs)
  let n ← Text.value? 10 (whole ++ fraction)
  let shift := e - fraction.length
  let size := (Text.digits 10 n).length
  if n = 0 ∨ shift + size < -400 then return .zero negative
  if 400 < shift + size then none
  Binary64.ofDecimal? negative n shift

/-- Whether a plain scalar is a word for an infinity or for no number. -/
def isSpecialReal (cs : List Char) : Bool :=
  [".inf", ".Inf", ".INF"].contains (String.ofList (dropSign cs))
    || [".nan", ".NaN", ".NAN"].contains (String.ofList cs)

/-- One more than the greatest integer that is told from a floating point number. -/
def wideCount : Nat := UInt64.size * UInt64.size

/-- The value of a plain scalar that is a number. An integer beyond 64 bits has none. -/
def number? (cs : List Char) : Option (Option Json) :=
  match natural? cs, negated? cs with
  | some n, _ =>
    if n < wideCount then some (if n < UInt64.size then some (.int n) else none)
    else float
  | none, some n =>
    if n ≤ wideCount / 2 then some (if n ≤ UInt64.size / 2 then some (.int (-n)) else none)
    else float
  | none, none => float
where
  /-- The value as a floating point number. -/
  float : Option (Option Json) :=
    if isSpecialReal cs then some (some .null)
    else if isPaddedDigits cs then none
    else (real? cs).map fun x => some (.float x)

/-- Whether a plain scalar is a word for the absence of a value. -/
def isNullWord (text : String) : Bool := ["", "null", "Null", "NULL", "~"].contains text

/-- The value of a plain scalar. -/
def plainValue? (text : String) : Option Json :=
  if isNullWord text then some .null
  else if ["true", "True", "TRUE"].contains text then some (.bool true)
  else if ["false", "False", "FALSE"].contains text then some (.bool false)
  else match number? text.toList with
    | some v => v
    | none => some (.string text)

end TagCache.Yaml

namespace TagCache.Leaf

/-- A scalar in quotes. -/
def ofQuoted (text : String) : Leaf :=
  { text? := some text, word? := none, value? := some (.string text) }

/-- A scalar without quotes. -/
def ofPlain (text : String) : Leaf :=
  { text? := some text
    word? := (Yaml.natural? text.toList).filter (· < UInt64.size)
    value? := Yaml.plainValue? text
    isNull := Yaml.isNullWord text
    isVoid := text.isEmpty }

end TagCache.Leaf
