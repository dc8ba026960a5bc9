import TagCache.Json.Basic
import TagCache.Json.Escape
import TagCache.Number.Shortest

/-!
# JSON texts

The two written forms of a JSON value: without any blank (`Json.compact`), and with every item and
member on a line of its own, indented by two spaces a level (`Json.pretty`).
-/

namespace TagCache

namespace Binary64

/-- The digits of a double with the point placed by the decimal exponent: positional notation with
at least one digit on each side from `1e-5` up to below `1e16`, and otherwise one digit before the
point and an exponent with its sign. -/
def positional (d : Decimal) : List Char :=
  let ds := Text.digits 10 d.digits
  let point := d.exponent + ds.length
  if 0 ≤ d.exponent ∧ point ≤ 16 then ds ++ List.replicate d.exponent.toNat '0' ++ ['.', '0']
  else if 0 < point ∧ point ≤ 16 then ds.take point.toNat ++ '.' :: ds.drop point.toNat
  else if -5 < point ∧ point ≤ 0 then '0' :: '.' :: (List.replicate (-point).toNat '0' ++ ds)
  else
    let mantissa := match ds with
      | [] => []
      | [c] => [c]
      | c :: rest => c :: '.' :: rest
    let e := point - 1
    mantissa ++ 'e' :: (if 0 ≤ e then '+' else '-') :: Text.digits 10 e.natAbs

/-- A double in the fewest digits that read back. -/
def text (x : Binary64) : List Char :=
  let sign := if x.negative then ['-'] else []
  sign ++ if x.isZero then ['0', '.', '0'] else positional x.shortest

end Binary64

namespace Json

/-- An integer in decimal notation. -/
def integerText : Int → List Char
  | .ofNat n => Text.digits 10 n
  | .negSucc n => '-' :: Text.digits 10 (n + 1)

/-- A string with its quotes. -/
def stringText (s : String) : List Char := '"' :: (escape s.toList ++ ['"'])

mutual

/-- A value without blanks. -/
def render : Json → List Char
  | .null => ['n', 'u', 'l', 'l']
  | .bool true => ['t', 'r', 'u', 'e']
  | .bool false => ['f', 'a', 'l', 's', 'e']
  | .int i => integerText i
  | .float x => x.text
  | .string s => stringText s
  | .array xs => '[' :: (renderItems xs ++ [']'])
  | .object ms => '\x7b' :: (renderMembers ms ++ ['\x7d'])
termination_by structural v => v

/-- Items with commas between them. -/
def renderItems : List Json → List Char
  | [] => []
  | v :: vs => render v ++ renderMoreItems vs
termination_by structural vs => vs

/-- Items with a comma before each. -/
def renderMoreItems : List Json → List Char
  | [] => []
  | v :: vs => ',' :: (render v ++ renderMoreItems vs)
termination_by structural vs => vs

/-- Members with commas between them. -/
def renderMembers : List (String × Json) → List Char
  | [] => []
  | (k, v) :: ms => stringText k ++ ':' :: (render v ++ renderMoreMembers ms)
termination_by structural ms => ms

/-- Members with a comma before each. -/
def renderMoreMembers : List (String × Json) → List Char
  | [] => []
  | (k, v) :: ms => ',' :: (stringText k ++ ':' :: (render v ++ renderMoreMembers ms))
termination_by structural ms => ms

end

/-- The text of a value without blanks. -/
def compact (v : Json) : String := String.ofList v.render

/-- A new line at a level of indentation. -/
def newLine (level : Nat) : List Char := '\n' :: List.replicate (2 * level) ' '

mutual

/-- A value on indented lines. -/
def renderPretty (level : Nat) : Json → List Char
  | .array [] => ['[', ']']
  | .array (v :: vs) =>
    '[' :: (newLine (level + 1) ++ renderPretty (level + 1) v ++ prettyItems (level + 1) vs
      ++ newLine level ++ [']'])
  | .object [] => ['\x7b', '\x7d']
  | .object ((k, v) :: ms) =>
    '\x7b' :: (newLine (level + 1) ++ stringText k ++ ':' :: ' ' :: renderPretty (level + 1) v
      ++ prettyMembers (level + 1) ms ++ newLine level ++ ['\x7d'])
  | v => v.render
termination_by structural v => v

/-- Further items, each on a line of its own. -/
def prettyItems (level : Nat) : List Json → List Char
  | [] => []
  | v :: vs => ',' :: (newLine level ++ renderPretty level v ++ prettyItems level vs)
termination_by structural vs => vs

/-- Further members, each on a line of its own. -/
def prettyMembers (level : Nat) : List (String × Json) → List Char
  | [] => []
  | (k, v) :: ms =>
    ',' :: (newLine level ++ stringText k ++ ':' :: ' ' :: renderPretty level v
      ++ prettyMembers level ms)
termination_by structural ms => ms

end

/-- The text of a value on indented lines. -/
def pretty (v : Json) : String := String.ofList (v.renderPretty 0)

end Json

end TagCache
