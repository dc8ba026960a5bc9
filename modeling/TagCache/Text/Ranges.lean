/-!
# Sets of characters as ranges of code points

The property tables of the text modules are lists of closed ranges of code points
(`Ranges`), and `Ranges.has` asks whether a character lies in one of them.
-/

namespace TagCache.Text

/-- Closed ranges of code points. -/
abbrev Ranges := List (Nat × Nat)

/-- Whether a character's code point lies in one of the ranges. -/
def Ranges.has (ranges : Ranges) (c : Char) : Bool :=
  ranges.any fun r => r.1 ≤ c.toNat && c.toNat ≤ r.2

end TagCache.Text
