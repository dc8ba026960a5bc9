import TagCache.Text.Cased

/-!
# Lower-case text

Full Unicode lower-casing of a text (`lowercase`): each capital becomes its lower-case letter, the
dotted capital I becomes two characters, and a capital sigma at the end of a word takes its final
form (`endsWord`).
-/

namespace TagCache.Text

/-- Whether the first character that is not skipped has a case. -/
def meetsCased (cs : List Char) : Bool :=
  match cs.dropWhile isCaseIgnorable with
  | [] => false
  | c :: _ => isCased c

/-- Whether a word ends between the characters before, nearest first, and those after. -/
def endsWord (before after : List Char) : Bool := meetsCased before && !meetsCased after

/-- The lower-case form of a character between its neighbours. -/
def lowerBetween (before : List Char) (c : Char) (after : List Char) : List Char :=
  match c with
  | 'Σ' => if endsWord before after then ['ς'] else ['σ']
  | 'İ' => ['i', '\u0307']
  | c => [lowerLetter c]

/-- The lower-case form of the characters after those already passed, nearest first. -/
def lowerAfter (before : List Char) : List Char → List Char
  | [] => []
  | c :: after => lowerBetween before c after ++ lowerAfter (c :: before) after

/-- A text in lower case. -/
def lowercase (text : String) : String := String.ofList (lowerAfter [] text.toList)

end TagCache.Text
