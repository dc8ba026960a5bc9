/-!
# Marks of a YAML text

The characters of a YAML text with the places they stand at (`marks`), and the classes of characters
that tokens are told by. Every break between lines reads as a line feed, except the line and
paragraph separators, which stay what they are.
-/

namespace TagCache.Yaml

/-- A place in a text. -/
structure Place where
  line : Nat
  column : Nat
  /-- The number of bytes in front on the line. -/
  offset : Nat
deriving DecidableEq, Repr

/-- The place after a character of a line. -/
def Place.after (p : Place) (c : Char) : Place := ⟨p.line, p.column + 1, p.offset + c.utf8Size⟩

/-- The start of the next line. -/
def Place.nextLine (p : Place) : Place := ⟨p.line + 1, 0, 0⟩

/-- A character and where it stands. -/
structure Mark extends Place where
  char : Char
deriving DecidableEq, Repr

/-- Whether a text may hold the character. -/
def isAllowed (c : Char) : Bool :=
  let n := c.toNat
  c = '\t' || c = '\n' || c = '\r' || (0x20 ≤ n && n ≤ 0x7e) || n = 0x85
    || (0xa0 ≤ n && n ≤ 0xd7ff) || (0xe000 ≤ n && n ≤ 0xfffd) || 0x10000 ≤ n

/-- Whether a character ends a line and is kept where lines are joined. -/
def isSeparator (c : Char) : Bool := c = '\u2028' || c = '\u2029'

/-- Whether a character ends a line. -/
def isBreak (c : Char) : Bool := c = '\n' || c = '\r' || c = '\u0085' || isSeparator c

/-- Whether a character separates words of a line. -/
def isBlank (c : Char) : Bool := c = ' ' || c = '\t'

/-- Whether a character separates words. -/
def isGap (c : Char) : Bool := isBlank c || isBreak c

/-- The characters of a text that goes on at a place. -/
def marks (p : Place) : List Char → List Mark
  | [] => []
  | '\r' :: '\n' :: cs => ⟨p, '\n'⟩ :: marks p.nextLine cs
  | c :: cs =>
    if isSeparator c then ⟨p, c⟩ :: marks p.nextLine cs
    else if isBreak c then ⟨p, '\n'⟩ :: marks p.nextLine cs
    else ⟨p, c⟩ :: marks (p.after c) cs

/-- Whether the text ends here or goes on with a gap. -/
def atGap : List Mark → Bool
  | [] => true
  | m :: _ => isGap m.char

/-- Whether the next character is one of these. -/
def atOneOf (cs : List Char) : List Mark → Bool
  | [] => false
  | m :: _ => cs.contains m.char

/-- Whether a line starts here that begins with three times a character and then a gap. -/
def atTriple (c : Char) : List Mark → Bool
  | x :: y :: z :: rest => x.column = 0 && [x, y, z].all (·.char = c) && atGap rest
  | _ => false

/-- Whether a line starts here that divides documents. -/
def atDivider (ms : List Mark) : Bool := atTriple '-' ms || atTriple '.' ms

end TagCache.Yaml
