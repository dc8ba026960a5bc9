import TagCache.Document
import TagCache.Json.Escape
import TagCache.Json.Literal

/-!
# Reading JSON texts

`Json.read?` reads a text as a document. Reading checks the grammar only: what a number or a string
stands for is settled when a decoder asks for it, so a part that no decoder asks for may hold
numbers out of range and halves of surrogate pairs, at any depth. `Json.parse?` reads a text as a
value, which nests at most `maxDepth` arrays and objects.
-/

namespace TagCache

namespace Leaf

/-- The text that a string stands for. -/
def unescaped? (raw : List Char) : Option String := (Json.unescape? raw).map String.ofList

/-- A string, from the text between its quotes. -/
def ofString (raw : List Char) : Leaf :=
  let text? := unescaped? raw
  { text?, word? := none, value? := text?.map .string }

/-- A key, from the text between its quotes. It reads as a number where that text is written as
one. -/
def ofKey (raw : List Char) : Leaf :=
  let word? := match Literal.scan? raw with
    | some (l, []) => l.word?
    | _ => none
  { ofString raw with word? := word? }

/-- A number. -/
def ofLiteral (l : Literal) : Leaf := { text? := none, word? := l.word?, value? := l.toJson? }

/-- A unit that stands for one value only. -/
def ofValue (v : Json) : Leaf :=
  { text? := none, word? := none, value? := some v, isNull := v = .null }

end Leaf

namespace Json

/-- Whether a character may stand between the tokens of a JSON text. -/
def isGap (c : Char) : Bool := c = ' ' || c = '\n' || c = '\t' || c = '\r'

/-- The text from its first token on. -/
def skipGaps (cs : List Char) : List Char := cs.dropWhile isGap

/-- A number in front of a text. -/
def readNumber? (cs : List Char) : Option (Document × List Char) :=
  (Literal.scan? cs).map fun (l, rest) => (.leaf (.ofLiteral l), rest)

mutual

/-- Read a value in front of a text, and the rest. The fuel bounds the number of steps down or to
the right. -/
def readValue? : Nat → List Char → Option (Document × List Char)
  | 0, _ => none
  | fuel + 1, cs =>
    match skipGaps cs with
    | 'n' :: 'u' :: 'l' :: 'l' :: rest => some (.leaf (.ofValue .null), rest)
    | 't' :: 'r' :: 'u' :: 'e' :: rest => some (.leaf (.ofValue (.bool true)), rest)
    | 'f' :: 'a' :: 'l' :: 's' :: 'e' :: rest => some (.leaf (.ofValue (.bool false)), rest)
    | '"' :: rest => (scanQuoted? rest).map fun (raw, rest) => (.leaf (.ofString raw), rest)
    | '[' :: rest =>
      match skipGaps rest with
      | ']' :: rest => some (.sequence [], rest)
      | rest => (readItems? fuel rest).map fun (ds, rest) => (.sequence ds, rest)
    | '\x7b' :: rest =>
      match skipGaps rest with
      | '\x7d' :: rest => some (.mapping [], rest)
      | rest => (readMembers? fuel rest).map fun (ms, rest) => (.mapping ms, rest)
    | cs => readNumber? cs

/-- Read items up to the end of their array. -/
def readItems? : Nat → List Char → Option (List Document × List Char)
  | 0, _ => none
  | fuel + 1, cs => do
    let (d, rest) ← readValue? fuel cs
    match skipGaps rest with
    | ']' :: rest => return ([d], rest)
    | ',' :: rest =>
      let (ds, rest) ← readItems? fuel rest
      return (d :: ds, rest)
    | _ => none

/-- Read members up to the end of their object. -/
def readMembers? : Nat → List Char → Option (List (Document × Document) × List Char)
  | 0, _ => none
  | fuel + 1, cs =>
    match skipGaps cs with
    | '"' :: rest => do
      let (raw, rest) ← scanQuoted? rest
      match skipGaps rest with
      | ':' :: rest =>
        let (d, rest) ← readValue? fuel rest
        match skipGaps rest with
        | '\x7d' :: rest => return ([(.leaf (.ofKey raw), d)], rest)
        | ',' :: rest =>
          let (ms, rest) ← readMembers? fuel rest
          return ((.leaf (.ofKey raw), d) :: ms, rest)
        | _ => none
      | _ => none
    | _ => none

end

/-- Read a whole text as a document. -/
def read? (text : String) : Option Document :=
  match readValue? (text.toList.length + 1) text.toList with
  | some (d, rest) => if (skipGaps rest).isEmpty then some d else none
  | none => none

/-- The greatest number of arrays and objects around and at a value. -/
def maxDepth : Nat := 127

/-- Read a whole text as a value. -/
def parse? (text : String) : Option Json := (read? text).bind (·.toJson? maxDepth)

end Json

end TagCache
