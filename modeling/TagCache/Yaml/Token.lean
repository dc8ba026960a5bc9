import TagCache.Yaml.Scalar
import TagCache.Yaml.Spelling

/-!
# Tokens of a YAML text

A text as marks and scalars (`tokens?`). The columns that collections in lines stand at become
tokens that open and close them. A key is told only by the colon after it, so each place where one
may have started is kept as a `Candidate` until its line ends, and its token is put in when the
colon comes. Anchors, tags, block scalars and directives are refused.
-/

namespace TagCache.Yaml

/-- A token. -/
inductive Token where
  /-- Three dashes in front of a document. -/
  | documentStart
  /-- Three points after a document. -/
  | documentEnd
  /-- A sequence in lines starts. -/
  | blockSequence
  /-- A mapping in lines starts. -/
  | blockMapping
  /-- A collection in lines ends. -/
  | blockEnd
  /-- An opening bracket. -/
  | flowSequence
  /-- A closing bracket. -/
  | flowSequenceEnd
  /-- An opening brace. -/
  | flowMapping
  /-- A closing brace. -/
  | flowMappingEnd
  /-- The dash of an item. -/
  | item
  /-- A comma. -/
  | comma
  /-- A key follows. -/
  | key
  /-- The colon of a value. -/
  | value
  /-- A scalar. -/
  | scalar (l : Leaf)
deriving DecidableEq, Repr

/-- A place where a key may have started. -/
structure Candidate extends Place where
  /-- The number of tokens in front. -/
  index : Nat
  /-- Whether nothing but a key may start there. -/
  required : Bool
deriving DecidableEq, Repr

/-- The greatest number of bytes between the start of a key and its colon. -/
def maxKeyBytes : Nat := 1024

/-- Whether a key that started at the candidate may still end at a mark. -/
def Candidate.reaches (c : Candidate) (m : Mark) : Bool :=
  c.line = m.line && m.offset ≤ c.offset + maxKeyBytes

/-- A text that has been read into tokens up to a place. -/
structure Scan where
  /-- What is left to read. -/
  rest : List Mark
  tokens : Array Token
  /-- The columns of the open collections in lines, the innermost first. -/
  columns : List Nat
  /-- Where the key of the present level may have started. -/
  candidate : Option Candidate
  /-- The same for the levels around it, one for each open bracket. -/
  outer : List (Option Candidate)
  /-- Whether a key may start at the next token. -/
  mayKey : Bool
deriving Repr

namespace Scan

/-- Before anything was read. -/
def start (ms : List Mark) : Scan := ⟨ms, #[], [], none, [], true⟩

/-- Whether a bracket is open. -/
def inFlow (s : Scan) : Bool := !s.outer.isEmpty

/-- Add a token. -/
def emit (t : Token) (s : Scan) : Scan := { s with tokens := s.tokens.push t }

/-! ## Gaps and columns -/

/-- What follows gaps and comments, and whether a key may start there. Outside of brackets a line
break lets one start, and where one may start no tab stands. A byte order mark that starts a line is
passed over, but takes a column. -/
def passGaps (inFlow : Bool) : Bool → Bool → List Mark → Bool × List Mark
  | mayKey, _, [] => (mayKey, [])
  | mayKey, inComment, m :: rest =>
    if isBreak m.char then passGaps inFlow (mayKey || !inFlow) false rest
    else if inComment || m.char = ' ' || (m.char = '\t' && (inFlow || !mayKey))
        || (m.char = '\ufeff' && m.column = 0) then
      passGaps inFlow mayKey inComment rest
    else if m.char = '#' then passGaps inFlow mayKey true rest
    else (mayKey, m :: rest)

/-- Go to the next token. -/
def toToken (s : Scan) : Scan :=
  let (mayKey, rest) := passGaps s.inFlow s.mayKey false s.rest
  { s with mayKey, rest }

/-- Close the collections in lines whose columns, from the innermost on, satisfy a test. -/
def closeWhile (p : Nat → Bool) (s : Scan) : Scan :=
  if s.inFlow then s
  else { s with
    columns := s.columns.dropWhile p
    tokens := s.tokens ++ List.replicate (s.columns.takeWhile p).length Token.blockEnd }

/-- Open a collection in lines at a column to the right of the innermost one, by a token at an
index. -/
def openAt (column index : Nat) (t : Token) (s : Scan) : Scan :=
  if s.inFlow || s.columns.head?.any (column ≤ ·) then s
  else { s with
    columns := column :: s.columns
    tokens := s.tokens.insertIdxIfInBounds index t }

/-! ## Candidates for keys -/

/-- Give up the candidate of the present level, which must not be required. -/
def release? (s : Scan) : Option Scan :=
  if s.candidate.any (·.required) then none else some { s with candidate := none }

/-- Give up the candidate of the present level if a mark is out of its reach. Those of the levels
around it wait until their brackets are closed, since no mark comes into reach again. -/
def expire? (m : Mark) (s : Scan) : Option Scan :=
  if s.candidate.all (·.reaches m) then some s else s.release?

/-- A key may start at a mark. It must where the keys of the innermost mapping stand. -/
def propose? (m : Mark) (s : Scan) : Option Scan :=
  if !s.mayKey then some s
  else do
    let required := !s.inFlow && s.columns.head? = some m.column
    return { ← s.release? with
      candidate := some ⟨m.toPlace, s.tokens.size, required⟩ }

/-! ## Tokens -/

/-- The text is read to its end. -/
def finish? (s : Scan) : Option (List Token) := do
  return (← (s.closeWhile fun _ => true).release?).tokens.toList

/-- A line that divides documents. -/
def divider? (t : Token) (s : Scan) : Option Scan := do
  let s ← (s.closeWhile fun _ => true).release?
  return { s.emit t with rest := s.rest.drop 3, mayKey := false }

/-- An opening bracket or brace. -/
def opening? (t : Token) (m : Mark) (rest : List Mark) (s : Scan) : Option Scan := do
  let s ← s.propose? m
  return { s.emit t with rest, candidate := none, outer := s.candidate :: s.outer, mayKey := true }

/-- A closing bracket or brace. -/
def closing? (t : Token) (rest : List Mark) (s : Scan) : Option Scan := do
  let s ← s.release?
  let s := match s.outer with
    | [] => s
    | c :: outer => { s with candidate := c, outer }
  return { s.emit t with rest, mayKey := false }

/-- A comma. -/
def comma? (rest : List Mark) (s : Scan) : Option Scan := do
  return { (← s.release?).emit .comma with rest, mayKey := true }

/-- The dash of an item. -/
def dash? (m : Mark) (rest : List Mark) (s : Scan) : Option Scan := do
  if !s.inFlow && !s.mayKey then none
  let s ← (s.openAt m.column s.tokens.size .blockSequence).release?
  return { s.emit .item with rest, mayKey := true }

/-- The question mark of a key. -/
def question? (m : Mark) (rest : List Mark) (s : Scan) : Option Scan := do
  if !s.inFlow && !s.mayKey then none
  let s ← (s.openAt m.column s.tokens.size .blockMapping).release?
  return { s.emit .key with rest, mayKey := !s.inFlow }

/-- The colon of a value. It makes the candidate of the present level a key. -/
def colon? (m : Mark) (rest : List Mark) (s : Scan) : Option Scan :=
  match s.candidate with
  | some c =>
    let s := { s with
      tokens := s.tokens.insertIdxIfInBounds c.index .key, candidate := none, mayKey := false }
    some { (s.openAt c.column c.index .blockMapping).emit .value with rest }
  | none =>
    if !s.inFlow && !s.mayKey then none
    else
      let s := s.openAt m.column s.tokens.size .blockMapping
      some { s.emit .value with rest, mayKey := !s.inFlow }

/-- A scalar in quotes, read in at most so many steps. -/
def quote? (fuel : Nat) (m : Mark) (rest : List Mark) (s : Scan) : Option Scan := do
  let s ← s.propose? m
  let (text, rest) ← quoted? m.char fuel rest
  return { s.emit (.scalar (.ofQuoted (String.ofList text))) with rest, mayKey := false }

/-- A plain scalar, read in at most so many steps. After a line break a key may start. -/
def word? (fuel : Nat) (m : Mark) (s : Scan) : Option Scan := do
  let least := match s.columns.head? with
    | none => 0
    | some column => column + 1
  let read ← plain? ⟨s.inFlow, least⟩ fuel s.rest
  let s ← s.propose? m
  return { s.emit (.scalar (.ofPlain (String.ofList read.text))) with
    rest := read.rest, mayKey := read.lineEnded }

/-- The token that starts at a mark, read in at most so many steps. -/
def token? (fuel : Nat) (m : Mark) (rest : List Mark) (s : Scan) : Option Scan :=
  if m.column = 0 ∧ m.char = '%' then none
  else if atTriple '-' s.rest then s.divider? .documentStart
  else if atTriple '.' s.rest then s.divider? .documentEnd
  else if m.char = '[' then s.opening? .flowSequence m rest
  else if m.char = '\x7b' then s.opening? .flowMapping m rest
  else if m.char = ']' then s.closing? .flowSequenceEnd rest
  else if m.char = '\x7d' then s.closing? .flowMappingEnd rest
  else if m.char = ',' then s.comma? rest
  else if m.char = '-' ∧ atGap rest then s.dash? m rest
  else if m.char = '?' ∧ (s.inFlow ∨ atGap rest) then s.question? m rest
  else if m.char = ':' ∧ (s.inFlow ∨ atGap rest) then s.colon? m rest
  else if m.char = '\'' ∨ m.char = '"' then s.quote? fuel m rest
  else if startsPlain s.inFlow s.rest then s.word? fuel m
  else none

/-- All tokens, read in at most so many steps. Each step passes over a character, so what bounds the
steps also bounds the characters that are left. -/
def run? : Nat → Scan → Option (List Token)
  | 0, _ => none
  | fuel + 1, s =>
    let s := s.toToken
    match s.rest with
    | [] => s.finish?
    | m :: rest => do
      let s ← s.expire? m
      run? fuel (← (s.closeWhile (m.column < ·)).token? fuel m rest)

end Scan

/-- The tokens of a text. -/
def tokens? (text : String) : Option (List Token) :=
  if text.toList.all isAllowed then
    let ms := marks ⟨0, 0, 0⟩ text.toList
    (Scan.start ms).run? (ms.length + 1)
  else none

end TagCache.Yaml
