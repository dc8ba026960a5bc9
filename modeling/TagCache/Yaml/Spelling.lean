import TagCache.Text.Numeral
import TagCache.Yaml.Mark

/-!
# Spellings of YAML scalars

The text of a scalar as it is spelled in one or more lines: in quotes (`quoted?`), where a double
quote allows escapes, and plain (`plain?`), where the text ends before what has a meaning of its
own. A gap that holds a break is folded (`folded`): one line feed becomes a space, and breaks after
it stay as they are.
-/

namespace TagCache.Yaml

/-- What a gap inside a scalar becomes. -/
def folded (gap : List Char) : List Char :=
  match gap.filter isBreak with
  | [] => gap
  | ['\n'] => [' ']
  | '\n' :: more => more
  | breaks => breaks

/-- The gap in front. -/
def gap (ms : List Mark) : List Mark := ms.takeWhile fun m => isGap m.char

/-- What follows the gap in front. -/
def afterGap (ms : List Mark) : List Mark := ms.dropWhile fun m => isGap m.char

/-! ## In quotes -/

/-- The character that an escape of one letter stands for. -/
def shortEscape? (c : Char) : Option Char :=
  match c with
  | '0' => some '\x00'
  | 'a' => some '\x07'
  | 'b' => some '\x08'
  | 't' => some '\t'
  | '\t' => some '\t'
  | 'n' => some '\n'
  | 'v' => some '\x0b'
  | 'f' => some '\x0c'
  | 'r' => some '\r'
  | 'e' => some '\x1b'
  | ' ' => some ' '
  | '"' => some '"'
  | '/' => some '/'
  | '\\' => some '\\'
  | 'N' => some '\u0085'
  | '_' => some '\u00a0'
  | 'L' => some '\u2028'
  | 'P' => some '\u2029'
  | _ => none

/-- The number of hexadecimal digits of an escape by code point. -/
def escapeWidth? (c : Char) : Option Nat :=
  match c with
  | 'x' => some 2
  | 'u' => some 4
  | 'U' => some 8
  | _ => none

/-- The character with a code point, if there is one. -/
def codePoint? (n : Nat) : Option Char :=
  if n < 0xd800 ∨ (0xe000 ≤ n ∧ n < 0x110000) then some (Char.ofNat n) else none

/-- The text of an escape whose backslash was just read, and what follows. An escaped break stands
for nothing, and of the gap after it only the breaks are kept. -/
def escape? : List Mark → Option (List Char × List Mark)
  | [] => none
  | m :: rest =>
    if isBreak m.char then some (((gap rest).map (·.char)).filter isBreak, afterGap rest)
    else match escapeWidth? m.char with
      | some width => do
        let digits := (rest.take width).map (·.char)
        if digits.length < width then none
        return ([← codePoint? (← Text.value? 16 digits)], rest.drop width)
      | none => (shortEscape? m.char).map fun c => ([c], rest)

/-- The text of a scalar whose opening quote was just read, and what follows. -/
def quoted? (quote : Char) : Nat → List Mark → Option (List Char × List Mark)
  | 0, _ => none
  | _, [] => none
  | fuel + 1, m :: rest =>
    let goOn (cs : List Char) (rest : List Mark) :=
      (quoted? quote fuel rest).map fun r => (cs ++ r.1, r.2)
    if atDivider (m :: rest) then none
    else if isGap m.char then
      goOn (folded ((gap (m :: rest)).map (·.char))) (afterGap (m :: rest))
    else if m.char = quote then
      if quote = '\'' ∧ atOneOf ['\''] rest then goOn ['\''] rest.tail else some ([], rest)
    else if quote = '"' ∧ m.char = '\\' then (escape? rest).bind fun r => goOn r.1 r.2
    else goOn [m.char] rest

/-! ## Plain -/

/-- The characters that divide nodes in brackets. -/
def flowMarks : List Char := [',', '[', ']', '\x7b', '\x7d']

/-- The characters that no plain scalar starts with, though some may where a word follows. -/
def indicators : List Char :=
  flowMarks
    ++ ['-', '?', ':', '#', '&', '*', '!', '|', '>', '\'', '"', '%', '@', '\x60']

/-- Whether a plain scalar starts here. -/
def startsPlain (inFlow : Bool) : List Mark → Bool
  | [] => false
  | m :: rest =>
    if m.char = '-' then !atGap rest
    else if m.char = '?' ∨ m.char = ':' then !inFlow && !atGap rest
    else !isGap m.char && !indicators.contains m.char

/-- Where a plain scalar stands: whether in brackets, and the least column of its further lines. -/
structure PlainScope where
  inFlow : Bool
  least : Nat

/-- What is read of a plain scalar: its text, what follows the gap after it, and whether a line
ended in that gap. -/
structure PlainText where
  text : List Char
  rest : List Mark
  lineEnded : Bool

/-- A word of a plain scalar, which may be empty, and what follows. Inside brackets no colon stands
right before a mark that divides nodes. -/
def word? (inFlow : Bool) : List Mark → Option (List Char × List Mark)
  | [] => some ([], [])
  | m :: rest =>
    if isGap m.char then some ([], m :: rest)
    else if inFlow ∧ m.char = ':' ∧ atOneOf ('?' :: flowMarks) rest then none
    else if m.char = ':' ∧ atGap rest then some ([], m :: rest)
    else if inFlow ∧ flowMarks.contains m.char then some ([], m :: rest)
    else (word? inFlow rest).map fun r => (m.char :: r.1, r.2)

/-- Whether a tab stands in a further line where only spaces may. -/
def PlainScope.isTabbed (s : PlainScope) (gap : List Mark) : Bool :=
  (gap.dropWhile fun m => !isBreak m.char).any fun m => m.char = '\t' && m.column < s.least

/-- Whether a plain scalar may go on here, after a gap. -/
def PlainScope.resumes (s : PlainScope) : List Mark → Bool
  | [] => false
  | m :: rest => (s.inFlow || s.least ≤ m.column) && !atDivider (m :: rest) && m.char ≠ '#'

/-- A plain scalar, which may be empty. -/
def plain? (s : PlainScope) : Nat → List Mark → Option PlainText
  | 0, _ => none
  | fuel + 1, ms => do
    let (word, rest) ← word? s.inFlow ms
    let between := (gap rest).map (·.char)
    if s.isTabbed (gap rest) then none
    let alone : PlainText := ⟨word, afterGap rest, between.any isBreak⟩
    if between.isEmpty || !s.resumes (afterGap rest) then return alone
    let more ← plain? s fuel (afterGap rest)
    if more.text.isEmpty then return alone
    return { more with text := word ++ folded between ++ more.text }

end TagCache.Yaml
