import TagCache.Text.Numeral

/-!
# Strings in JSON texts

The text between the quotes of a JSON string: `escape` writes it, `scanQuoted?` finds its end and
checks that every escape is one of the format's, and `unescape?` gives it its meaning, which fails
on half a surrogate pair.
-/

namespace TagCache.Json

/-- The four hexadecimal digits of a control character. -/
def hexDigits4 (n : Nat) : List Char :=
  let ds := Text.digits 16 n
  List.replicate (4 - ds.length) '0' ++ ds

/-- A character as it stands in a string. -/
def escapeChar (c : Char) : List Char :=
  match c with
  | '"' => ['\\', '"']
  | '\\' => ['\\', '\\']
  | '\x08' => ['\\', 'b']
  | '\x0c' => ['\\', 'f']
  | '\n' => ['\\', 'n']
  | '\r' => ['\\', 'r']
  | '\t' => ['\\', 't']
  | c => if c.toNat < 0x20 then '\\' :: 'u' :: hexDigits4 c.toNat else [c]

/-- A text as it stands in a string. -/
def escape (cs : List Char) : List Char := cs.flatMap escapeChar

/-- The character that an escape of one letter stands for. -/
def shortEscape? (c : Char) : Option Char :=
  match c with
  | '"' => some '"'
  | '\\' => some '\\'
  | '/' => some '/'
  | 'b' => some '\x08'
  | 'f' => some '\x0c'
  | 'n' => some '\n'
  | 'r' => some '\r'
  | 't' => some '\t'
  | _ => none

/-- The number that four hexadecimal digits denote. -/
def hex4? (a b c d : Char) : Option Nat := Text.value? 16 [a, b, c, d]

/-- The text between an opening quote that was just read and its closing quote, as written, and
the rest. -/
def scanQuoted? : List Char → Option (List Char × List Char)
  | [] => none
  | '"' :: rest => some ([], rest)
  | '\\' :: 'u' :: a :: b :: c :: d :: rest =>
    if (hex4? a b c d).isSome then
      (scanQuoted? rest).map fun r => ('\\' :: 'u' :: a :: b :: c :: d :: r.1, r.2)
    else none
  | '\\' :: e :: rest =>
    if (shortEscape? e).isSome then (scanQuoted? rest).map fun r => ('\\' :: e :: r.1, r.2)
    else none
  | c :: rest =>
    if c.toNat < 0x20 then none else (scanQuoted? rest).map fun r => (c :: r.1, r.2)

/-- Whether a code unit is the first half of a surrogate pair. -/
def isHighHalf (n : Nat) : Bool := 0xd800 ≤ n && n < 0xdc00

/-- Whether a code unit is the second half of a surrogate pair. -/
def isLowHalf (n : Nat) : Bool := 0xdc00 ≤ n && n < 0xe000

/-- The character of a surrogate pair. -/
def ofHalves (high low : Nat) : Char :=
  Char.ofNat (0x10000 + (high - 0xd800) * 0x400 + (low - 0xdc00))

/-- The text that the written form stands for. -/
def unescape? : List Char → Option (List Char)
  | [] => some []
  | '\\' :: 'u' :: a :: b :: c :: d :: rest =>
    match hex4? a b c d with
    | none => none
    | some n =>
      if isHighHalf n then
        match rest with
        | '\\' :: 'u' :: a' :: b' :: c' :: d' :: rest' =>
          match hex4? a' b' c' d' with
          | none => none
          | some n' =>
            if isLowHalf n' then (unescape? rest').map (ofHalves n n' :: ·) else none
        | _ => none
      else if isLowHalf n then none
      else (unescape? rest).map (Char.ofNat n :: ·)
  | '\\' :: e :: rest =>
    match shortEscape? e with
    | none => none
    | some c => (unescape? rest).map (c :: ·)
  | c :: rest => (unescape? rest).map (c :: ·)

end TagCache.Json
