import TagCache.Text.Numeral

/-!
# Digests

The SHA-256 digest of a sequence of bytes (`Digest.sha256`) and its hexadecimal text
(`Digest.text`). The bytes are padded to whole blocks of 64 (`Digest.padded`), and each block is
mixed into eight words (`Digest.compress`).
-/

namespace TagCache

/-- The eight words of a digest. -/
structure Digest where
  (a b c d e f g h : UInt32)
deriving DecidableEq, Repr

namespace Digest

/-- The first 32 bits of the fractional parts of the square roots of the first 8 primes. -/
def start : Digest :=
  ⟨0x6a09e667, 0xbb67ae85, 0x3c6ef372, 0xa54ff53a, 0x510e527f, 0x9b05688c, 0x1f83d9ab, 0x5be0cd19⟩

/-- The first 32 bits of the fractional parts of the cube roots of the first 64 primes. -/
def roundConstants : List UInt32 := [
  0x428a2f98, 0x71374491, 0xb5c0fbcf, 0xe9b5dba5, 0x3956c25b, 0x59f111f1, 0x923f82a4, 0xab1c5ed5,
  0xd807aa98, 0x12835b01, 0x243185be, 0x550c7dc3, 0x72be5d74, 0x80deb1fe, 0x9bdc06a7, 0xc19bf174,
  0xe49b69c1, 0xefbe4786, 0x0fc19dc6, 0x240ca1cc, 0x2de92c6f, 0x4a7484aa, 0x5cb0a9dc, 0x76f988da,
  0x983e5152, 0xa831c66d, 0xb00327c8, 0xbf597fc7, 0xc6e00bf3, 0xd5a79147, 0x06ca6351, 0x14292967,
  0x27b70a85, 0x2e1b2138, 0x4d2c6dfc, 0x53380d13, 0x650a7354, 0x766a0abb, 0x81c2c92e, 0x92722c85,
  0xa2bfe8a1, 0xa81a664b, 0xc24b8b70, 0xc76c51a3, 0xd192e819, 0xd6990624, 0xf40e3585, 0x106aa070,
  0x19a4c116, 0x1e376c08, 0x2748774c, 0x34b0bcb5, 0x391c0cb3, 0x4ed8aa4a, 0x5b9cca4f, 0x682e6ff3,
  0x748f82ee, 0x78a5636f, 0x84c87814, 0x8cc70208, 0x90befffa, 0xa4506ceb, 0xbef9a3f7, 0xc67178f2]

/-- A word turned to the right by `n` bits. -/
def rotate (x : UInt32) (n : UInt32) : UInt32 := (x >>> n) ||| (x <<< (32 - n))

/-- Mix one word of the schedule and its round constant into the words. -/
def round (s : Digest) (k w : UInt32) : Digest :=
  let choice := (s.e &&& s.f) ^^^ (~~~s.e &&& s.g)
  let majority := (s.a &&& s.b) ^^^ (s.a &&& s.c) ^^^ (s.b &&& s.c)
  let t := s.h + (rotate s.e 6 ^^^ rotate s.e 11 ^^^ rotate s.e 25) + choice + k + w
  let u := (rotate s.a 2 ^^^ rotate s.a 13 ^^^ rotate s.a 22) + majority
  ⟨t + u, s.a, s.b, s.c, s.d + t, s.e, s.f, s.g⟩

/-- The word of the schedule that follows the first `t + 16` ones. -/
def nextWord (ws : Array UInt32) (t : Nat) : UInt32 :=
  let x := ws.getD (t + 1) 0
  let y := ws.getD (t + 14) 0
  (rotate y 17 ^^^ rotate y 19 ^^^ (y >>> 10)) + ws.getD (t + 9) 0
    + (rotate x 7 ^^^ rotate x 18 ^^^ (x >>> 3)) + ws.getD t 0

/-- The 64 words of the schedule, from the 16 words of a block. -/
def schedule (block : Array UInt32) : Array UInt32 :=
  (List.range 48).foldl (fun ws t => ws.push (nextWord ws t)) block

/-- The sums of the words. -/
def add (s s' : Digest) : Digest :=
  ⟨s.a + s'.a, s.b + s'.b, s.c + s'.c, s.d + s'.d, s.e + s'.e, s.f + s'.f, s.g + s'.g, s.h + s'.h⟩

/-- Mix a block of 16 words into the words. -/
def compress (s : Digest) (block : Array UInt32) : Digest :=
  s.add ((roundConstants.zip (schedule block).toList).foldl (fun s (k, w) => s.round k w) s)

/-- The bytes of a number in base 256, the most significant first, `n` of them. -/
def bigEndian (n value : Nat) : List UInt8 :=
  (List.range n).map fun i => UInt8.ofNat (value >>> (8 * (n - 1 - i)))

/-- The bytes with a one bit, zero bits and their number of bits in eight bytes behind them, which
fill blocks of 64 bytes. -/
def padded (bytes : ByteArray) : ByteArray :=
  let zeros := (119 - bytes.size % 64) % 64
  bytes ++ ⟨(0x80 :: List.replicate zeros 0 ++ bigEndian 8 (8 * bytes.size)).toArray⟩

/-- The byte at a position, zero behind the last one. -/
def byteAt (bytes : ByteArray) (i : Nat) : UInt8 := if h : i < bytes.size then bytes[i] else 0

/-- The word in four bytes from a position on. -/
def wordAt (bytes : ByteArray) (i : Nat) : UInt32 :=
  (List.range 4).foldl (fun w j => (w <<< 8) ||| (byteAt bytes (i + j)).toUInt32) 0

/-- The 16 words of the block with the given number. -/
def block (bytes : ByteArray) (n : Nat) : Array UInt32 :=
  Array.ofFn fun i : Fin 16 => wordAt bytes (64 * n + 4 * i.val)

/-- The digest of bytes. -/
def sha256 (bytes : ByteArray) : Digest :=
  let message := padded bytes
  (List.range (message.size / 64)).foldl (fun s n => s.compress (block message n)) start

/-- A word as eight hexadecimal digits. -/
def wordText (w : UInt32) : List Char :=
  let ds := Text.digits 16 w.toNat
  List.replicate (8 - ds.length) '0' ++ ds

/-- The hexadecimal text of a digest. -/
def text (s : Digest) : String :=
  String.ofList ([s.a, s.b, s.c, s.d, s.e, s.f, s.g, s.h].flatMap wordText)

end Digest

end TagCache
