import TagCache.Text.Blank
import TagCache.Text.Numeral

/-!
# Addresses

Locations in a binary's address space are 64-bit words (`Address`). They are written in lower-case
hexadecimal with a marker (`Address.text`) and read in hexadecimal or decimal, between blanks
(`Address.parse?`).
-/

namespace TagCache

/-- A location in the address space. -/
abbrev Address := UInt64

namespace Address

/-- The number of addresses. -/
def count : Nat := UInt64.size

/-- The written form: `0x` and the hexadecimal digits. -/
def text (a : Address) : String := "0x" ++ Text.hex a.toNat

/-- Read an address between blanks: hexadecimal after `0x` or `0X`, decimal otherwise. A plus sign
may stand before the digits. -/
def parse? (text : String) : Option Address :=
  let read (radix : Nat) (cs : List Char) := (Text.readBelow? radix count cs).map UInt64.ofNat
  match Text.trim text.toList with
  | '0' :: 'x' :: cs => read 16 cs
  | '0' :: 'X' :: cs => read 16 cs
  | cs => read 10 cs

end Address

end TagCache
