import TagCache.Text.Shown
import TagCache.Text.Numeral

/-!
# Quoted text

How messages show a text between double quotes (`quoted`): a quote and a backslash are escaped, four
control characters have short escapes, and every other character that is not shown as itself is
written by its code point (`escapeShown`).
-/

namespace TagCache.Text

/-- A character as it stands between the quotes. -/
def escapeShown (c : Char) : List Char :=
  match c with
  | '\x00' => ['\\', '0']
  | '\t' => ['\\', 't']
  | '\r' => ['\\', 'r']
  | '\n' => ['\\', 'n']
  | '"' => ['\\', '"']
  | '\\' => ['\\', '\\']
  | c => if isShown c then [c] else '\\' :: 'u' :: '\x7b' :: (digits 16 c.toNat ++ ['\x7d'])

/-- A text between double quotes, with escapes. -/
def quoted (text : String) : String :=
  String.ofList ('"' :: (text.toList.flatMap escapeShown ++ ['"']))

end TagCache.Text
