import TagCache.Text.Numeral

/-!
# File faults

Why a file cannot be read or written (`FileFault`), with the messages of the system
(`FileFault.message`).
-/

namespace TagCache

/-- Why a file cannot be read or written. -/
inductive FileFault where
  | notFound
  | alreadyExists
  | notDirectory
  | isDirectory
  | nameTooLong
  /-- A name holds the character that ends names. -/
  | nulInName
  /-- The bytes of the file are no text. -/
  | notText
  /-- Another fault of the system, with its number. -/
  | other (number : Nat) (text : String)
deriving DecidableEq, Repr

namespace FileFault

/-- The message of a fault that the system numbers. -/
def numbered (number : Nat) (text : String) : String :=
  text ++ " (os error " ++ Text.decimal number ++ ")"

/-- The message of a fault. -/
def message : FileFault → String
  | .notFound => numbered 2 "No such file or directory"
  | .alreadyExists => numbered 17 "File exists"
  | .notDirectory => numbered 20 "Not a directory"
  | .isDirectory => numbered 21 "Is a directory"
  | .nameTooLong => numbered 36 "File name too long"
  | .nulInName => "file name contained an unexpected NUL byte"
  | .notText => "stream did not contain valid UTF-8"
  | .other number text => numbered number text

end FileFault

end TagCache
