import TagCache.Failure
import TagCache.Host.Fault

/-!
# Problems

Why a command stops (`Problem`): a cause within what was being done. `Problem.messages` are its
messages from the outermost to the innermost, and `Problem.report` is what is shown of them. A
command that stops at a sum has an exit status of its own (`Problem.exitStatus`).
-/

namespace TagCache

/-- Why a command stops. -/
inductive Problem where
  | failure (e : Failure)
  | file (e : FileFault)
  /-- The configuration of the project is not JSON or not of the wanted shape. -/
  | malformedConfig
  /-- A text that should name an address does not. -/
  | invalidAddress (text : String)
  /-- A cache was checked and not accepted. -/
  | rejected (text : String)
  /-- A sum does not fit a word. -/
  | overflow
  /-- A problem in doing something. -/
  | within (context : String) (cause : Problem)
deriving DecidableEq, Repr

namespace Problem

/-- The messages, the outermost first. -/
def messages (w : Wording) : Problem → List String
  | .failure e => e.messages w
  | .file e => [e.message]
  | .malformedConfig => w.json.messages
  | .invalidAddress text => ["Invalid address '" ++ text ++ "'"]
  | .rejected text => [text]
  | .overflow => [w.overflow]
  | .within context cause => context :: cause.messages w

/-- The messages in one line. -/
def summary (w : Wording) (p : Problem) : String := ": ".intercalate (p.messages w)

/-- A text with its further lines indented. -/
def indented (columns : Nat) (text : String) : String :=
  String.ofList (text.toList.flatMap fun c =>
    if c = '\n' then c :: List.replicate columns ' ' else [c])

/-- The lines of numbered causes, from a number on. -/
def numbered : Nat → List String → String
  | _, [] => ""
  | i, cause :: causes =>
    let number := Text.decimal i
    String.ofList (List.replicate (5 - number.length) ' ') ++ number ++ ": " ++ indented 7 cause
      ++ "\n" ++ numbered (i + 1) causes

/-- The causes as they are shown. They are numbered unless there is one alone. -/
def causesText : List String → String
  | [] => ""
  | [cause] => "\nCaused by:\n    " ++ indented 4 cause ++ "\n"
  | causes => "\nCaused by:\n" ++ numbered 0 causes

/-- The report of a problem. The program says itself that it stops at a sum. -/
def report (w : Wording) : Problem → String
  | .overflow => w.overflow ++ "\n"
  | p =>
    match p.messages w with
    | [] => ""
    | first :: causes => "Error: " ++ first ++ "\n" ++ causesText causes

/-- The exit status of a command that stops. -/
def exitStatus : Problem → Nat
  | .overflow => 101
  | _ => 1

end Problem

end TagCache
