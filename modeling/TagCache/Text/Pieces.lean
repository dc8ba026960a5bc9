/-!
# Pieces of a text

A text cut at a character (`Text.pieces`), which is in none of the pieces. A text without the
character is its only piece (`Text.pieces_of_not_mem`). `Text.lines` cuts at line feeds.
-/

namespace TagCache.Text

/-- The texts before, between and after the places where a character stands. -/
def pieces (sep : Char) : List Char → List (List Char)
  | [] => [[]]
  | c :: cs =>
    match pieces sep cs with
    | [] => [[c]]
    | p :: ps => if c = sep then [] :: p :: ps else (c :: p) :: ps

theorem pieces_ne_nil (sep : Char) (cs : List Char) : pieces sep cs ≠ [] := by
  cases cs with
  | nil => simp [pieces]
  | cons c cs =>
    unfold pieces
    split
    · simp
    · split <;> simp

/-- A text is its only piece if the character is not in it. -/
theorem pieces_of_not_mem {sep : Char} {cs : List Char} (h : sep ∉ cs) : pieces sep cs = [cs] := by
  induction cs with
  | nil => rfl
  | cons c cs ih =>
    obtain ⟨hc, hcs⟩ := not_or.1 (mt List.mem_cons.2 h)
    simp [pieces, ih hcs, Ne.symm hc]

/-- The lines of a text, which line feeds divide. -/
def lines (text : String) : List String := (pieces '\n' text.toList).map String.ofList

end TagCache.Text
