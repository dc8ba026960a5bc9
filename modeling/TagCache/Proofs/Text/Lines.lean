import TagCache.Partition
import TagCache.Proofs.Text.Numeral
import TagCache.Text.Pieces

/-!
# Texts of one line

A text without a line feed is its only line (`Text.lines_of_singleLine`). Numbers, addresses and
quoted texts have none, so neither have the names of partitions and keys in reports, nor lists of
them (`Text.SingleLine.intercalate`).
-/

namespace TagCache

namespace Text

/-- No line feed is in the text. -/
def SingleLine (text : String) : Prop := '\n' ∉ text.toList

instance (text : String) : Decidable (SingleLine text) := inferInstanceAs (Decidable (¬_))

/-- A text has a first line, if an empty one. -/
theorem lines_ne_nil (text : String) : lines text ≠ [] := by
  simp [lines, pieces_ne_nil]

/-- A text without line breaks is its only line. -/
theorem lines_of_singleLine {text : String} (h : SingleLine text) : lines text = [text] := by
  unfold lines
  rw [pieces_of_not_mem h]
  simp

/-- Texts without line breaks have none when they are joined. -/
theorem SingleLine.append {s t : String} (hs : SingleLine s) (ht : SingleLine t) :
    SingleLine (s ++ t) := by
  unfold SingleLine
  rw [String.toList_append, List.mem_append]
  exact not_or.2 ⟨hs, ht⟩

/-- A text that is written out is of one line if none of its characters is a line feed. -/
theorem SingleLine.literal {cs : List Char} (h : '\n' ∉ cs := by decide) :
    SingleLine (String.ofList cs) := by
  unfold SingleLine
  rwa [String.toList_ofList]

/-- Texts of one line stay on one line with such a text between them. -/
theorem SingleLine.intercalate {sep : String} {items : List String} (hsep : SingleLine sep)
    (hitems : ∀ item ∈ items, SingleLine item) : SingleLine (sep.intercalate items) := by
  unfold SingleLine
  rw [String.toList_intercalate]
  induction items with
  | nil => simp
  | cons item rest ih =>
    obtain ⟨hitem, hrest⟩ := List.forall_mem_cons.1 hitems
    cases rest with
    | nil => simpa [SingleLine] using hitem
    | cons next rest =>
      have hlater := ih hrest
      rw [List.map_cons, List.map_cons, List.intercalate_cons_cons, ← List.map_cons]
      simp only [List.mem_append, not_or]
      exact ⟨⟨hitem, hsep⟩, hlater⟩

/-- Texts of one line are written as they are. -/
theorem flatMap_lines {texts : List String} (h : ∀ text ∈ texts, SingleLine text) :
    texts.flatMap lines = texts := by
  induction texts with
  | nil => rfl
  | cons text rest ih =>
    obtain ⟨htext, hrest⟩ := List.forall_mem_cons.1 h
    rw [List.flatMap_cons, lines_of_singleLine htext, ih hrest]
    rfl

/-- No digit is a line break. -/
theorem newline_notMem_digits (radix : Nat) (hr : 1 < radix) (hr' : radix ≤ 16) (n : Nat) :
    '\n' ∉ digits radix n := by
  obtain ⟨ds, hds, hlt, -, -⟩ := exists_digits hr n
  rw [hds]
  intro h
  obtain ⟨d, hd, hchar⟩ := List.mem_map.1 h
  have key : ∀ d < 16, Nat.digitChar d ≠ '\n' := by decide
  exact key d (Nat.lt_of_lt_of_le (hlt d hd) hr') hchar

/-- A decimal number is one line. -/
theorem singleLine_decimal (n : Nat) : SingleLine (decimal n) := by
  unfold SingleLine decimal
  rw [String.toList_ofList]
  exact newline_notMem_digits 10 (by decide) (by decide) n

/-- A quoted text shows its line feeds as escapes. -/
theorem singleLine_quoted (text : String) : SingleLine (quoted text) := by
  have hescape : ∀ c : Char, '\n' ∉ escapeShown c := by
    intro c
    unfold escapeShown
    split
    iterate 6 decide
    next hne _ _ =>
      have hdigits := newline_notMem_digits 16 (by decide) (by decide) c.toNat
      split
      · simpa using Ne.symm hne
      · simp [hdigits]
  unfold SingleLine quoted
  rw [String.toList_ofList]
  simp [hescape]

end Text

open Text

/-- The text of an address is one line. -/
theorem Address.singleLine_text (a : Address) : SingleLine a.text := by
  unfold SingleLine
  rw [Address.toList_text]
  have hdigits := newline_notMem_digits 16 (by decide) (by decide) a.toNat
  simp [hdigits]

/-- A label behind an address in brackets. -/
theorem Address.singleLine_bracketed (a : Address) {label : String} (h : SingleLine label) :
    SingleLine ("[" ++ a.text ++ label) :=
  .append (.append .literal a.singleLine_text) h

/-- The text of a key of the index is one line. -/
theorem GlobalKey.singleLine_text (k : GlobalKey) : SingleLine k.text := by
  cases k with
  | name n => exact SingleLine.append .literal (singleLine_quoted n)
  | address a => exact SingleLine.append .literal a.singleLine_text

end TagCache
