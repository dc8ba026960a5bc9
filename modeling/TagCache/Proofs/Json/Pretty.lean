import TagCache.Proofs.Json.RoundTrip

/-!
# Reading back indented values

The blanks of an indented text stand between tokens, where the reader passes over them. So a value
is read from its indented text as it is from its text without blanks (`Json.read?_pretty`). The
induction over the value is `Json.readValue?_renderPretty`.
-/

namespace TagCache.Json

open Literal (Ends)

/-! ## Blanks -/

/-- Gaps in front of a text are skipped with those at its start. -/
theorem skipGaps_append {gaps : List Char} (h : ∀ c ∈ gaps, isGap c = true) (cs : List Char) :
    skipGaps (gaps ++ cs) = skipGaps cs :=
  List.dropWhile_append_of_pos h

/-- A new line is made of gaps. -/
theorem isGap_newLine (level : Nat) : ∀ c ∈ newLine level, isGap c = true := by
  intro c hc
  rcases List.mem_cons.1 hc with rfl | hc
  · decide
  · rw [List.eq_of_mem_replicate hc]
    decide

/-- A new line is skipped. -/
theorem skipGaps_newLine (level : Nat) (cs : List Char) :
    skipGaps (newLine level ++ cs) = skipGaps cs :=
  skipGaps_append (isGap_newLine level) cs

/-- The reader passes over blanks in front of a value. -/
theorem readValue?_gaps {gaps : List Char} (h : ∀ c ∈ gaps, isGap c = true) (fuel : Nat)
    (cs : List Char) : readValue? fuel (gaps ++ cs) = readValue? fuel cs := by
  cases fuel with
  | zero => rfl
  | succ fuel => rw [readValue?, readValue?, skipGaps_append h]

/-- A space in front of a value is skipped. -/
theorem readValue?_space (fuel : Nat) (cs : List Char) :
    readValue? fuel (' ' :: cs) = readValue? fuel cs :=
  readValue?_gaps (List.forall_mem_singleton.2 (by decide)) fuel cs

/-- A new line in front of items is skipped. -/
theorem readItems?_newLine (fuel level : Nat) (cs : List Char) :
    readItems? fuel (newLine level ++ cs) = readItems? fuel cs := by
  cases fuel with
  | zero => rfl
  | succ fuel => rw [readItems?, readItems?, readValue?_gaps (isGap_newLine level)]

/-- A new line in front of members is skipped. -/
theorem readMembers?_newLine (fuel level : Nat) (cs : List Char) :
    readMembers? fuel (newLine level ++ cs) = readMembers? fuel cs := by
  cases fuel with
  | zero => rfl
  | succ fuel => rw [readMembers?, readMembers?, skipGaps_newLine]

/-- It does so after the start of an array or an object as well. -/
theorem readValue?_bracket_newLine (fuel level : Nat) (cs : List Char) :
    readValue? (fuel + 1) ('[' :: (newLine level ++ cs)) = readValue? (fuel + 1) ('[' :: cs) := by
  have hopen (cs : List Char) : skipGaps ('[' :: cs) = '[' :: cs := skipGaps_cons cs (by decide)
  simp only [readValue?, hopen, skipGaps_newLine]

/-- A new line behind an opening brace is skipped. -/
theorem readValue?_brace_newLine (fuel level : Nat) (cs : List Char) :
    readValue? (fuel + 1) ('\x7b' :: (newLine level ++ cs))
      = readValue? (fuel + 1) ('\x7b' :: cs) := by
  have hopen (cs : List Char) : skipGaps ('\x7b' :: cs) = '\x7b' :: cs :=
    skipGaps_cons cs (by decide)
  simp only [readValue?, hopen, skipGaps_newLine]

/-- A new line ends a number. -/
theorem ends_newLine (level : Nat) (rest : List Char) : Ends (newLine level ++ rest) :=
  .cons (by decide) (by decide) (by decide) (by decide)

/-! ## Values -/

/-- An indented value starts with a character that is neither a gap nor the end of an array. -/
theorem renderPretty_eq_cons (level : Nat) {v : Json} (hv : v.Legible) :
    ∃ c cs, renderPretty level v = c :: cs ∧ isGap c = false ∧ c ≠ ']' := by
  cases v with
  | array xs => cases xs <;> exact ⟨_, _, rfl, by decide, by decide⟩
  | object ms =>
    cases ms with
    | nil => exact ⟨_, _, rfl, by decide, by decide⟩
    | cons b ms => exact ⟨_, _, rfl, by decide, by decide⟩
  | null | bool | int | float | string => exact render_eq_cons hv

/-- A value has a text. -/
theorem length_renderPretty_pos (level : Nat) {v : Json} (hv : v.Legible) :
    0 < (renderPretty level v).length := by
  obtain ⟨c, cs, h, -⟩ := renderPretty_eq_cons level hv
  simp [h]

/-- The items of an array, each after the first on a line of its own. -/
def itemsText (level : Nat) : List Json → List Char
  | [] => []
  | v :: vs => renderPretty level v ++ prettyItems level vs

/-- The members of an object, each after the first on a line of its own. -/
def membersText (level : Nat) : List (String × Json) → List Char
  | [] => []
  | (k, v) :: ms =>
    stringText k ++ ':' :: ' ' :: renderPretty level v ++ prettyMembers level ms

/-- The text of further items is that of the items on a new line. -/
theorem prettyItems_cons (level : Nat) (v : Json) (vs : List Json) :
    prettyItems level (v :: vs) = ',' :: (newLine level ++ itemsText level (v :: vs)) := by
  simp [prettyItems, itemsText]

/-- The members behind another one stand on lines of their own. -/
theorem prettyMembers_cons (level : Nat) (b : String × Json) (ms : List (String × Json)) :
    prettyMembers level (b :: ms) = ',' :: (newLine level ++ membersText level (b :: ms)) := by
  obtain ⟨k, v⟩ := b
  simp [prettyMembers, membersText]

/-- An array with items is written between two lines of brackets. -/
theorem renderPretty_array (level : Nat) (v : Json) (vs : List Json) :
    renderPretty level (.array (v :: vs)) = '[' :: (newLine (level + 1)
      ++ (itemsText (level + 1) (v :: vs) ++ (newLine level ++ [']']))) := by
  simp [renderPretty, itemsText]

/-- An object with members is written between two lines of braces. -/
theorem renderPretty_object (level : Nat) (b : String × Json) (ms : List (String × Json)) :
    renderPretty level (.object (b :: ms)) = '\x7b' :: (newLine (level + 1)
      ++ (membersText (level + 1) (b :: ms) ++ (newLine level ++ ['\x7d']))) := by
  obtain ⟨k, v⟩ := b
  simp [renderPretty, membersText]

mutual

/-- The indented text of a value is read, with whatever follows left over. -/
theorem readValue?_renderPretty : ∀ (v : Json) {level fuel : Nat} {rest : List Char},
    v.Legible → Ends rest → (renderPretty level v).length ≤ fuel →
    readValue? fuel (renderPretty level v ++ rest) = some (v.document, rest)
  | .null, _, _, _, hv, hr, hf => readValue?_render .null hv hr hf
  | .bool b, _, _, _, hv, hr, hf => readValue?_render (.bool b) hv hr hf
  | .int i, _, _, _, hv, hr, hf => readValue?_render (.int i) hv hr hf
  | .float x, _, _, _, hv, hr, hf => readValue?_render (.float x) hv hr hf
  | .string s, _, _, _, hv, hr, hf => readValue?_render (.string s) hv hr hf
  | .array [], _, _, _, hv, hr, hf => readValue?_render (.array []) hv hr hf
  | .object [], _, _, _, hv, hr, hf => readValue?_render (.object []) hv hr hf
  | .array (x :: xs), level, 0, _, hv, _, hf => by
    have := length_renderPretty_pos level hv
    omega
  | .object (b :: ms), level, 0, _, hv, _, hf => by
    have := length_renderPretty_pos level hv
    omega
  | .array (x :: xs), level, fuel + 1, rest, hv, _, hf => by
    have hlen : (itemsText (level + 1) (x :: xs)).length < fuel := by
      simp only [renderPretty_array, List.length_cons, List.length_append, List.length_nil] at hf
      omega
    have hds := readItems?_itemsText (x :: xs) level rest (by simp) hv hlen
    obtain ⟨c, cs, hcs, hgap, hc⟩ := renderPretty_eq_cons (level + 1) hv.1
    have htext : renderPretty level (.array (x :: xs)) ++ rest = '[' :: (newLine (level + 1)
        ++ (itemsText (level + 1) (x :: xs) ++ (newLine level ++ ']' :: rest))) := by
      simp [renderPretty_array]
    have hhead : itemsText (level + 1) (x :: xs) ++ (newLine level ++ ']' :: rest)
        = c :: (cs ++ prettyItems (level + 1) xs ++ (newLine level ++ ']' :: rest)) := by
      simp [itemsText, hcs]
    rw [hhead] at hds
    rw [htext, readValue?_bracket_newLine, hhead]
    exact readValue?_bracket hgap hc hds
  | .object (b :: ms), level, fuel + 1, rest, hv, _, hf => by
    have hlen : (membersText (level + 1) (b :: ms)).length < fuel := by
      simp only [renderPretty_object, List.length_cons, List.length_append, List.length_nil] at hf
      omega
    have hds := readMembers?_membersText (b :: ms) level rest (by simp) hv hlen
    have htext : renderPretty level (.object (b :: ms)) ++ rest = '\x7b' :: (newLine (level + 1)
        ++ (membersText (level + 1) (b :: ms) ++ (newLine level ++ '\x7d' :: rest))) := by
      simp [renderPretty_object]
    obtain ⟨cs, hcs⟩ : ∃ cs, membersText (level + 1) (b :: ms) ++ (newLine level ++ '\x7d' :: rest)
        = '"' :: cs := ⟨_, rfl⟩
    rw [hcs] at hds
    rw [htext, readValue?_brace_newLine, hcs]
    exact readValue?_brace hds

/-- `readValue?_renderPretty` over the items of an array, up to its end. -/
theorem readItems?_itemsText : ∀ (vs : List Json) {level fuel : Nat} (below : Nat)
    (rest : List Char), vs ≠ [] → LegibleItems vs → (itemsText level vs).length < fuel →
    readItems? fuel (itemsText level vs ++ (newLine below ++ ']' :: rest))
      = some (documentItems vs, rest)
  | [], _, _, _, _, h, _, _ => absurd rfl h
  | _ :: _, _, 0, _, _, _, _, hf => absurd hf (Nat.not_lt_zero _)
  | [v], level, fuel + 1, below, rest, _, hv, hf => by
    have hlen : (renderPretty level v).length ≤ fuel := by
      simp only [itemsText, prettyItems, List.append_nil] at hf
      omega
    have hd := readValue?_renderPretty v hv.1 (ends_newLine below (']' :: rest)) hlen
    rw [itemsText, prettyItems, List.append_nil, readItems?, hd]
    simp [skipGaps_newLine, isGap, documentItems]
  | v :: w :: ws, level, fuel + 1, below, rest, _, hv, hf => by
    have hmore := prettyItems_cons level w ws
    rw [itemsText, hmore, List.length_append, List.length_cons, List.length_append] at hf
    have hpos := length_renderPretty_pos level hv.1
    have hfirst : (renderPretty level v).length ≤ fuel := by omega
    have hmany : (itemsText level (w :: ws)).length < fuel := by omega
    have hds := readItems?_itemsText (w :: ws) below rest (by simp) hv.2 hmany
    have htext : itemsText level (v :: w :: ws) ++ (newLine below ++ ']' :: rest)
        = renderPretty level v ++ ',' :: (newLine level
          ++ (itemsText level (w :: ws) ++ (newLine below ++ ']' :: rest))) := by
      rw [itemsText, hmore]
      simp
    have hd := readValue?_renderPretty v hv.1 (ends_comma (newLine level
      ++ (itemsText level (w :: ws) ++ (newLine below ++ ']' :: rest)))) hfirst
    rw [htext, readItems?, hd, documentItems]
    simp [isGap, readItems?_newLine, hds]

/-- `readValue?_renderPretty` over the members of an object, up to its end. -/
theorem readMembers?_membersText : ∀ (ms : List (String × Json)) {level fuel : Nat} (below : Nat)
    (rest : List Char), ms ≠ [] → LegibleMembers ms → (membersText level ms).length < fuel →
    readMembers? fuel (membersText level ms ++ (newLine below ++ '\x7d' :: rest))
      = some (documentMembers ms, rest)
  | [], _, _, _, _, h, _, _ => absurd rfl h
  | _ :: _, _, 0, _, _, _, _, hf => absurd hf (Nat.not_lt_zero _)
  | [(k, v)], level, fuel + 1, below, rest, _, hv, hf => by
    have hlen : (renderPretty level v).length ≤ fuel := by
      simp only [membersText, prettyMembers, List.append_nil, List.length_append,
        List.length_cons] at hf
      omega
    have hd := readValue?_renderPretty v hv.1 (ends_newLine below ('\x7d' :: rest)) hlen
    have htext : membersText level [(k, v)] ++ (newLine below ++ '\x7d' :: rest)
        = '"' :: (escape k.toList ++ '"' :: ':' :: ' ' ::
          (renderPretty level v ++ (newLine below ++ '\x7d' :: rest))) := by
      simp [membersText, prettyMembers, stringText]
    rw [htext, readMembers?, skipGaps_cons _ (by decide)]
    simp [scanQuoted?_escape, isGap, readValue?_space, hd, skipGaps_newLine, documentMembers,
      keyDocument]
  | (k, v) :: m :: ms, level, fuel + 1, below, rest, _, hv, hf => by
    have hmore := prettyMembers_cons level m ms
    rw [membersText, hmore] at hf
    simp only [List.length_append, List.length_cons] at hf
    have hfirst : (renderPretty level v).length ≤ fuel := by omega
    have hmany : (membersText level (m :: ms)).length < fuel := by omega
    have hds := readMembers?_membersText (m :: ms) below rest (by simp) hv.2 hmany
    have hd := readValue?_renderPretty v hv.1 (ends_comma (newLine level
      ++ (membersText level (m :: ms) ++ (newLine below ++ '\x7d' :: rest)))) hfirst
    have htext : membersText level ((k, v) :: m :: ms) ++ (newLine below ++ '\x7d' :: rest)
        = '"' :: (escape k.toList ++ '"' :: ':' :: ' ' :: (renderPretty level v ++ ',' ::
          (newLine level ++ (membersText level (m :: ms)
            ++ (newLine below ++ '\x7d' :: rest))))) := by
      rw [membersText, hmore]
      simp [stringText]
    rw [htext, readMembers?, skipGaps_cons _ (by decide), documentMembers]
    simp [scanQuoted?_escape, isGap, readValue?_space, hd, readMembers?_newLine, hds, keyDocument]

end

/-- The indented text of a legible value is read as its document. -/
theorem read?_pretty {v : Json} (hv : v.Legible) : read? v.pretty = some v.document := by
  have htext : v.pretty.toList = renderPretty 0 v := by simp [pretty]
  have hread := readValue?_renderPretty v hv Literal.Ends.nil
    (Nat.le_succ (renderPretty 0 v).length)
  rw [List.append_nil] at hread
  unfold read?
  rw [htext, hread]
  simp [skipGaps]

end TagCache.Json
