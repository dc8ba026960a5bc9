import TagCache.Json.Reader
import TagCache.Proofs.Json.Escape
import TagCache.Proofs.Json.Writable

/-!
# Reading back written values

A writable value can be read from its text (`Json.parse?_compact_of_writable`), and a plain one is
given back exactly (`Json.parse?_compact`). `Json.readValue?_render` is the induction over the
value, with whatever text follows: the reader finds the document of the value (`Json.document`),
and the value in it is found by `Json.toJson?_document`. The reader's fuel is never short, since
each step down or to the right takes at least one character.
-/

namespace TagCache.Json

open Literal (Ends)

/-! ## The first character -/

/-- A character that is no gap is not skipped. -/
@[simp] theorem skipGaps_cons {c : Char} (cs : List Char) (h : isGap c = false) :
    skipGaps (c :: cs) = c :: cs := by
  simp [skipGaps, h]

/-- A number does not start with a gap. -/
theorem not_isGap_of_number {c : Char} (h : Literal.isDigit c = true ∨ c = '-') :
    isGap c = false := by
  rcases h with h | rfl
  · rw [Bool.eq_false_iff]
    intro hg
    simp only [isGap, Bool.or_eq_true, decide_eq_true_eq] at hg
    rcases hg with ((rfl | rfl) | rfl) | rfl <;> exact absurd h (by decide)
  · decide

/-- A number is read where a digit or a minus stands. -/
theorem readValue?_number {c : Char} (h : Literal.isDigit c = true ∨ c = '-') (fuel : Nat)
    (cs : List Char) : readValue? (fuel + 1) (c :: cs) = readNumber? (c :: cs) := by
  have hne : ∀ c', Literal.isDigit c' = false → c' ≠ '-' → c ≠ c' := by
    rintro c' hd hm rfl
    rcases h with h | h
    · rw [h] at hd; cases hd
    · exact hm h
  have hn := hne 'n' (by decide) (by decide)
  have ht := hne 't' (by decide) (by decide)
  have hf := hne 'f' (by decide) (by decide)
  have hq := hne '"' (by decide) (by decide)
  have ha := hne '[' (by decide) (by decide)
  have ho := hne '\x7b' (by decide) (by decide)
  rw [readValue?, skipGaps_cons cs (not_isGap_of_number h)]
  split <;> simp_all

/-- A number is read as its literal. -/
theorem readValue?_literal (fuel : Nat) {l : Literal} (hl : l.WellFormed) {rest : List Char}
    (hr : Ends rest) :
    readValue? (fuel + 1) (l.text ++ rest) = some (.leaf (.ofLiteral l), rest) := by
  obtain ⟨c, cs, hcs, hc⟩ := Literal.text_eq_cons hl
  have hscan := Literal.scan?_text hl hr
  rw [hcs, List.cons_append] at hscan
  rw [hcs, List.cons_append, readValue?_number hc, readNumber?, hscan]
  rfl

/-- The text of a number starts with a character that is no gap and closes no array. -/
theorem literal_eq_cons {l : Literal} (hl : l.WellFormed) :
    ∃ c cs, l.text = c :: cs ∧ isGap c = false ∧ c ≠ ']' := by
  obtain ⟨c, cs, hcs, hc⟩ := Literal.text_eq_cons hl
  refine ⟨c, cs, hcs, not_isGap_of_number hc, ?_⟩
  rintro rfl
  rcases hc with hc | hc <;> exact absurd hc (by decide)

/-- A value starts with a character that is neither a gap nor the end of an array. -/
theorem render_eq_cons {v : Json} (hv : v.Legible) :
    ∃ c cs, render v = c :: cs ∧ isGap c = false ∧ c ≠ ']' := by
  cases v with
  | null => exact ⟨_, _, rfl, by decide, by decide⟩
  | bool b => cases b <;> exact ⟨_, _, rfl, by decide, by decide⟩
  | int i =>
    have htext : render (.int i) = (Literal.ofInt i).text := (Literal.text_ofInt i).symm
    rw [htext]
    exact literal_eq_cons (Literal.wellFormed_ofInt i)
  | float x =>
    have htext : render (.float x) = (Literal.ofDouble x).text := (Literal.text_ofDouble x).symm
    rw [htext]
    exact literal_eq_cons (Literal.wellFormed_ofDouble hv)
  | string s => exact ⟨_, _, rfl, by decide, by decide⟩
  | array xs => exact ⟨_, _, rfl, by decide, by decide⟩
  | object ms => exact ⟨_, _, rfl, by decide, by decide⟩

/-- A value has a text. -/
theorem length_render_pos {v : Json} (hv : v.Legible) : 0 < (render v).length := by
  obtain ⟨c, cs, h, -⟩ := render_eq_cons hv
  simp [h]

/-! ## Strings -/

/-- A string in front of a text is read as a string. -/
theorem readValue?_string (fuel : Nat) (s : String) (rest : List Char) :
    readValue? (fuel + 1) (stringText s ++ rest)
      = some (.leaf (.ofString (escape s.toList)), rest) := by
  have htext : stringText s ++ rest = '"' :: (escape s.toList ++ '"' :: rest) := by
    simp [stringText]
  rw [htext, readValue?, skipGaps_cons _ (by decide)]
  simp [scanQuoted?_escape]

/-- The text between the quotes gives the string. -/
theorem unescaped?_escape (s : String) : Leaf.unescaped? (escape s.toList) = some s := by
  simp [Leaf.unescaped?, unescape?_escape]

/-! ## Values -/

/-- A comma ends a number. -/
theorem ends_comma (rest : List Char) : Ends (',' :: rest) :=
  .cons (by decide) (by decide) (by decide) (by decide)

/-- A closing bracket ends a number. -/
theorem ends_bracket (rest : List Char) : Ends (']' :: rest) :=
  .cons (by decide) (by decide) (by decide) (by decide)

/-- A closing brace ends a number. -/
theorem ends_brace (rest : List Char) : Ends ('\x7d' :: rest) :=
  .cons (by decide) (by decide) (by decide) (by decide)

/-- An array is read that starts with an item. -/
theorem readValue?_bracket {fuel : Nat} {c : Char} {cs rest : List Char} {ds : List Document}
    (hgap : isGap c = false) (hc : c ≠ ']') (h : readItems? fuel (c :: cs) = some (ds, rest)) :
    readValue? (fuel + 1) ('[' :: c :: cs) = some (.sequence ds, rest) := by
  rw [readValue?, skipGaps_cons _ (by decide)]
  simp only
  rw [skipGaps_cons _ hgap]
  split
  · next heq => exact absurd (List.cons.inj heq).1 hc
  · rw [h]
    rfl

/-- An object is read that starts with a key. -/
theorem readValue?_brace {fuel : Nat} {cs rest : List Char} {ds : List (Document × Document)}
    (h : readMembers? fuel ('"' :: cs) = some (ds, rest)) :
    readValue? (fuel + 1) ('\x7b' :: '"' :: cs) = some (.mapping ds, rest) := by
  rw [readValue?, skipGaps_cons _ (by decide)]
  simp only
  rw [skipGaps_cons _ (by decide)]
  split
  · next heq => cases heq
  · rw [h]
    rfl

/-! ## Documents of values -/

/-- What a written key is read as. -/
def keyDocument (k : String) : Document := .leaf (.ofKey (escape k.toList))

mutual

/-- What the text of a value is read as, before a decoder asks for anything. -/
def document : Json → Document
  | .null => .leaf (.ofValue .null)
  | .bool b => .leaf (.ofValue (.bool b))
  | .int i => .leaf (.ofLiteral (.ofInt i))
  | .float x => .leaf (.ofLiteral (.ofDouble x))
  | .string s => .leaf (.ofString (escape s.toList))
  | .array xs => .sequence (documentItems xs)
  | .object ms => .mapping (documentMembers ms)
termination_by structural v => v

/-- `document` over the items of an array. -/
def documentItems : List Json → List Document
  | [] => []
  | x :: xs => document x :: documentItems xs
termination_by structural xs => xs

/-- `document` over the members of an object. -/
def documentMembers : List (String × Json) → List (Document × Document)
  | [] => []
  | (k, x) :: ms => (keyDocument k, document x) :: documentMembers ms
termination_by structural ms => ms

end

/-- `documentItems` in the per-item form. -/
theorem documentItems_eq (xs : List Json) : documentItems xs = xs.map document := by
  induction xs with
  | nil => rfl
  | cons x xs ih => rw [documentItems, ih, List.map_cons]

/-- `documentMembers` in the per-member form. -/
theorem documentMembers_eq (ms : List (String × Json)) :
    documentMembers ms = ms.map fun b => (keyDocument b.1, b.2.document) := by
  induction ms with
  | nil => rfl
  | cons b ms ih => obtain ⟨k, v⟩ := b; rw [documentMembers, ih, List.map_cons]

/-- A written key is read as a text. -/
theorem text?_keyDocument (k : String) : (keyDocument k).text? = some k := unescaped?_escape k

mutual

/-- The text of a value is read, with whatever follows left over. -/
theorem readValue?_render : ∀ (v : Json) {fuel : Nat} {rest : List Char}, v.Legible → Ends rest →
    (render v).length ≤ fuel → readValue? fuel (render v ++ rest) = some (v.document, rest)
  | v, 0, _, hv, _, hf => by
    have := length_render_pos hv
    omega
  | .null, fuel + 1, rest, _, _, _ => by simp [render, readValue?, isGap, document]
  | .bool b, fuel + 1, rest, _, _, _ => by cases b <;> simp [render, readValue?, isGap, document]
  | .int i, fuel + 1, rest, _, hr, _ => by
    rw [render, ← Literal.text_ofInt]
    exact readValue?_literal fuel (Literal.wellFormed_ofInt i) hr
  | .float x, fuel + 1, rest, hv, hr, _ => by
    rw [render, ← Literal.text_ofDouble]
    exact readValue?_literal fuel (Literal.wellFormed_ofDouble hv) hr
  | .string s, fuel + 1, rest, _, _, _ => readValue?_string fuel s rest
  | .array [], fuel + 1, rest, _, _, _ => by
    simp [render, renderItems, readValue?, isGap, document, documentItems]
  | .array (x :: xs), fuel + 1, rest, hv, _, hf => by
    have hlen : (renderItems (x :: xs)).length < fuel := by
      simp only [render, List.length_cons, List.length_append, List.length_nil] at hf
      omega
    have hds := readItems?_renderItems (x :: xs) rest (by simp) hv hlen
    obtain ⟨c, cs, hcs, hgap, hc⟩ := render_eq_cons hv.1
    have htext : render (.array (x :: xs)) ++ rest
        = '[' :: (renderItems (x :: xs) ++ ']' :: rest) := by simp [render]
    have hhead : renderItems (x :: xs) ++ ']' :: rest
        = c :: (cs ++ renderMoreItems xs ++ ']' :: rest) := by simp [renderItems, hcs]
    rw [hhead] at hds
    rw [htext, hhead]
    exact readValue?_bracket hgap hc hds
  | .object [], fuel + 1, rest, _, _, _ => by
    simp [render, renderMembers, readValue?, isGap, document, documentMembers]
  | .object ((k, x) :: ms), fuel + 1, rest, hv, _, hf => by
    have hlen : (renderMembers ((k, x) :: ms)).length < fuel := by
      simp only [render, List.length_cons, List.length_append, List.length_nil] at hf
      omega
    have hds := readMembers?_renderMembers ((k, x) :: ms) rest (by simp) hv hlen
    have htext : render (.object ((k, x) :: ms)) ++ rest
        = '\x7b' :: (renderMembers ((k, x) :: ms) ++ '\x7d' :: rest) := by simp [render]
    have hhead : ∃ cs, renderMembers ((k, x) :: ms) ++ '\x7d' :: rest = '"' :: cs := by
      simp [renderMembers, stringText]
    obtain ⟨cs, hcs⟩ := hhead
    rw [hcs] at hds
    rw [htext, hcs]
    exact readValue?_brace hds

/-- `readValue?_render` over the items of an array, up to its end. -/
theorem readItems?_renderItems : ∀ (vs : List Json) {fuel : Nat} (rest : List Char), vs ≠ [] →
    LegibleItems vs → (renderItems vs).length < fuel →
    readItems? fuel (renderItems vs ++ ']' :: rest) = some (documentItems vs, rest)
  | [], _, _, h, _, _ => absurd rfl h
  | _ :: _, 0, _, _, _, hf => absurd hf (Nat.not_lt_zero _)
  | [v], fuel + 1, rest, _, hv, hf => by
    have hlen : (render v).length ≤ fuel := by
      simp only [renderItems, renderMoreItems, List.append_nil] at hf
      omega
    have hd := readValue?_render v hv.1 (ends_bracket rest) hlen
    rw [renderItems, renderMoreItems, List.append_nil, readItems?, hd]
    simp [isGap, documentItems]
  | v :: w :: ws, fuel + 1, rest, _, hv, hf => by
    have hmore : renderMoreItems (w :: ws) = ',' :: renderItems (w :: ws) := rfl
    rw [renderItems, hmore, List.length_append, List.length_cons] at hf
    have hpos := length_render_pos hv.1
    have hfirst : (render v).length ≤ fuel := by omega
    have hmany : (renderItems (w :: ws)).length < fuel := by omega
    have hd := readValue?_render v hv.1 (ends_comma (renderItems (w :: ws) ++ ']' :: rest)) hfirst
    have hds := readItems?_renderItems (w :: ws) rest (by simp) hv.2 hmany
    rw [renderItems, hmore, List.append_assoc, List.cons_append, readItems?, hd, documentItems]
    simp [isGap, hds]

/-- `readValue?_render` over the members of an object, up to its end. -/
theorem readMembers?_renderMembers : ∀ (ms : List (String × Json)) {fuel : Nat} (rest : List Char),
    ms ≠ [] → LegibleMembers ms → (renderMembers ms).length < fuel →
    readMembers? fuel (renderMembers ms ++ '\x7d' :: rest) = some (documentMembers ms, rest)
  | [], _, _, h, _, _ => absurd rfl h
  | _ :: _, 0, _, _, _, hf => absurd hf (Nat.not_lt_zero _)
  | [(k, v)], fuel + 1, rest, _, hv, hf => by
    have hlen : (render v).length ≤ fuel := by
      simp only [renderMembers, renderMoreMembers, List.append_nil, List.length_append,
        List.length_cons] at hf
      omega
    have hd := readValue?_render v hv.1 (ends_brace rest) hlen
    have htext : renderMembers [(k, v)] ++ '\x7d' :: rest
        = '"' :: (escape k.toList ++ '"' :: ':' :: (render v ++ '\x7d' :: rest)) := by
      simp [renderMembers, renderMoreMembers, stringText]
    rw [htext, readMembers?, skipGaps_cons _ (by decide)]
    simp [scanQuoted?_escape, isGap, hd, documentMembers, keyDocument]
  | (k, v) :: m :: ms, fuel + 1, rest, _, hv, hf => by
    have hmore : renderMoreMembers (m :: ms) = ',' :: renderMembers (m :: ms) := rfl
    rw [renderMembers, hmore, List.length_append, List.length_cons, List.length_append,
      List.length_cons] at hf
    have hfirst : (render v).length ≤ fuel := by omega
    have hmany : (renderMembers (m :: ms)).length < fuel := by omega
    have hd :=
      readValue?_render v hv.1 (ends_comma (renderMembers (m :: ms) ++ '\x7d' :: rest)) hfirst
    have hds := readMembers?_renderMembers (m :: ms) rest (by simp) hv.2 hmany
    have htext : renderMembers ((k, v) :: m :: ms) ++ '\x7d' :: rest
        = '"' :: (escape k.toList ++ '"' :: ':' ::
          (render v ++ ',' :: (renderMembers (m :: ms) ++ '\x7d' :: rest))) := by
      rw [renderMembers, hmore]
      simp [stringText]
    rw [htext, readMembers?, skipGaps_cons _ (by decide), documentMembers]
    simp [scanQuoted?_escape, isGap, hd, hds, keyDocument]

end

/-- The text of a legible value is read as its document. -/
theorem read?_compact {v : Json} (hv : v.Legible) : read? v.compact = some v.document := by
  have htext : v.compact.toList = render v := by simp [compact]
  have hread := readValue?_render v hv Literal.Ends.nil (Nat.le_succ (render v).length)
  rw [List.append_nil] at hread
  unfold read?
  rw [htext, hread]
  simp [skipGaps]

mutual

/-- A writable value is found again in its document, up to its doubles. -/
theorem toJson?_document : ∀ (v : Json) {room : Nat}, v.Writable → v.depth ≤ room →
    v.document.toJson? room = some v.reread
  | .null, _, _, _ => rfl
  | .bool _, _, _, _ => rfl
  | .int _, _, hv, _ => Literal.toJson?_ofInt hv.1 hv.2
  | .float _, _, hv, _ => Literal.toJson?_ofDouble hv
  | .string s, _, _, _ => by
    simp [document, Document.toJson?, Leaf.ofString, unescaped?_escape, reread]
  | .array _, 0, _, hd => absurd hd (Nat.not_succ_le_zero _)
  | .array xs, _ + 1, hv, hd => by
    rw [document, Document.toJson?, itemsToJson?_documentItems xs hv (Nat.le_of_succ_le_succ hd)]
    rfl
  | .object _, 0, _, hd => absurd hd (Nat.not_succ_le_zero _)
  | .object ms, _ + 1, hv, hd => by
    have hasc : Bindings.Ascending (rereadMembers ms) := (Writable.reread hv).1
    rw [document, Document.toJson?,
      membersToJson?_documentMembers ms hv.2 (Nat.le_of_succ_le_succ hd), Option.map_some,
      Table.ofList_eq hasc, reread]

/-- `toJson?_document` over the items of an array. -/
theorem itemsToJson?_documentItems : ∀ (vs : List Json) {room : Nat}, WritableItems vs →
    depthItems vs ≤ room → Document.itemsToJson? room (documentItems vs) = some (rereadItems vs)
  | [], _, _, _ => rfl
  | v :: vs, room, hv, hd => by
    rw [depthItems, Nat.max_le] at hd
    simp [documentItems, Document.itemsToJson?, toJson?_document v hv.1 hd.1,
      itemsToJson?_documentItems vs hv.2 hd.2, rereadItems]

/-- `toJson?_document` over the members of an object. -/
theorem membersToJson?_documentMembers : ∀ (ms : List (String × Json)) {room : Nat},
    WritableMembers ms → depthMembers ms ≤ room →
    Document.membersToJson? room (documentMembers ms) = some (rereadMembers ms)
  | [], _, _, _ => rfl
  | (k, v) :: ms, room, hv, hd => by
    rw [depthMembers, Nat.max_le] at hd
    simp [documentMembers, Document.membersToJson?, text?_keyDocument, toJson?_document v hv.1 hd.1,
      membersToJson?_documentMembers ms hv.2 hd.2, rereadMembers]

end

/-- The text of a writable value that does not nest too deep is read. -/
theorem parse?_compact_of_writable {v : Json} (hv : v.Writable) (hd : v.depth ≤ maxDepth) :
    parse? v.compact = some v.reread := by
  unfold parse?
  rw [read?_compact hv.legible]
  exact toJson?_document v hv hd

/-- The text of a plain value that does not nest too deep reads as the value. -/
theorem parse?_compact {v : Json} (hv : v.Plain) (hd : v.depth ≤ maxDepth) :
    parse? v.compact = some v := by
  obtain ⟨hwritable, hfloatless⟩ := (plain_iff v).1 hv
  rw [parse?_compact_of_writable hwritable hd, hfloatless.reread_eq]

end TagCache.Json
