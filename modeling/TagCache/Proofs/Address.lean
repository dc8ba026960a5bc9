import Mathlib.Data.List.DropRight
import TagCache.Proofs.Text.Digits

/-!
# The grammar of addresses

What a text is without the blanks around it is told by `Text.TrimsTo`, and what number is written
there by `Address.Denotes`: hexadecimal digits after a marker, decimal ones otherwise, and at most
one plus sign before the digits. A text is read as an address exactly if it denotes a number of 64
bits (`address_grammar`).
-/

namespace TagCache

namespace Text

variable {cs rest : List Char}

/-! ## Blanks around a text -/

/-- The second text stands in the first with nothing but blanks around it, and has none at its own
ends. -/
structure TrimsTo (cs rest : List Char) : Prop where
  blanks : ∃ before after, cs = before ++ rest ++ after ∧ (∀ c ∈ before, isBlank c = true) ∧
    ∀ c ∈ after, isBlank c = true
  first : ∀ c, rest.head? = some c → isBlank c = false
  last : ∀ c, rest.getLast? = some c → isBlank c = false

/-- Trimming drops blanks from both ends. -/
theorem trim_eq_rdropWhile (cs : List Char) :
    trim cs = (cs.dropWhile isBlank).rdropWhile isBlank := rfl

/-- A trimmed text is what is left between the blanks at its ends. -/
theorem trimsTo_trim (cs : List Char) : TrimsTo cs (trim cs) where
  blanks := by
    refine ⟨cs.takeWhile isBlank, (cs.dropWhile isBlank).rtakeWhile isBlank, ?_,
      fun c => List.mem_takeWhile_imp, fun c => List.mem_rtakeWhile_imp⟩
    rw [trim_eq_rdropWhile, List.append_assoc, List.rdropWhile_append_rtakeWhile,
      List.takeWhile_append_dropWhile]
  first c hc := by
    obtain ⟨after, hafter⟩ := List.rdropWhile_prefix isBlank (cs.dropWhile isBlank)
    have hfirst := List.head?_dropWhile_not isBlank cs
    rw [← hafter, ← trim_eq_rdropWhile, List.head?_append, hc] at hfirst
    exact hfirst
  last c hc := by
    obtain ⟨hne, rfl⟩ := List.mem_getLast?_eq_getLast hc
    exact Bool.eq_false_iff.2 (List.rdropWhile_last_not isBlank (cs.dropWhile isBlank) hne)

/-- Blanks at the end are dropped with those before them. -/
theorem rdropWhile_append_of_forall {p : Char → Bool} {after : List Char}
    (h : ∀ c ∈ after, p c = true) (l : List Char) :
    (l ++ after).rdropWhile p = l.rdropWhile p := by
  unfold List.rdropWhile
  rw [List.reverse_append,
    List.dropWhile_append_of_pos fun c hc => h c (List.mem_reverse.1 hc)]

/-- A text has one form without blanks around it, which `trim` gives. -/
theorem trim_eq_iff : trim cs = rest ↔ TrimsTo cs rest := by
  constructor
  · rintro rfl
    exact trimsTo_trim cs
  · rintro ⟨⟨before, after, rfl, hbefore, hafter⟩, hfirst, hlast⟩
    rw [trim_eq_rdropWhile, List.append_assoc, List.dropWhile_append_of_pos hbefore]
    cases rest with
    | nil =>
      have hnil : after.dropWhile isBlank = [] := List.dropWhile_eq_nil_iff.2 hafter
      rw [List.nil_append, hnil, List.rdropWhile_nil]
    | cons c rest =>
      have hc : ¬isBlank c = true := Bool.eq_false_iff.1 (hfirst c rfl)
      rw [List.cons_append, List.dropWhile_cons_of_neg hc, ← List.cons_append,
        rdropWhile_append_of_forall hafter, List.rdropWhile_eq_self_iff]
      exact fun hne => Bool.eq_false_iff.1 (hlast _ (List.getLast?_eq_some_getLast hne))

end Text

namespace Address

variable {cs digits : List Char} {mark : Char} {n : Nat}

/-! ## Numbers without blanks around them -/

/-- The text writes a number: in hexadecimal digits after a zero and the letter x, or in decimal
digits. One plus sign may stand before the digits. -/
inductive Denotes : List Char → Nat → Prop
  | hex {mark : Char} {digits run : List Char} {n : Nat} (marked : mark = 'x' ∨ mark = 'X')
    (signed : digits = run ∨ digits = '+' :: run) (spelled : Text.SpellsHex run n) :
    Denotes ('0' :: mark :: digits) n
  | decimal {digits run : List Char} {n : Nat} (signed : digits = run ∨ digits = '+' :: run)
    (spelled : Text.SpellsDecimal run n) : Denotes digits n

/-- No decimal number is written with the letter that marks a hexadecimal one. -/
theorem not_spellsDecimal_of_mark (hmark : mark = 'x' ∨ mark = 'X') {run : List Char}
    (hrun : '0' :: mark :: digits = run ∨ '0' :: mark :: digits = '+' :: run) :
    ¬Text.SpellsDecimal run n := by
  intro h
  have hmem : mark ∈ run := by
    obtain rfl | hplus := hrun
    · simp
    · cases hplus
  obtain ⟨d, hd, hmark'⟩ := h.exists_of_mem hmem
  have hkey : ∀ d < 10, Nat.digitChar d ≠ 'x' ∧ Nat.digitChar d ≠ 'X' := by decide
  obtain ⟨hlower, hupper⟩ := hkey d hd
  rcases hmark with rfl | rfl
  · exact hlower hmark'
  · exact hupper hmark'

/-- After a marker the digits are hexadecimal. -/
theorem denotes_mark_iff (hmark : mark = 'x' ∨ mark = 'X') :
    Denotes ('0' :: mark :: digits) n ↔
      ∃ run, (digits = run ∨ digits = '+' :: run) ∧ Text.SpellsHex run n := by
  constructor
  · intro h
    cases h with
    | hex _ signed spelled => exact ⟨_, signed, spelled⟩
    | decimal signed spelled => exact absurd spelled (not_spellsDecimal_of_mark hmark signed)
  · rintro ⟨run, signed, spelled⟩
    exact .hex hmark signed spelled

/-- Without a marker they are decimal. -/
theorem denotes_iff_of_not_mark
    (h : ∀ mark digits, cs = '0' :: mark :: digits → mark ≠ 'x' ∧ mark ≠ 'X') :
    Denotes cs n ↔ ∃ run, (cs = run ∨ cs = '+' :: run) ∧ Text.SpellsDecimal run n := by
  constructor
  · intro hcs
    cases hcs with
    | hex marked signed spelled =>
      obtain ⟨hlower, hupper⟩ := h _ _ rfl
      exact absurd marked (not_or.2 ⟨hlower, hupper⟩)
    | decimal signed spelled => exact ⟨_, signed, spelled⟩
  · rintro ⟨run, signed, spelled⟩
    exact .decimal signed spelled

/-! ## Reading -/

/-- A number that fits a word is given back by it. -/
theorem map_toNat_eq_some_iff {o : Option Nat} (ho : ∀ m, o = some m → m < count) :
    (o.map UInt64.ofNat).map UInt64.toNat = some n ↔ o = some n := by
  cases o with
  | none => simp
  | some m =>
    have hm : (UInt64.ofNat m).toNat = m := UInt64.toNat_ofNat_of_lt' (ho m rfl)
    simp [hm]

/-- A number in a radix is read if it is below the bound of addresses. -/
theorem read_eq_some_iff {radix : Nat} {Spells : List Char → Nat → Prop}
    (hspells : ∀ {run n}, Text.value? radix run = some n ↔ Spells run n) :
    ((Text.readBelow? radix count cs).map UInt64.ofNat).map UInt64.toNat = some n ↔
      n < count ∧ ∃ run, (cs = run ∨ cs = '+' :: run) ∧ Spells run n := by
  rw [map_toNat_eq_some_iff fun m hm => (Text.readBelow?_eq_some_iff.1 hm).1,
    Text.readBelow?_eq_some_iff]
  simp only [hspells]

/-- The texts that are read as an address are those that denote it and fit. -/
theorem parse?_eq_some_iff_denotes {text : String} :
    (parse? text).map UInt64.toNat = some n ↔ n < count ∧ Denotes (Text.trim text.toList) n := by
  unfold parse?
  dsimp only
  split
  · next htrim =>
    rw [htrim, denotes_mark_iff (.inl rfl)]
    exact read_eq_some_iff Text.value?_eq_some_iff_spellsHex
  · next htrim =>
    rw [htrim, denotes_mark_iff (.inr rfl)]
    exact read_eq_some_iff Text.value?_eq_some_iff_spellsHex
  · next hlower hupper =>
    have hnot : ∀ mark digits, Text.trim text.toList = '0' :: mark :: digits →
        mark ≠ 'x' ∧ mark ≠ 'X' := by
      refine fun mark digits htrim => ⟨?_, ?_⟩
      · rintro rfl
        exact hlower _ htrim
      · rintro rfl
        exact hupper _ htrim
    rw [denotes_iff_of_not_mark hnot]
    exact read_eq_some_iff Text.value?_eq_some_iff_spells

end Address

/-- A text is read as an address exactly if what it is without the blanks around it denotes a number
of 64 bits, and then it is read as that number. Whatever else it denotes is too great. The written
form of an address and its decimal form are read as the address. -/
theorem address_grammar (text : String) :
    (∀ n, (Address.parse? text).map UInt64.toNat = some n ↔
      n < 2 ^ 64 ∧ ∃ rest, Text.TrimsTo text.toList rest ∧ Address.Denotes rest n) ∧
    (Address.parse? text = none ↔
      ∀ rest n, Text.TrimsTo text.toList rest → Address.Denotes rest n → 2 ^ 64 ≤ n) ∧
    ∀ a : Address, Address.parse? a.text = some a ∧
      Address.parse? (Text.decimal a.toNat) = some a := by
  have hsome (n : Nat) : (Address.parse? text).map UInt64.toNat = some n ↔
      n < 2 ^ 64 ∧ ∃ rest, Text.TrimsTo text.toList rest ∧ Address.Denotes rest n := by
    rw [Address.parse?_eq_some_iff_denotes]
    simp only [← Text.trim_eq_iff, exists_eq_left']
    rfl
  refine ⟨hsome, ⟨fun hnone rest n htrim hdenotes => ?_, fun h => ?_⟩,
    fun a => ⟨Address.parse?_text a, Address.parse?_decimal a⟩⟩
  · refine Nat.not_lt.1 fun hlt => ?_
    have hread := (hsome n).2 ⟨hlt, rest, htrim, hdenotes⟩
    rw [hnone] at hread
    cases hread
  · refine Option.eq_none_iff_forall_ne_some.2 fun a ha => ?_
    obtain ⟨hlt, rest, htrim, hdenotes⟩ := (hsome a.toNat).1 (by rw [ha]; rfl)
    exact Nat.not_lt.2 (h rest _ htrim hdenotes) hlt

/-- A plus sign stands after the marker, among any blanks, and zeros do not count. -/
example : Address.parse? "\u00a0\t0X+00fFfFfFfFfFfFfFfF\n" = some 0xffffffffffffffff := by decide

end TagCache
