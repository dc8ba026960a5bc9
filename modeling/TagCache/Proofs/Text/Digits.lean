import Mathlib.Data.List.Forall2
import Mathlib.Data.Nat.Digits.Defs
import TagCache.Proofs.Text.Numeral

/-!
# Runs of digits

What a non-empty run of digits spells, told apart from the reader: decimal digits
(`Text.SpellsDecimal`), or hexadecimal ones with letters of either case (`Text.SpellsHex`), in both
with any zeros in front. The reader of a radix accepts just the runs that spell a number in it
(`Text.value?_eq_some_iff_spells`, `Text.value?_eq_some_iff_spellsHex`).
-/

namespace TagCache.Text

variable {cs : List Char} {n : Nat}

/-- A non-empty run of decimal digits that denotes a number, with any zeros in front. -/
def SpellsDecimal (cs : List Char) (n : Nat) : Prop :=
  ∃ ds : List Nat, ds ≠ [] ∧ (∀ d ∈ ds, d < 10) ∧ cs = ds.map Nat.digitChar ∧
    Nat.ofDigits 10 ds.reverse = n

/-- A hexadecimal digit of a value. A letter stands in either case. -/
def IsHexDigit (c : Char) (d : Nat) : Prop :=
  d < 16 ∧ (c = Nat.digitChar d ∨ c = (Nat.digitChar d).toUpper)

/-- A non-empty run of hexadecimal digits that denotes a number, with any zeros in front. -/
def SpellsHex (cs : List Char) (n : Nat) : Prop :=
  ∃ ds : List Nat, ds ≠ [] ∧ List.Forall₂ IsHexDigit cs ds ∧ Nat.ofDigits 16 ds.reverse = n

/-- The number that digits stand for is that of the same digits read from the other end. -/
theorem ofDigits_eq (radix : Nat) (ds : List Nat) :
    ofDigits radix ds = Nat.ofDigits radix ds.reverse := by
  rw [Nat.ofDigits_eq_foldr, List.foldr_reverse]
  simp only [ofDigits, Nat.cast_id, Nat.mul_comm, Nat.add_comm]

/-! ## Decimal digits -/

/-- The decimal texts with a value are those that spell it. -/
theorem value?_eq_some_iff_spells : value? 10 cs = some n ↔ SpellsDecimal cs n := by
  rw [value?_ten_eq_some_iff]
  simp only [SpellsDecimal, ofDigits_eq]

/-- The decimal digits of a number spell it. -/
theorem spellsDecimal_digits (n : Nat) : SpellsDecimal (digits 10 n) n :=
  value?_eq_some_iff_spells.1 (value?_digits (by decide) (by decide) n)

/-- Every character of the run is written for a digit. -/
theorem SpellsDecimal.exists_of_mem (h : SpellsDecimal cs n) {c : Char} (hc : c ∈ cs) :
    ∃ d < 10, d.digitChar = c := by
  obtain ⟨ds, -, hlt, rfl, -⟩ := h
  obtain ⟨d, hd, rfl⟩ := List.mem_map.1 hc
  exact ⟨d, hlt d hd, rfl⟩

/-! ## Hexadecimal digits -/

/-- A character has a value as a hexadecimal digit if it is one of the digits or letters for it. -/
theorem digit?_eq_some_iff_isHexDigit {c : Char} {d : Nat} :
    digit? 16 c = some d ↔ IsHexDigit c d := by
  have hwritten : ∀ d < 16, digit? 16 (Nat.digitChar d) = some d ∧
      digit? 16 (Nat.digitChar d).toUpper = some d := by decide
  constructor
  · intro h
    have hvalue := (Option.filter_eq_some_iff.1 h).1
    have hd : d < 16 := by simpa using (Option.filter_eq_some_iff.1 h).2
    refine ⟨hd, ?_⟩
    have hlower : ∀ d < 16, 10 ≤ d → (Nat.digitChar d).toNat = 87 + d := by decide
    have hupper : ∀ d < 16, 10 ≤ d → (Nat.digitChar d).toUpper.toNat = 55 + d := by decide
    -- the three ranges of characters that are digits
    split at hvalue
    · next hc =>
      cases hvalue
      have hle : '0'.toNat ≤ c.toNat := hc.1
      have hge : c.toNat ≤ '9'.toNat := hc.2
      refine .inl (Char.toNat_inj.1 ?_)
      rw [Nat.toNat_digitChar_of_lt_ten (Nat.lt_succ_of_le (Nat.sub_le_sub_right hge _))]
      exact (Nat.add_sub_cancel' hle).symm
    · split at hvalue
      · next hc =>
        cases hvalue
        have hle : 97 ≤ c.toNat := hc.1
        refine .inl (Char.toNat_inj.1 ?_)
        rw [hlower _ hd (Nat.le_add_left _ _)]
        show c.toNat = 87 + (c.toNat - 97 + 10)
        omega
      · split at hvalue
        · next hc =>
          cases hvalue
          have hle : 65 ≤ c.toNat := hc.1
          refine .inr (Char.toNat_inj.1 ?_)
          rw [hupper _ hd (Nat.le_add_left _ _)]
          show c.toNat = 55 + (c.toNat - 65 + 10)
          omega
        · cases hvalue
  · rintro ⟨hd, rfl | rfl⟩
    · exact (hwritten d hd).1
    · exact (hwritten d hd).2

/-- A list is read one by one if each of its elements is. -/
theorem mapM_eq_some_iff_forall₂ {α β : Type} {f : α → Option β} {l : List α} {bs : List β} :
    l.mapM f = some bs ↔ List.Forall₂ (fun a b => f a = some b) l bs := by
  induction l generalizing bs with
  | nil => simp [eq_comm]
  | cons a l ih =>
    rw [List.mapM_cons, List.forall₂_cons_left_iff]
    constructor
    · intro h
      obtain ⟨b, hb, h⟩ := Option.bind_eq_some_iff.1 h
      obtain ⟨rest, hrest, h⟩ := Option.bind_eq_some_iff.1 h
      cases h
      exact ⟨b, rest, hb, ih.1 hrest, rfl⟩
    · rintro ⟨b, rest, hb, hrest, rfl⟩
      rw [hb, ih.2 hrest]
      rfl

/-- The hexadecimal texts with a value are those that spell it. -/
theorem value?_eq_some_iff_spellsHex : value? 16 cs = some n ↔ SpellsHex cs n := by
  have hrun (ds : List Nat) : cs.mapM (digit? 16) = some ds ↔ List.Forall₂ IsHexDigit cs ds := by
    rw [mapM_eq_some_iff_forall₂]
    simp only [digit?_eq_some_iff_isHexDigit]
  unfold SpellsHex
  cases cs with
  | nil =>
    constructor
    · intro h
      cases h
    · rintro ⟨ds, hne, hds, -⟩
      exact absurd (List.forall₂_nil_left_iff.1 hds) hne
  | cons c cs =>
    rw [value?.eq_2 _ _ (List.cons_ne_nil c cs), Option.map_eq_some_iff]
    simp only [hrun, ofDigits_eq]
    constructor
    · rintro ⟨ds, hds, hval⟩
      refine ⟨ds, fun hnil => ?_, hds, hval⟩
      rw [hnil] at hds
      cases hds
    · rintro ⟨ds, -, hds, hval⟩
      exact ⟨ds, hds, hval⟩

end TagCache.Text
