import TagCache.Number.Shortest
import TagCache.Proofs.Number.Rounding

/-!
# The shortest decimal of a double

Seventeen digits are enough for every double: on that grid one of the neighbours of the value is
nearer to it than any number outside its rounding interval (`Binary64.exists_onGrid?`). So the
shortest decimal of a double has at most as many digits, and lies in the interval
(`Binary64.shortest_spec`).
-/

namespace TagCache

/-- The number of digits of a positive number tells the powers of ten around it. -/
theorem Text.length_digits_bounds {n : Nat} (hn : 0 < n) :
    10 ^ ((digits 10 n).length - 1) ≤ n ∧ n < 10 ^ (digits 10 n).length := by
  have hpos : 0 < (digits 10 n).length := Nat.length_toDigits_pos
  refine ⟨?_, (Nat.length_toDigits_le_iff (by decide) hpos).1 (le_refl _)⟩
  rcases Nat.eq_zero_or_pos ((digits 10 n).length - 1) with h | h
  · rw [h]
    exact hn
  · by_contra hlt
    have hle := (Nat.length_toDigits_le_iff (by decide) h).2 (not_le.1 hlt)
    have hlength : (digits 10 n).length ≤ (digits 10 n).length - 1 := hle
    omega

namespace Binary64

/-! ## Fractions -/

/-- A mixed fraction is a number scaled by powers of two and ten. -/
theorem ratio_mixed (n : Nat) (two ten : Int) :
    ratio (mixed n two ten) = n * 2 ^ two * 10 ^ ten := by
  unfold ratio mixed
  obtain ⟨k, rfl | rfl⟩ := two.eq_nat_or_neg <;> obtain ⟨l, rfl | rfl⟩ := ten.eq_nat_or_neg <;>
    simp [div_eq_mul_inv, mul_assoc, mul_comm, mul_left_comm]

/-- A mixed fraction has a denominator. -/
theorem mixed_snd_pos (n : Nat) (two ten : Int) : 0 < (mixed n two ten).2 :=
  Nat.mul_pos (Nat.pow_pos (by decide)) (Nat.pow_pos (by decide))

/-- Fractions are compared as the numbers that they are. -/
theorem fractionLt_iff {f g : Nat × Nat} (hf : 0 < f.2) (hg : 0 < g.2) :
    fractionLt f g = true ↔ ratio f < ratio g := by
  unfold fractionLt ratio
  rw [div_lt_div_iff₀ (Nat.cast_pos.2 hf) (Nat.cast_pos.2 hg), decide_eq_true_eq]
  exact_mod_cast Iff.rfl

/-! ## Powers of ten -/

/-- Powers of ten grow with their exponents. -/
theorem ten_zpow_le {e e' : Int} (h : e ≤ e') : (10 : ℚ) ^ e ≤ 10 ^ e' :=
  zpow_le_zpow_right₀ (by norm_num) h

/-- The decimal exponent of a positive fraction is that of the greatest power of ten below it. -/
theorem tenExponent_spec {f : Nat × Nat} (h : 0 < f.1) (h' : 0 < f.2) :
    (10 : ℚ) ^ tenExponent f ≤ ratio f ∧ ratio f < 10 ^ (tenExponent f + 1) := by
  have hQ : (0 : ℚ) < f.1 := Nat.cast_pos.2 h
  have hQ' : (0 : ℚ) < f.2 := Nat.cast_pos.2 h'
  unfold tenExponent ratio
  split
  · next hle =>
    obtain ⟨hlow, hhigh⟩ := Text.length_digits_bounds (Nat.div_pos hle h')
    obtain ⟨k, hk⟩ : ∃ k, (Text.digits 10 (f.1 / f.2)).length = k + 1 :=
      ⟨_, (Nat.succ_pred_eq_of_pos Nat.length_toDigits_pos).symm⟩
    rw [hk, Nat.add_sub_cancel, Nat.le_div_iff_mul_le h'] at hlow
    rw [hk, Nat.div_lt_iff_lt_mul h'] at hhigh
    have hexponent : ((k + 1 : Nat) : Int) - 1 = k := by omega
    rw [hk, hexponent, le_div_iff₀ hQ', div_lt_iff₀ hQ']
    exact ⟨by exact_mod_cast hlow, by exact_mod_cast hhigh⟩
  · next hlt =>
    -- below one, the digits of the inverse tell, up to whether that is itself a power of ten
    have hlt : f.1 < f.2 := not_le.1 hlt
    obtain ⟨hlow, hhigh⟩ := Text.length_digits_bounds (Nat.div_pos hlt.le h)
    obtain ⟨k, hk⟩ : ∃ k, (Text.digits 10 (f.2 / f.1)).length = k + 1 :=
      ⟨_, (Nat.succ_pred_eq_of_pos Nat.length_toDigits_pos).symm⟩
    rw [hk, Nat.add_sub_cancel, Nat.le_div_iff_mul_le h] at hlow
    rw [hk, Nat.div_lt_iff_lt_mul h] at hhigh
    have hlowQ : (10 : ℚ) ^ k * f.1 ≤ f.2 := by exact_mod_cast hlow
    have hhighQ : (f.2 : ℚ) < 10 ^ (k + 1) * f.1 := by exact_mod_cast hhigh
    have hpow : (0 : ℚ) < 10 ^ k := by positivity
    simp only [hk, Nat.add_sub_cancel, Nat.pow_eq]
    rw [le_div_iff₀ hQ', div_lt_iff₀ hQ']
    split
    · next hexact =>
      have hexactQ : (f.2 : ℚ) ≤ f.1 * 10 ^ k := by exact_mod_cast hexact
      have hexponent : 1 - ((k + 1 : Nat) : Int) = -k := by omega
      rw [hexponent, zpow_add₀ (by norm_num), zpow_neg, zpow_natCast, zpow_one]
      have hge : (f.1 : ℚ) ≤ (10 ^ k)⁻¹ * f.2 := (le_inv_mul_iff₀ hpow).2 hlowQ
      refine ⟨(inv_mul_le_iff₀ hpow).2 (hexactQ.trans_eq (mul_comm _ _)), ?_⟩
      linarith
    · next hexact =>
      have hexactQ : (f.1 : ℚ) * 10 ^ k < f.2 := by
        have hN := not_le.1 hexact
        exact_mod_cast hN
      have hexponent : -((k + 1 : Nat) : Int) + 1 = -k := by omega
      rw [hexponent, zpow_neg, zpow_neg, zpow_natCast, zpow_natCast]
      exact ⟨(inv_mul_le_iff₀ (by positivity)).2 hhighQ.le,
        (lt_inv_mul_iff₀ hpow).2 ((mul_comm _ _).trans_lt hexactQ)⟩

/-! ## Rounding intervals -/

section
variable {x : Binary64}

/-- The lower end of the interval has a denominator. -/
theorem lowerEnd_snd_pos (x : Binary64) : 0 < x.lowerEnd.2 := mixed_snd_pos _ _ _

/-- The upper end of the interval has a denominator. -/
theorem upperEnd_snd_pos (x : Binary64) : 0 < x.upperEnd.2 := mixed_snd_pos _ _ _

/-- Two steps down, a power of two is a quarter. -/
theorem two_zpow_sub_two (e : Int) : (2 : ℚ) ^ (e - 2) = 2 ^ e / 4 := by
  rw [zpow_sub₀ (by norm_num)]
  norm_num

/-- The upper end is half a step above the number. -/
theorem ratio_upperEnd (x : Binary64) : ratio x.upperEnd = x.magnitude + 2 ^ x.exponent / 2 := by
  unfold upperEnd magnitude
  rw [ratio_mixed, two_zpow_sub_two]
  push_cast
  ring

/-- What is strictly between the ends rounds to the double. -/
theorem roundsTo_of_lt {f : Nat × Nat} (hf : 0 < f.2) (h : ratio x.lowerEnd < ratio f)
    (h' : ratio f < ratio x.upperEnd) : x.roundsTo f = true := by
  have hlow := (fractionLt_iff x.lowerEnd_snd_pos hf).2 h
  have hhigh := (fractionLt_iff hf x.upperEnd_snd_pos).2 h'
  have hlow' : fractionLt f x.lowerEnd = false := by
    rw [Bool.eq_false_iff, ne_eq, fractionLt_iff hf x.lowerEnd_snd_pos]
    exact not_lt.2 h.le
  have hhigh' : fractionLt x.upperEnd f = false := by
    rw [Bool.eq_false_iff, ne_eq, fractionLt_iff x.upperEnd_snd_pos hf]
    exact not_lt.2 h'.le
  unfold roundsTo
  rw [hlow, hhigh, hlow', hhigh']
  split <;> rfl

/-- What rounds to the double is not above the upper end. -/
theorem le_upperEnd_of_roundsTo {f : Nat × Nat} (hf : 0 < f.2) (h : x.roundsTo f = true) :
    ratio f ≤ ratio x.upperEnd := by
  unfold roundsTo at h
  split at h
  · rw [Bool.and_eq_true, Bool.not_eq_true', Bool.not_eq_true', Bool.eq_false_iff,
      Bool.eq_false_iff, ne_eq, ne_eq, fractionLt_iff x.upperEnd_snd_pos hf] at h
    exact not_lt.1 h.2
  · rw [Bool.and_eq_true, fractionLt_iff hf x.upperEnd_snd_pos] at h
    exact h.2.le

/-- The interval reaches further than `2 ^ -54` of the value to both sides. -/
theorem ends_spec (hx : x.InRange) (hpos : 0 < x.mantissa) :
    ratio x.lowerEnd ≤ x.magnitude - x.magnitude / 2 ^ 54 ∧
      x.magnitude + x.magnitude / 2 ^ 54 ≤ ratio x.upperEnd := by
  have hmantissa : (x.mantissa : ℚ) ≤ 2 ^ 53 := by
    have hlt := hx.mantissa_lt
    have hle : x.mantissa ≤ 2 ^ 53 := hlt.le
    exact_mod_cast hle
  have hscale : (0 : ℚ) < 2 ^ x.exponent := by positivity
  rw [ratio_upperEnd]
  constructor
  · unfold lowerEnd
    simp only
    rw [ratio_mixed, two_zpow_sub_two, zpow_zero, mul_one]
    split
    · next h =>
      have hfull : (x.mantissa : ℚ) = 2 ^ 52 := by
        rw [h.1]
        norm_num [fullMantissa]
      rw [Nat.cast_sub (by omega)]
      unfold magnitude
      push_cast
      rw [hfull]
      linarith
    · rw [Nat.cast_sub (by omega)]
      unfold magnitude
      push_cast
      nlinarith
  · unfold magnitude
    nlinarith

end

/-! ## Grids -/

/-- The greatest multiple of `10 ^ k` that is not above the value, divided by `10 ^ k`. -/
def gridFloor (x : Binary64) (k : Int) : Nat :=
  (x.fraction.1 * (mixed 1 0 k).2) / (x.fraction.2 * (mixed 1 0 k).1)

section
variable {x : Binary64}

/-- A mixed fraction without a power of two is a decimal. -/
theorem ratio_mixed_ten (n : Nat) (k : Int) : ratio (mixed n 0 k) = n * 10 ^ k := by
  rw [ratio_mixed, zpow_zero, mul_one]

/-- The floor on a decimal grid is the point just below the number. -/
theorem gridFloor_spec (x : Binary64) (k : Int) :
    (x.gridFloor k : ℚ) * 10 ^ k ≤ x.magnitude ∧
      x.magnitude < (x.gridFloor k + 1 : ℚ) * 10 ^ k := by
  have hfraction : (0 : ℚ) < x.fraction.2 := Nat.cast_pos.2 x.fraction_snd_pos
  have hsnd : (0 : ℚ) < (mixed 1 0 k).2 := Nat.cast_pos.2 (mixed_snd_pos 1 0 k)
  have hgrid : ((mixed 1 0 k).1 : ℚ) / (mixed 1 0 k).2 = 10 ^ k := by
    have hratio := ratio_mixed_ten 1 k
    rwa [Nat.cast_one, one_mul] at hratio
  have hfst : 0 < (mixed 1 0 k).1 := by
    refine Nat.mul_pos (Nat.mul_pos Nat.one_pos ?_) ?_ <;> exact Nat.pow_pos (by decide)
  have hfstQ : (0 : ℚ) < (mixed 1 0 k).1 := Nat.cast_pos.2 hfst
  have hpos : 0 < x.fraction.2 * (mixed 1 0 k).1 := Nat.mul_pos x.fraction_snd_pos hfst
  have hlow := Nat.div_mul_le_self (x.fraction.1 * (mixed 1 0 k).2)
    (x.fraction.2 * (mixed 1 0 k).1)
  have hhigh := Nat.lt_div_mul_add (a := x.fraction.1 * (mixed 1 0 k).2) hpos
  rw [← ratio_fraction, ← hgrid]
  unfold ratio gridFloor
  rw [mul_div_assoc', mul_div_assoc', div_le_div_iff₀ hsnd hfraction,
    div_lt_div_iff₀ hfraction hsnd]
  generalize x.fraction.1 * (mixed 1 0 k).2 / (x.fraction.2 * (mixed 1 0 k).1) = b at hlow hhigh ⊢
  constructor
  · have hcast : (b : ℚ) * (x.fraction.2 * (mixed 1 0 k).1) ≤ x.fraction.1 * (mixed 1 0 k).2 := by
      exact_mod_cast hlow
    linarith
  · have hcast : (x.fraction.1 : ℚ) * (mixed 1 0 k).2
        < b * (x.fraction.2 * (mixed 1 0 k).1) + x.fraction.2 * (mixed 1 0 k).1 := by
      exact_mod_cast hhigh
    linarith

/-- What the grid gives is one of the neighbours, and rounds to the double. -/
theorem onGrid?_spec {k : Int} {c : Nat} (h : x.onGrid? k = some c) :
    (c = x.gridFloor k ∨ c = x.gridFloor k + 1) ∧ x.roundsTo (mixed c 0 k) = true := by
  unfold onGrid? at h
  dsimp only at h
  split at h
  · cases h
  · next hbelow _ =>
    cases h
    exact ⟨.inl rfl, hbelow⟩
  · next _ habove =>
    cases h
    exact ⟨.inr rfl, habove⟩
  · next hbelow habove =>
    split at h
    · cases h
      exact ⟨.inl rfl, hbelow⟩
    · split at h
      · cases h
        exact ⟨.inr rfl, habove⟩
      · cases h
        split
        · exact ⟨.inl rfl, hbelow⟩
        · exact ⟨.inr rfl, habove⟩

/-- The grid gives something if one of the neighbours rounds to the double. -/
theorem exists_onGrid?_of_roundsTo {k : Int} (h : x.roundsTo (mixed (x.gridFloor k) 0 k) = true ∨
    x.roundsTo (mixed (x.gridFloor k + 1) 0 k) = true) : ∃ c, x.onGrid? k = some c := by
  unfold onGrid?
  dsimp only
  split
  · next hbelow habove =>
    rcases h with h | h
    · exact absurd (hbelow.symm.trans h) (by decide)
    · exact absurd (habove.symm.trans h) (by decide)
  · exact ⟨_, rfl⟩
  · exact ⟨_, rfl⟩
  · split
    · exact ⟨_, rfl⟩
    · split <;> exact ⟨_, rfl⟩

/-- A number with a mantissa has a numerator. -/
theorem fraction_fst_pos (hpos : 0 < x.mantissa) : 0 < x.fraction.1 :=
  Nat.mul_pos hpos (Nat.pow_pos (by decide))

/-- A number with a mantissa is above zero. -/
theorem magnitude_pos (hpos : 0 < x.mantissa) : 0 < x.magnitude :=
  mul_pos (Nat.cast_pos.2 hpos) (by positivity)

/-- On the grid of seventeen digits a neighbour of the value rounds to the double. -/
theorem exists_onGrid? (hx : x.InRange) (hpos : 0 < x.mantissa) :
    ∃ c, x.onGrid? (tenExponent x.fraction - 16) = some c := by
  obtain ⟨hten, -⟩ := tenExponent_spec (fraction_fst_pos hpos) x.fraction_snd_pos
  rw [ratio_fraction] at hten
  obtain ⟨hlower, hupper⟩ := ends_spec hx hpos
  obtain ⟨hbelow, habove⟩ := x.gridFloor_spec (tenExponent x.fraction - 16)
  have hstep : (10 : ℚ) ^ (tenExponent x.fraction - 16) ≤ x.magnitude / 10 ^ 16 := by
    rw [zpow_sub₀ (by norm_num)]
    exact div_le_div_of_nonneg_right hten (by positivity)
  -- the nearer neighbour is within half a step, which is less than the interval reaches
  have hhalf : x.magnitude / 10 ^ 16 / 2 < x.magnitude / 2 ^ 54 := by
    rw [div_div]
    exact div_lt_div_of_pos_left (magnitude_pos hpos) (by positivity) (by norm_num)
  generalize hb : x.gridFloor (tenExponent x.fraction - 16) = b at hbelow habove
  have hnear : x.magnitude - b * 10 ^ (tenExponent x.fraction - 16)
        ≤ 10 ^ (tenExponent x.fraction - 16) / 2 ∨
      (b + 1) * 10 ^ (tenExponent x.fraction - 16) - x.magnitude
        ≤ 10 ^ (tenExponent x.fraction - 16) / 2 := by
    rcases le_total (x.magnitude - b * 10 ^ (tenExponent x.fraction - 16))
      (10 ^ (tenExponent x.fraction - 16) / 2) with h | h
    · exact .inl h
    · right
      linarith
  have hwide : 0 < x.magnitude / 2 ^ 54 := div_pos (magnitude_pos hpos) (by positivity)
  refine exists_onGrid?_of_roundsTo ?_
  rw [hb]
  rcases hnear with h | h
  · left
    refine roundsTo_of_lt (mixed_snd_pos _ _ _) ?_ ?_ <;> rw [ratio_mixed_ten] <;> linarith
  · right
    refine roundsTo_of_lt (mixed_snd_pos _ _ _) ?_ ?_ <;> rw [ratio_mixed_ten] <;> push_cast <;>
      linarith

end

/-! ## The shortest decimal -/

/-- The value of a decimal. -/
def Decimal.value (d : Decimal) : ℚ := d.digits * 10 ^ d.exponent

/-- Without zeros at its end, a decimal has the same value, no more digits and no smaller
exponent. -/
theorem Decimal.strip_spec (fuel : Nat) (d : Decimal) :
    (d.strip fuel).value = d.value ∧ (d.strip fuel).digits ≤ d.digits ∧
      (0 < d.digits → 0 < (d.strip fuel).digits) ∧ d.exponent ≤ (d.strip fuel).exponent := by
  induction fuel generalizing d with
  | zero => exact ⟨rfl, le_refl _, id, le_refl _⟩
  | succ fuel ih =>
    unfold strip
    split
    · next h =>
      obtain ⟨hvalue, hdigits, hpos, hexponent⟩ := ih ⟨d.digits / 10, d.exponent + 1⟩
      simp only at hdigits hpos hexponent
      have hten : d.digits / 10 * 10 = d.digits := Nat.div_mul_cancel (Nat.dvd_of_mod_eq_zero h.2)
      refine ⟨?_, by omega, fun _ => hpos (by omega), by omega⟩
      have htenQ : ((d.digits / 10 : Nat) : ℚ) * 10 = d.digits := by exact_mod_cast hten
      rw [hvalue, value, value, zpow_add₀ (by norm_num), zpow_one, ← htenQ]
      ring
    · exact ⟨rfl, le_refl _, id, le_refl _⟩

section
variable {x : Binary64}

/-- What is found on one of the grids has at most seventeen digits. -/
theorem onGrid?_bounds (hpos : 0 < x.mantissa) {n c : Nat} (hn : n < maxDigits)
    (h : x.onGrid? (tenExponent x.fraction - n) = some c) : 0 < c ∧ c ≤ 10 ^ 17 := by
  obtain ⟨hc, -⟩ := onGrid?_spec h
  obtain ⟨hlow, hhigh⟩ := tenExponent_spec (fraction_fst_pos hpos) x.fraction_snd_pos
  rw [ratio_fraction] at hlow hhigh
  obtain ⟨hbelow, habove⟩ := x.gridFloor_spec (tenExponent x.fraction - n)
  have hstep : (0 : ℚ) < 10 ^ (tenExponent x.fraction - n) := by positivity
  have hfloor : 0 < x.gridFloor (tenExponent x.fraction - n) := by
    have hle : (10 : ℚ) ^ (tenExponent x.fraction - n) ≤ 10 ^ tenExponent x.fraction :=
      ten_zpow_le (by omega)
    have hlt := (hle.trans hlow).trans_lt habove
    have hone : (1 : ℚ) < x.gridFloor (tenExponent x.fraction - n) + 1 :=
      (lt_mul_iff_one_lt_left hstep).1 hlt
    have hcast : (0 : ℚ) < x.gridFloor (tenExponent x.fraction - n) := by linarith
    exact_mod_cast hcast
  have hceiling : x.gridFloor (tenExponent x.fraction - n) < 10 ^ (n + 1) := by
    have hlt := hbelow.trans_lt hhigh
    have hsplit : tenExponent x.fraction + 1
        = ((n + 1 : Nat) : Int) + (tenExponent x.fraction - n) := by omega
    rw [hsplit, zpow_add₀ (by norm_num), mul_lt_mul_iff_left₀ hstep, zpow_natCast] at hlt
    exact_mod_cast hlt
  have hpow : 10 ^ (n + 1) ≤ 10 ^ 17 := Nat.pow_le_pow_right (by decide) hn
  omega

/-- The shortest decimal of a double in the format has at most seventeen digits, lies in the
rounding interval, and is not beyond the decimals of the least double. -/
theorem shortest_spec (hx : x.InRange) (hpos : 0 < x.mantissa) :
    0 < x.shortest.digits ∧ x.shortest.digits ≤ 10 ^ 17 ∧
      x.shortest.value ≤ ratio x.upperEnd ∧ tenExponent x.fraction - 16 ≤ x.shortest.exponent := by
  have hfound : ∃ n < maxDigits, ∃ c, x.onGrid? (tenExponent x.fraction - n) = some c ∧
      x.shortest = Decimal.strip maxDigits ⟨c, tenExponent x.fraction - n⟩ := by
    unfold shortest
    simp only
    split
    · next d hd =>
      obtain ⟨k, hk, hgrid⟩ := List.exists_of_findSome?_eq_some hd
      obtain ⟨n, hn, rfl⟩ := List.mem_map.1 hk
      obtain ⟨c, hc, rfl⟩ := Option.map_eq_some_iff.1 hgrid
      exact ⟨n, List.mem_range.1 hn, c, hc, rfl⟩
    · next hnone =>
      -- a grid of seventeen digits has a decimal, so the search cannot end without one
      obtain ⟨c, hc⟩ := exists_onGrid? hx hpos
      have hmem : tenExponent x.fraction - 16
          ∈ (List.range maxDigits).map fun (n : Nat) => tenExponent x.fraction - n :=
        List.mem_map.2 ⟨16, by decide, rfl⟩
      have hgrid := List.findSome?_eq_none_iff.1 hnone _ hmem
      rw [hc] at hgrid
      cases hgrid
  obtain ⟨n, hn, c, hc, hshortest⟩ := hfound
  obtain ⟨hcpos, hcle⟩ := onGrid?_bounds hpos hn hc
  obtain ⟨-, hrounds⟩ := onGrid?_spec hc
  obtain ⟨hvalue, hdigits, hstrip, hexponent⟩ :=
    Decimal.strip_spec maxDigits ⟨c, tenExponent x.fraction - n⟩
  have hupper := le_upperEnd_of_roundsTo (mixed_snd_pos _ _ _) hrounds
  rw [ratio_mixed_ten] at hupper
  have hdepth : n ≤ 16 := Nat.le_of_lt_succ hn
  have hgrid : tenExponent x.fraction - 16 ≤ tenExponent x.fraction - n := by omega
  rw [hshortest, hvalue]
  exact ⟨hstrip hcpos, hdigits.trans hcle, hupper, hgrid.trans hexponent⟩

/-- The decimal of the greatest double. -/
def greatestDecimal : Decimal := ⟨17976931348623157, 292⟩

/-- The greatest double has the decimal whose digits are next to it on the grid, though the interval
reaches further. -/
theorem shortest_greatest (negative : Bool) :
    shortest ⟨negative, 9007199254740991, maxExponent⟩ = greatestDecimal := by
  cases negative <;> decide +kernel

/-- A comparison with a decimal in natural numbers. -/
theorem le_value {n two : Nat} (ten : Nat) {d : Decimal} (hd : d.exponent = ten)
    (h : n * 2 ^ two ≤ d.digits * 10 ^ ten) : (n : ℚ) * 2 ^ (two : Int) ≤ d.value := by
  unfold Decimal.value
  rw [hd, zpow_natCast, zpow_natCast]
  exact_mod_cast h

/-- The interval of every other double ends below that decimal. -/
theorem ratio_upperEnd_le (hx : x.InRange)
    (hne : ¬(x.mantissa = 9007199254740991 ∧ x.exponent = maxExponent)) :
    ratio x.upperEnd ≤ greatestDecimal.value := by
  have hgreatest : ((18014398509481981 : Nat) : ℚ) * 2 ^ ((970 : Nat) : Int)
      ≤ greatestDecimal.value := le_value 292 rfl (by decide +kernel)
  have hmantissa : x.mantissa ≤ 9007199254740991 := Nat.le_of_lt_succ hx.mantissa_lt
  have hscale : (0 : ℚ) < 2 ^ x.exponent := by positivity
  refine le_trans ?_ hgreatest
  rw [ratio_upperEnd]
  unfold magnitude
  rcases lt_or_eq_of_le hx.le_maxExponent with hexponent | hexponent
  · have hcast : (x.mantissa : ℚ) ≤ 9007199254740991 := by exact_mod_cast hmantissa
    have hpow : (2 : ℚ) ^ x.exponent ≤ 2 ^ ((970 : Nat) : Int) :=
      two_zpow_le (Int.le_of_lt_add_one hexponent)
    generalize (2 : ℚ) ^ ((970 : Nat) : Int) = scale at hpow
    push_cast
    nlinarith
  · have hbelow : x.mantissa ≤ 9007199254740990 := by
      have hne' : x.mantissa ≠ 9007199254740991 := fun h => hne ⟨h, hexponent⟩
      omega
    have hcast : (x.mantissa : ℚ) ≤ 9007199254740990 := by exact_mod_cast hbelow
    have hdouble : (2 : ℚ) ^ x.exponent = 2 * 2 ^ ((970 : Nat) : Int) := by
      have hsplit : maxExponent = 1 + ((970 : Nat) : Int) := by decide
      rw [hexponent, hsplit, zpow_add₀ (by norm_num), zpow_one]
    generalize (2 : ℚ) ^ ((970 : Nat) : Int) = scale at hdouble
    rw [hdouble] at hscale ⊢
    push_cast
    nlinarith

/-- The shortest decimals of the format are at most that of the greatest double. -/
theorem shortest_value_le (hx : x.InRange) (hpos : 0 < x.mantissa) :
    x.shortest.value ≤ greatestDecimal.value := by
  by_cases hgreatest : x.mantissa = 9007199254740991 ∧ x.exponent = maxExponent
  · obtain ⟨negative, m, e⟩ := x
    obtain ⟨rfl, rfl⟩ := hgreatest
    rw [shortest_greatest]
  · obtain ⟨-, -, hupper, -⟩ := shortest_spec hx hpos
    exact hupper.trans (ratio_upperEnd_le hx hgreatest)

/-- Their exponents are not far below that of the least double. -/
theorem le_shortest_exponent (hx : x.InRange) (hpos : 0 < x.mantissa) :
    -340 ≤ x.shortest.exponent := by
  obtain ⟨-, -, -, hexponent⟩ := shortest_spec hx hpos
  obtain ⟨-, hlt⟩ := tenExponent_spec (fraction_fst_pos hpos) x.fraction_snd_pos
  rw [ratio_fraction] at hlt
  have hone : (1 : ℚ) ≤ x.mantissa := Nat.one_le_cast.2 hpos
  have hscale : (0 : ℚ) < 2 ^ x.exponent := by positivity
  have hleast : (10 : ℚ) ^ (-324 : Int) ≤ 2 ^ minExponent := by
    have hpow (k l : Nat) (h : 2 ^ k ≤ 10 ^ l) : (10 : ℚ) ^ (-(l : Int)) ≤ 2 ^ (-(k : Int)) := by
      rw [zpow_neg, zpow_neg, zpow_natCast, zpow_natCast]
      exact inv_anti₀ (by positivity) (by exact_mod_cast h)
    exact hpow 1074 324 (by decide +kernel)
  have hmagnitude : (2 : ℚ) ^ minExponent ≤ x.magnitude := by
    refine (two_zpow_le hx.minExponent_le).trans ?_
    unfold magnitude
    nlinarith
  have hten := (zpow_lt_zpow_iff_right₀ (by norm_num : (1 : ℚ) < 10)).1
    ((hleast.trans hmagnitude).trans_lt hlt)
  omega

end

end Binary64

end TagCache
