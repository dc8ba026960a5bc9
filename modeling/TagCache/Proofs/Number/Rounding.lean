import Mathlib.Algebra.Order.Field.Power
import Mathlib.Algebra.Order.Field.Rat
import Mathlib.Tactic.FieldSimp
import Mathlib.Tactic.Linarith
import Mathlib.Tactic.Positivity
import Mathlib.Tactic.Ring
import TagCache.Number.Binary64

/-!
# Rounding to doubles

Rounding keeps the order of fractions (`Binary64.round?_mono`), so a fraction below one that rounds
to a double rounds to a double too, and to one that is not greater. That rests on the exponents: the
one that is chosen for a fraction gives it a mantissa of full width, or is the least
(`Binary64.exponentOf_spec`), and within one exponent the nearest integers are in order
(`Binary64.nearest_mono`).
-/

namespace TagCache

namespace Binary64

/-- The number without its sign. -/
def magnitude (x : Binary64) : ℚ := x.mantissa * 2 ^ x.exponent

/-- The number has a mantissa and an exponent of the format. -/
structure InRange (x : Binary64) : Prop where
  mantissa_lt : x.mantissa < 2 * fullMantissa
  minExponent_le : minExponent ≤ x.exponent
  le_maxExponent : x.exponent ≤ maxExponent

/-- The value of a fraction. -/
def ratio (f : Nat × Nat) : ℚ := f.1 / f.2

/-- Scaling a fraction down divides it by a power of two. -/
theorem ratio_scaleDown (n d : Nat) (e : Int) : ratio (scaleDown n d e) = n / d / 2 ^ e := by
  unfold ratio scaleDown
  obtain ⟨k, rfl | rfl⟩ := e.eq_nat_or_neg
  · simp [div_div]
  · simp [mul_div_right_comm]

/-- A scaled fraction has a denominator. -/
theorem scaleDown_snd_pos {d : Nat} (hd : 0 < d) (n : Nat) (e : Int) : 0 < (scaleDown n d e).2 :=
  Nat.mul_pos hd (Nat.pow_pos (by decide))

/-- The fraction of a number is its magnitude. -/
theorem ratio_fraction (x : Binary64) : ratio x.fraction = x.magnitude := by
  unfold fraction magnitude
  rw [ratio_scaleDown, zpow_neg]
  simp

/-- The fraction of a number has a denominator. -/
theorem fraction_snd_pos (x : Binary64) : 0 < x.fraction.2 := scaleDown_snd_pos (by decide) _ _

/-! ## The nearest integer -/

/-- The nearest integer is at most one half away, and even if it is one half away. -/
theorem nearest_spec (n : Nat) {d : Nat} (hd : 0 < d) :
    2 * (nearest n d * d) ≤ 2 * n + d ∧ 2 * n ≤ 2 * (nearest n d * d) + d ∧
      (2 * (nearest n d * d) = 2 * n + d ∨ 2 * n = 2 * (nearest n d * d) + d →
        nearest n d % 2 = 0) := by
  have hn : n = n / d * d + n % d := (Nat.div_add_mod' n d).symm
  have hr := Nat.mod_lt n hd
  unfold nearest
  simp only
  generalize n / d = q at hn ⊢
  generalize n % d = r at hn hr ⊢
  have hsucc : (q + 1) * d = q * d + d := by ring
  split
  · omega
  · split
    · rw [hsucc]
      omega
    · rcases Nat.mod_two_eq_zero_or_one q with hq | hq
      · rw [hq, Nat.add_zero]
        omega
      · rw [hq, hsucc]
        omega

/-- A greater fraction has no smaller nearest integer. -/
theorem nearest_mono {n d n' d' : Nat} (hd : 0 < d) (hd' : 0 < d') (h : n * d' ≤ n' * d) :
    nearest n d ≤ nearest n' d' := by
  obtain ⟨hlow, -, heven⟩ := nearest_spec n hd
  obtain ⟨-, hhigh, heven'⟩ := nearest_spec n' hd'
  generalize nearest n d = m at hlow heven ⊢
  generalize nearest n' d' = m' at hhigh heven' ⊢
  by_contra hlt
  have hlt : m' + 1 ≤ m := by omega
  -- both fractions are the middle of the two integers, of which only one is even
  have hupper : 2 * (m * d) * d' ≤ (2 * n + d) * d' := Nat.mul_le_mul_right _ hlow
  have hlower : 2 * n' * d ≤ (2 * (m' * d') + d') * d := Nat.mul_le_mul_right _ hhigh
  have hgap : (m' + 1) * (d * d') ≤ m * (d * d') := Nat.mul_le_mul_right _ hlt
  have hpos : 0 < d * d' := Nat.mul_pos hd hd'
  have hm : m * (d * d') = (m' + 1) * (d * d') := by nlinarith
  have hm : m = m' + 1 := Nat.eq_of_mul_eq_mul_right hpos hm
  subst hm
  have htie : 2 * ((m' + 1) * d) = 2 * n + d := by
    refine Nat.le_antisymm hlow (Nat.le_of_mul_le_mul_right ?_ hd')
    nlinarith
  have htie' : 2 * n' = 2 * (m' * d') + d' := by
    refine Nat.le_antisymm hhigh (Nat.le_of_mul_le_mul_right ?_ hd)
    nlinarith
  have hfirst := heven (.inl htie)
  have hsecond := heven' (.inr htie')
  omega

/-! ## The exponent -/

/-- The least mantissa of full length is a power of two. -/
theorem fullMantissa_eq : (fullMantissa : ℚ) = 2 ^ (52 : ℤ) := by norm_num [fullMantissa]

/-- Scaled, it is a power of two. -/
theorem fullMantissa_mul (e : Int) : (fullMantissa : ℚ) * 2 ^ e = 2 ^ (52 + e) := by
  rw [fullMantissa_eq, zpow_add₀ (by norm_num)]

/-- Twice as large, it is the next one. -/
theorem two_fullMantissa_mul (e : Int) : (2 : ℚ) * fullMantissa * 2 ^ e = 2 ^ (53 + e) := by
  have hsplit : 53 + e = 1 + (52 + e) := by ring
  rw [mul_assoc, fullMantissa_mul, hsplit, zpow_add₀ (by norm_num) 1, zpow_one]

/-- Powers of two grow with their exponents. -/
theorem two_zpow_le {e e' : Int} (h : e ≤ e') : (2 : ℚ) ^ e ≤ 2 ^ e' :=
  zpow_le_zpow_right₀ (by norm_num) h

/-- A positive fraction lies between powers of two that its terms tell. -/
theorem log2_bounds {n d : Nat} (hn : 0 < n) (hd : 0 < d) :
    (2 : ℚ) ^ ((Nat.log2 n : ℤ) - Nat.log2 d - 1) ≤ n / d ∧
      (n / d : ℚ) < 2 ^ ((Nat.log2 n : ℤ) - Nat.log2 d + 1) := by
  have hdQ : (0 : ℚ) < d := Nat.cast_pos.2 hd
  have hlowN : (2 : ℚ) ^ (Nat.log2 n : ℤ) ≤ n := by exact_mod_cast Nat.log2_self_le hn.ne'
  have hhighN : (n : ℚ) < 2 ^ (Nat.log2 n + 1 : ℤ) := by exact_mod_cast Nat.lt_log2_self
  have hlowD : (2 : ℚ) ^ (Nat.log2 d : ℤ) ≤ d := by exact_mod_cast Nat.log2_self_le hd.ne'
  have hhighD : (d : ℚ) < 2 ^ (Nat.log2 d + 1 : ℤ) := by exact_mod_cast Nat.lt_log2_self
  rw [le_div_iff₀ hdQ, div_lt_iff₀ hdQ]
  constructor
  · calc (2 : ℚ) ^ ((Nat.log2 n : ℤ) - Nat.log2 d - 1) * d
        ≤ 2 ^ ((Nat.log2 n : ℤ) - Nat.log2 d - 1) * 2 ^ (Nat.log2 d + 1 : ℤ) := by gcongr
      _ = 2 ^ (Nat.log2 n : ℤ) := by
        rw [← zpow_add₀ (by norm_num)]
        congr 1
        ring
      _ ≤ n := hlowN
  · calc (n : ℚ) < 2 ^ (Nat.log2 n + 1 : ℤ) := hhighN
      _ = 2 ^ ((Nat.log2 n : ℤ) - Nat.log2 d + 1) * 2 ^ (Nat.log2 d : ℤ) := by
        rw [← zpow_add₀ (by norm_num)]
        congr 1
        ring
      _ ≤ 2 ^ ((Nat.log2 n : ℤ) - Nat.log2 d + 1) * d := by gcongr

/-- The exponent of a positive fraction gives it a mantissa of full width, or is the least. -/
theorem exponentOf_spec {n d : Nat} (hn : 0 < n) (hd : 0 < d) :
    minExponent ≤ exponentOf n d ∧ (n / d : ℚ) < 2 * fullMantissa * 2 ^ exponentOf n d ∧
      (exponentOf n d = minExponent ∨ fullMantissa * 2 ^ exponentOf n d ≤ (n / d : ℚ)) := by
  obtain ⟨hlow, hhigh⟩ := log2_bounds hn hd
  unfold exponentOf
  simp only
  generalize he : (Nat.log2 n : ℤ) - Nat.log2 d - 52 = e
  have hlow : (2 : ℚ) ^ (51 + e) ≤ n / d := by
    have hexp : 51 + e = (Nat.log2 n : ℤ) - Nat.log2 d - 1 := by omega
    rwa [hexp]
  have hhigh : (n / d : ℚ) < 2 ^ (53 + e) := by
    have hexp : 53 + e = (Nat.log2 n : ℤ) - Nat.log2 d + 1 := by omega
    rwa [hexp]
  have hfloor : (scaleDown n d e).1 / (scaleDown n d e).2 < fullMantissa ↔
      (n / d : ℚ) < 2 ^ (52 + e) := by
    have hpos := scaleDown_snd_pos hd n e
    have hposQ : (0 : ℚ) < (scaleDown n d e).2 := Nat.cast_pos.2 hpos
    have hratio : ((scaleDown n d e).1 : ℚ) / (scaleDown n d e).2 = n / d / 2 ^ e :=
      ratio_scaleDown n d e
    rw [Nat.div_lt_iff_lt_mul hpos, ← fullMantissa_mul, ← div_lt_iff₀ (by positivity), ← hratio,
      div_lt_iff₀ hposQ]
    exact_mod_cast Iff.rfl
  -- the logarithms give the exponent or one more, and the trial division decides
  have hwidth : ∃ e', (if (scaleDown n d e).1 / (scaleDown n d e).2 < fullMantissa then e - 1
      else e) = e' ∧ (2 : ℚ) ^ (52 + e') ≤ n / d ∧ (n / d : ℚ) < 2 ^ (53 + e') := by
    split
    · next h =>
      refine ⟨e - 1, rfl, ?_, ?_⟩
      · have hexp : 52 + (e - 1) = 51 + e := by ring
        rwa [hexp]
      · have hexp : 53 + (e - 1) = 52 + e := by ring
        rw [hexp]
        exact hfloor.1 h
    · next h => exact ⟨e, rfl, not_lt.1 fun hlt => h (hfloor.2 hlt), hhigh⟩
  obtain ⟨e', heq, hfull, hlt⟩ := hwidth
  rw [heq, two_fullMantissa_mul, fullMantissa_mul]
  refine ⟨le_max_right _ _, hlt.trans_le (two_zpow_le (by omega)), ?_⟩
  rcases le_total e' minExponent with h | h
  · exact .inl (max_eq_right h)
  · rw [max_eq_left h]
    exact .inr hfull

/-! ## Rounding -/

/-- The mantissa of a fraction at its exponent, before it is cut to the format. -/
def mantissaOf (n d : Nat) : Nat :=
  nearest (scaleDown n d (exponentOf n d)).1 (scaleDown n d (exponentOf n d)).2

/-- The number with a mantissa that is one too great at most. -/
def carried (negative : Bool) (m : Nat) (e : Int) : Binary64 :=
  if m = 2 * fullMantissa then ⟨negative, fullMantissa, e + 1⟩ else ⟨negative, m, e⟩

/-- Carrying a mantissa that is too long keeps the magnitude. -/
theorem magnitude_carried (negative : Bool) (m : Nat) (e : Int) :
    (carried negative m e).magnitude = m * 2 ^ e := by
  unfold carried magnitude
  split
  · next h =>
    subst h
    rw [zpow_add₀ (by norm_num), zpow_one]
    push_cast
    ring
  · rfl

/-- A fraction above zero is rounded unless the exponent is too large. -/
theorem round?_of_pos (negative : Bool) {n : Nat} (hn : 0 < n) (d : Nat) :
    round? negative n d = if (carried negative (mantissaOf n d) (exponentOf n d)).exponent
        ≤ maxExponent then some (carried negative (mantissaOf n d) (exponentOf n d)) else none := by
  unfold round?
  rw [if_neg hn.ne']
  rfl

/-- A whole number is nearest to itself. -/
theorem nearest_one (k : Nat) : nearest k 1 = k := by
  simp [nearest, Nat.mod_one]

/-- A rounded mantissa is not longer than one that is carried. -/
theorem mantissaOf_le {n d : Nat} (hn : 0 < n) (hd : 0 < d) :
    mantissaOf n d ≤ 2 * fullMantissa := by
  obtain ⟨-, hlt, -⟩ := exponentOf_spec hn hd
  have hpos := scaleDown_snd_pos hd n (exponentOf n d)
  have hratio := ratio_scaleDown n d (exponentOf n d)
  unfold ratio at hratio
  rw [← div_lt_iff₀ (by positivity), ← hratio, div_lt_iff₀ (Nat.cast_pos.2 hpos)] at hlt
  rw [← nearest_one (2 * fullMantissa)]
  refine nearest_mono hpos Nat.one_pos ?_
  rw [Nat.mul_one]
  exact_mod_cast hlt.le

/-- A fraction with the exponent of a full mantissa has a full mantissa. -/
theorem le_mantissaOf {n d : Nat} (hd : 0 < d)
    (h : fullMantissa * 2 ^ exponentOf n d ≤ (n / d : ℚ)) : fullMantissa ≤ mantissaOf n d := by
  have hpos := scaleDown_snd_pos hd n (exponentOf n d)
  have hratio := ratio_scaleDown n d (exponentOf n d)
  unfold ratio at hratio
  rw [← le_div_iff₀ (by positivity), ← hratio, le_div_iff₀ (Nat.cast_pos.2 hpos)] at h
  rw [← nearest_one fullMantissa]
  refine nearest_mono Nat.one_pos hpos ?_
  rw [Nat.mul_one]
  exact_mod_cast h

/-- At one exponent, a greater fraction has no smaller mantissa. -/
theorem mantissaOf_mono {n d n' d' : Nat} (hd : 0 < d) (hd' : 0 < d') (h : (n / d : ℚ) ≤ n' / d')
    (he : exponentOf n d = exponentOf n' d') : mantissaOf n d ≤ mantissaOf n' d' := by
  have hpos := scaleDown_snd_pos hd n (exponentOf n d)
  have hpos' := scaleDown_snd_pos hd' n' (exponentOf n' d')
  have hratio := ratio_scaleDown n d (exponentOf n d)
  have hratio' := ratio_scaleDown n' d' (exponentOf n' d')
  have hle : (n / d / 2 ^ exponentOf n d : ℚ) ≤ n' / d' / 2 ^ exponentOf n' d' := by
    rw [he]
    gcongr
  rw [← hratio, ← hratio'] at hle
  unfold ratio at hle
  rw [div_le_div_iff₀ (Nat.cast_pos.2 hpos) (Nat.cast_pos.2 hpos')] at hle
  exact nearest_mono hpos hpos' (by exact_mod_cast hle)

/-- Zero is in range. -/
theorem inRange_zero (negative : Bool) : (zero negative).InRange :=
  ⟨show 0 < 2 * fullMantissa by decide, le_refl _, show minExponent ≤ maxExponent by decide⟩

/-- What is rounded to is in the format. -/
theorem inRange_of_round? {negative : Bool} {n d : Nat} (hd : 0 < d) {x : Binary64}
    (h : round? negative n d = some x) : x.InRange := by
  rcases Nat.eq_zero_or_pos n with rfl | hn
  · cases h
    exact inRange_zero negative
  · rw [round?_of_pos negative hn] at h
    split at h
    · next hmax =>
      cases h
      obtain ⟨hmin, -, -⟩ := exponentOf_spec hn hd
      have hle := mantissaOf_le hn hd
      unfold carried at hmax ⊢
      split at hmax
      · next hm =>
        rw [if_pos hm]
        exact ⟨show fullMantissa < 2 * fullMantissa by decide, Int.le_add_one hmin, hmax⟩
      · next hm =>
        rw [if_neg hm]
        exact ⟨lt_of_le_of_ne hle hm, hmin, hmax⟩
    · cases h

/-- A number with the other sign is in range too. -/
theorem InRange.neg {x : Binary64} (hx : x.InRange) : x.neg.InRange :=
  ⟨hx.mantissa_lt, hx.minExponent_le, hx.le_maxExponent⟩

/-- Zero has no magnitude. -/
theorem magnitude_zero (negative : Bool) : (zero negative).magnitude = 0 := by
  simp [zero, magnitude]

/-- Magnitudes are not negative. -/
theorem magnitude_nonneg (x : Binary64) : 0 ≤ x.magnitude := by
  unfold magnitude
  positivity

/-- The exponents and mantissas of two fractions are in the order of the fractions: the exponents
alone decide, unless they are equal. -/
theorem exponentOf_cases {n d n' d' : Nat} (hn : 0 < n) (hd : 0 < d) (hn' : 0 < n') (hd' : 0 < d')
    (h : (n / d : ℚ) ≤ n' / d') :
    (exponentOf n d = exponentOf n' d' ∧ mantissaOf n d ≤ mantissaOf n' d') ∨
    (exponentOf n d < exponentOf n' d' ∧ fullMantissa ≤ mantissaOf n' d') := by
  obtain ⟨hmin, -, hfull⟩ := exponentOf_spec hn hd
  obtain ⟨hmin', hlt', hfull'⟩ := exponentOf_spec hn' hd'
  rcases lt_trichotomy (exponentOf n d) (exponentOf n' d') with hlt | heq | hgt
  · refine .inr ⟨hlt, le_mantissaOf hd' (hfull'.resolve_left ?_)⟩
    omega
  · exact .inl ⟨heq, mantissaOf_mono hd hd' h heq⟩
  · exfalso
    have hwide := hfull.resolve_left (by omega)
    have hpow : (2 : ℚ) ^ (53 + exponentOf n' d') ≤ 2 ^ (52 + exponentOf n d) :=
      two_zpow_le (by omega)
    rw [fullMantissa_mul] at hwide
    rw [two_fullMantissa_mul] at hlt'
    exact absurd (hwide.trans h) (not_le.2 (hlt'.trans_le hpow))

/-- The exponent of a smaller fraction is not greater, also where a mantissa is carried. -/
theorem exponent_carried_le (negative negative' : Bool) {m m' : Nat} {e e' : Int}
    (hm' : m' ≤ 2 * fullMantissa) (h : (e = e' ∧ m ≤ m') ∨ e < e') :
    (carried negative m e).exponent ≤ (carried negative' m' e').exponent := by
  unfold carried
  rcases h with ⟨rfl, hm⟩ | he
  · split
    · next hfull =>
      rw [if_pos (le_antisymm hm' (hfull ▸ hm))]
    · split
      · exact Int.le_add_one (le_refl _)
      · exact le_refl _
  · split
    · split
      · exact Int.add_le_add_right he.le 1
      · exact he
    · split
      · exact Int.le_add_one he.le
      · exact he.le

/-- A fraction below one that rounds to a double rounds to a double that is not greater. -/
theorem round?_mono (negative : Bool) {negative' : Bool} {n d n' d' : Nat} (hd : 0 < d)
    (hd' : 0 < d') (h : (n / d : ℚ) ≤ n' / d') {x' : Binary64}
    (hx' : round? negative' n' d' = some x') :
    ∃ x, round? negative n d = some x ∧ x.magnitude ≤ x'.magnitude := by
  rcases Nat.eq_zero_or_pos n with rfl | hn
  · exact ⟨zero negative, rfl, (magnitude_zero _).trans_le x'.magnitude_nonneg⟩
  have hn' : 0 < n' := by
    rcases Nat.eq_zero_or_pos n' with rfl | hn'
    · have hpos : (0 : ℚ) < n / d := div_pos (Nat.cast_pos.2 hn) (Nat.cast_pos.2 hd)
      rw [Nat.cast_zero, zero_div] at h
      exact absurd h (not_le.2 hpos)
    · exact hn'
  rw [round?_of_pos negative' hn'] at hx'
  split at hx'
  case isFalse => cases hx'
  case isTrue hmax' =>
  cases hx'
  have hle := mantissaOf_le hn hd
  have horder := exponentOf_cases hn hd hn' hd' h
  have hmax : (carried negative (mantissaOf n d) (exponentOf n d)).exponent ≤ maxExponent :=
    (exponent_carried_le negative negative' (mantissaOf_le hn' hd')
      (horder.imp_right And.left)).trans hmax'
  refine ⟨_, (round?_of_pos negative hn d).trans (if_pos hmax), ?_⟩
  rw [magnitude_carried, magnitude_carried]
  rcases horder with ⟨he, hm⟩ | ⟨he, hm⟩
  · rw [he]
    gcongr
  · calc (mantissaOf n d : ℚ) * 2 ^ exponentOf n d
        ≤ (2 * fullMantissa : ℚ) * 2 ^ exponentOf n d := by
          gcongr
          exact_mod_cast hle
      _ = 2 ^ (53 + exponentOf n d) := two_fullMantissa_mul _
      _ ≤ 2 ^ (52 + exponentOf n' d') := two_zpow_le (by omega)
      _ = fullMantissa * 2 ^ exponentOf n' d' := (fullMantissa_mul _).symm
      _ ≤ mantissaOf n' d' * 2 ^ exponentOf n' d' := by
          gcongr

/-! ## Products and quotients -/

/-- Rounding whole numbers keeps their order, and what is below a number that can be rounded can be.
-/
theorem ofNat?_mono {n n' : Nat} (h : n ≤ n') {x' : Binary64} (hx' : ofNat? n' = some x') :
    ∃ x, ofNat? n = some x ∧ x.magnitude ≤ x'.magnitude := by
  refine round?_mono false Nat.one_pos Nat.one_pos ?_ hx'
  gcongr

/-- The product of two fractions is that of the magnitudes. -/
theorem ratio_mul (x y : Binary64) :
    ((x.fraction.1 * y.fraction.1 : Nat) / (x.fraction.2 * y.fraction.2 : Nat) : ℚ)
      = x.magnitude * y.magnitude := by
  rw [← ratio_fraction, ← ratio_fraction]
  unfold ratio
  push_cast
  rw [div_mul_div_comm]

/-- Rounded products keep the order of their factors. -/
theorem mul?_mono {x y x' y' z' : Binary64} (hx : x.magnitude ≤ x'.magnitude)
    (hy : y.magnitude ≤ y'.magnitude) (hz' : x'.mul? y' = some z') :
    ∃ z, x.mul? y = some z ∧ z.magnitude ≤ z'.magnitude := by
  refine round?_mono _ (Nat.mul_pos x.fraction_snd_pos y.fraction_snd_pos)
    (Nat.mul_pos x'.fraction_snd_pos y'.fraction_snd_pos) ?_ hz'
  rw [ratio_mul, ratio_mul]
  exact mul_le_mul hx hy y.magnitude_nonneg x'.magnitude_nonneg

/-- A number from one on has a numerator. -/
theorem fraction_fst_pos_of_one_le {x : Binary64} (h : 1 ≤ x.magnitude) : 0 < x.fraction.1 := by
  have hratio : ratio x.fraction = x.magnitude := ratio_fraction x
  unfold ratio at hratio
  rcases Nat.eq_zero_or_pos x.fraction.1 with hzero | hpos
  · rw [hzero, Nat.cast_zero, zero_div] at hratio
    rw [← hratio] at h
    exact absurd h (by norm_num)
  · exact hpos

/-- A rounded whole number is in range. -/
theorem inRange_ofNat? {n : Nat} {x : Binary64} (h : ofNat? n = some x) : x.InRange :=
  inRange_of_round? Nat.one_pos h

/-- A rounded product is in range. -/
theorem inRange_mul? {x y z : Binary64} (h : x.mul? y = some z) : z.InRange :=
  inRange_of_round? (Nat.mul_pos x.fraction_snd_pos y.fraction_snd_pos) h

/-- A rounded quotient is in range. -/
theorem inRange_div? {x y z : Binary64} (hy : 1 ≤ y.magnitude) (h : x.div? y = some z) :
    z.InRange :=
  inRange_of_round? (Nat.mul_pos x.fraction_snd_pos (fraction_fst_pos_of_one_le hy)) h

/-- A quotient by a number of at least one is at most a natural number that the dividend does not
exceed, if that number is a double. -/
theorem exists_div? {x y c : Binary64} {n : Nat} (hn : ofNat? n = some c) (hc : c.magnitude ≤ n)
    (hx : x.magnitude ≤ n) (hy : 1 ≤ y.magnitude) :
    ∃ z, x.div? y = some z ∧ z.magnitude ≤ n := by
  have hypos := fraction_fst_pos_of_one_le hy
  have hratio : ((x.fraction.1 * y.fraction.2 : Nat) / (x.fraction.2 * y.fraction.1 : Nat) : ℚ)
      = x.magnitude / y.magnitude := by
    rw [← ratio_fraction, ← ratio_fraction]
    unfold ratio
    push_cast
    rw [div_div_div_eq]
  have hle : ((x.fraction.1 * y.fraction.2 : Nat) / (x.fraction.2 * y.fraction.1 : Nat) : ℚ)
      ≤ (n : Nat) / (1 : Nat) := by
    rw [hratio, Nat.cast_one, div_one]
    exact (div_le_self x.magnitude_nonneg hy).trans hx
  obtain ⟨z, hz, hzc⟩ := round?_mono (x.negative != y.negative)
    (Nat.mul_pos x.fraction_snd_pos hypos) Nat.one_pos hle hn
  exact ⟨z, hz, hzc.trans hc⟩

end Binary64

end TagCache
