import TagCache.Json.Printer
import TagCache.Proofs.Json.Literal
import TagCache.Proofs.Number.Shortest

/-!
# Written doubles are read

The text of a double reads as a double again (`Literal.toJson?_ofDouble`), though not always as the
same one (`Binary64.reread`), since the reader rounds the digits and the power of ten before it
multiplies them. So what has to be shown is that the product is never too great. Of all decimals
with at most seventeen digits that round to a double in the format, the one of the greatest double
is the greatest, and products are in the order of their factors (`Literal.isSome_timesTen?`).
-/

namespace TagCache

open Binary64 (Decimal ofNat? tenPow? greatestDecimal)

namespace Literal

/-! ## Powers of ten -/

/-- The power of ten that a double stands for is at least one. -/
theorem one_le_tenPow? {k : Nat} {x : Binary64} (h : tenPow? k = some x) : 1 ≤ x.magnitude := by
  have hle : 1 ≤ 10 ^ k := Nat.one_le_pow _ _ (by decide)
  obtain ⟨y, hy, hyx⟩ := Binary64.ofNat?_mono hle h
  have hone : ofNat? 1 = some ⟨false, 4503599627370496, -52⟩ := by decide +kernel
  rw [hone] at hy
  cases hy
  have hvalue : Binary64.magnitude ⟨false, 4503599627370496, -52⟩ = 1 := by
    norm_num [Binary64.magnitude]
  rwa [hvalue] at hyx

/-- Powers of ten keep the order of their exponents, and a smaller one exists. -/
theorem tenPow?_mono {k k' : Nat} (h : k ≤ k') {x' : Binary64} (hx' : tenPow? k' = some x') :
    ∃ x, tenPow? k = some x ∧ x.magnitude ≤ x'.magnitude :=
  Binary64.ofNat?_mono (Nat.pow_le_pow_right (by decide) h) hx'

/-- There are all powers of ten up to the greatest. -/
theorem exists_tenPow? {k : Nat} (hk : k ≤ Binary64.maxTenPow) : ∃ x, tenPow? k = some x := by
  have hmax : (tenPow? Binary64.maxTenPow).isSome = true := by decide +kernel
  obtain ⟨y, hy⟩ := Option.isSome_iff_exists.1 hmax
  obtain ⟨x, hx, -⟩ := tenPow?_mono hk hy
  exact ⟨x, hx⟩

/-! ## Products that are not too great -/

/-- A word times a power of ten, as the reader multiplies them. -/
def timesTen? (n k : Nat) : Option Binary64 := do (← ofNat? n).mul? (← tenPow? k)

/-- A smaller whole number times a smaller power of ten is a double too. -/
theorem timesTen?_mono {n n' k k' : Nat} (hn : n ≤ n') (hk : k ≤ k')
    (h : (timesTen? n' k').isSome = true) : (timesTen? n k).isSome = true := by
  obtain ⟨z', hz'⟩ := Option.isSome_iff_exists.1 h
  obtain ⟨x', hx', hz'⟩ := Option.bind_eq_some_iff.1 hz'
  obtain ⟨y', hy', hz'⟩ := Option.bind_eq_some_iff.1 hz'
  obtain ⟨x, hx, hxx⟩ := Binary64.ofNat?_mono hn hx'
  obtain ⟨y, hy, hyy⟩ := tenPow?_mono hk hy'
  obtain ⟨z, hz, -⟩ := Binary64.mul?_mono hxx hyy hz'
  refine Option.isSome_iff_exists.2 ⟨z, ?_⟩
  exact Option.bind_eq_some_iff.2 ⟨x, hx, Option.bind_eq_some_iff.2 ⟨y, hy, hz⟩⟩

/-- Factors of ten that both sides have can be dropped. -/
theorem mul_pow_le_of_mul_pow_add {n d j k : Nat} (h : n * 10 ^ (k + j) ≤ d * 10 ^ k) :
    n * 10 ^ j ≤ d := by
  rw [Nat.add_comm, Nat.pow_add, ← Nat.mul_assoc] at h
  exact Nat.le_of_mul_le_mul_right h (Nat.pow_pos (by decide))

/-- As many digits as the factor loses, the other one can have more. -/
theorem lt_of_mul_pow_add {n d j k m : Nat} (hn : 0 < n) (hd : d < 10 ^ m)
    (h : n * 10 ^ (k + j) ≤ d * 10 ^ k) : j < m := by
  have hpow : 10 ^ j ≤ n * 10 ^ j := Nat.le_mul_of_pos_left _ hn
  have hlt : 10 ^ j < 10 ^ m := lt_of_le_of_lt (hpow.trans (mul_pow_le_of_mul_pow_add h)) hd
  exact (Nat.pow_lt_pow_iff_right (by decide)).1 hlt

/-- A whole number that is not too large is scaled by no more than the greatest power of ten. -/
theorem le_maxTenPow {n k : Nat} (hn : 0 < n)
    (h : n * 10 ^ k ≤ greatestDecimal.digits * 10 ^ 292) : k ≤ Binary64.maxTenPow := by
  have hmax : Binary64.maxTenPow = 308 := rfl
  rcases Nat.lt_or_ge k 292 with hk | hk
  · omega
  · obtain ⟨j, rfl⟩ := Nat.exists_eq_add_of_le hk
    have hdigits : greatestDecimal.digits < 10 ^ 17 := by decide
    have hj : j < 17 := lt_of_mul_pow_add hn hdigits h
    omega

/-- No product of a word of seventeen digits is too great if its exact value is not above the
decimal of the greatest double. -/
theorem isSome_timesTen? {n k : Nat} (hn : 0 < n) (hn' : n ≤ 10 ^ 17)
    (h : n * 10 ^ k ≤ greatestDecimal.digits * 10 ^ 292) : (timesTen? n k).isSome = true := by
  have hgreatest : greatestDecimal.digits = 17976931348623157 := rfl
  rw [hgreatest] at h
  rcases Nat.lt_or_ge k 292 with hk | hk
  · have hsmall : (timesTen? (10 ^ 17) 291).isSome = true := by decide +kernel
    exact timesTen?_mono hn' (Nat.le_of_lt_succ hk) hsmall
  · -- here the exponent leaves less digits to the word
    obtain ⟨j, rfl⟩ := Nat.exists_eq_add_of_le hk
    have hword : n * 10 ^ j ≤ 17976931348623157 := mul_pow_le_of_mul_pow_add h
    have hj : j < 17 := lt_of_mul_pow_add hn (by decide) h
    have hdiv : n ≤ 17976931348623157 / 10 ^ j :=
      (Nat.le_div_iff_mul_le (Nat.pow_pos (by decide))).2 hword
    have hall : ∀ j < 17, (timesTen? (17976931348623157 / 10 ^ j) (292 + j)).isSome = true := by
      decide +kernel
    exact timesTen?_mono hdiv (le_refl _) (hall j hj)

/-! ## Quotients -/

/-- Numbers of seventeen digits stay so when they are divided by a power of ten. -/
theorem exists_timesTenPow?_of_neg (steps : Nat) {x : Binary64} {e : Int} (he : e < 0)
    (hx : x.magnitude ≤ (10 ^ 17 : Nat)) : ∃ y, timesTenPow? steps x e = some y := by
  have hbound : ofNat? (10 ^ 17) = some ⟨false, 6250000000000000, 4⟩ := by decide +kernel
  have hvalue : Binary64.magnitude ⟨false, 6250000000000000, 4⟩ ≤ (10 ^ 17 : Nat) := by
    norm_num [Binary64.magnitude]
  induction steps generalizing x e with
  | zero => exact ⟨x, rfl⟩
  | succ steps ih =>
    unfold timesTenPow?
    split
    · next hsmall =>
      obtain ⟨ten, hten⟩ := exists_tenPow? hsmall
      obtain ⟨y, hy, -⟩ := Binary64.exists_div? hbound hvalue hx (one_le_tenPow? hten)
      refine ⟨y, ?_⟩
      rw [hten]
      simp [not_le.2 he, hy]
    · next hlarge =>
      split
      · exact ⟨x, rfl⟩
      · rw [if_neg (not_le.2 he)]
        obtain ⟨ten, hten⟩ := exists_tenPow? (le_refl Binary64.maxTenPow)
        obtain ⟨y, hy, hyle⟩ := Binary64.exists_div? hbound hvalue hx (one_le_tenPow? hten)
        have hmax : Binary64.maxTenPow = 308 := rfl
        obtain ⟨z, hz⟩ := ih (x := y) (e := e + Binary64.maxTenPow) (by omega) hyle
        refine ⟨z, ?_⟩
        rw [hten]
        simp [hy, hz]

/-! ## Words and powers of ten -/

/-- A number times no power of ten that the format lacks is multiplied in one step. -/
theorem ofParts?_of_le {negative : Bool} {n k : Nat} (hk : k ≤ Binary64.maxTenPow)
    (h : (timesTen? n k).isSome = true) : ∃ y, ofParts? negative n k = some y := by
  obtain ⟨z, hz⟩ := Option.isSome_iff_exists.1 h
  obtain ⟨x, hx, hz⟩ := Option.bind_eq_some_iff.1 hz
  obtain ⟨y, hy, hz⟩ := Option.bind_eq_some_iff.1 hz
  refine ⟨if negative then z.neg else z, ?_⟩
  unfold ofParts? timesTenPow?
  simp [hx, hk, hy, hz]

/-- A number of seventeen digits with a negative exponent is a double. -/
theorem ofParts?_of_neg {negative : Bool} {n : Nat} {e : Int} (hn : n ≤ 10 ^ 17) (he : e < 0) :
    ∃ y, ofParts? negative n e = some y := by
  have hbound : ofNat? (10 ^ 17) = some ⟨false, 6250000000000000, 4⟩ := by decide +kernel
  have hvalue : Binary64.magnitude ⟨false, 6250000000000000, 4⟩ ≤ (10 ^ 17 : Nat) := by
    norm_num [Binary64.magnitude]
  obtain ⟨x, hx, hle⟩ := Binary64.ofNat?_mono hn hbound
  obtain ⟨y, hy⟩ := exists_timesTenPow?_of_neg 4 he (hle.trans hvalue)
  exact ⟨if negative then y.neg else y, by simp [ofParts?, hx, hy]⟩

/-- The decimal of a double is not too great for the reader. -/
theorem exists_ofParts? (negative : Bool) {d : Decimal} (hpos : 0 < d.digits)
    (hle : d.digits ≤ 10 ^ 17) (hvalue : d.value ≤ greatestDecimal.value) :
    d.exponent ≤ Binary64.maxTenPow ∧ ∃ y, ofParts? negative d.digits d.exponent = some y := by
  obtain ⟨n, e⟩ := d
  rcases Int.lt_or_le e 0 with he | he
  · have hmax : (0 : Int) ≤ Binary64.maxTenPow := Int.natCast_nonneg _
    exact ⟨(he.trans_le hmax).le, ofParts?_of_neg hle he⟩
  · obtain ⟨k, rfl⟩ := Int.eq_ofNat_of_zero_le he
    have hproduct : n * 10 ^ k ≤ greatestDecimal.digits * 10 ^ 292 := by
      have hcast : ((n : ℚ) * 10 ^ (k : Int)) ≤ greatestDecimal.digits * 10 ^ ((292 : Nat) : Int) :=
        hvalue
      rw [zpow_natCast, zpow_natCast] at hcast
      exact_mod_cast hcast
    have hk : k ≤ Binary64.maxTenPow := le_maxTenPow hpos hproduct
    exact ⟨Int.ofNat_le.2 hk, ofParts?_of_le hk (isSome_timesTen? hpos hle hproduct)⟩

/-! ## Results in the format -/

/-- A double that is scaled by powers of ten step by step stays in range. -/
theorem inRange_timesTenPow? (steps : Nat) {x y : Binary64} {e : Int} (hx : x.InRange)
    (h : timesTenPow? steps x e = some y) : y.InRange := by
  induction steps generalizing x e with
  | zero =>
    cases h
    exact hx
  | succ steps ih =>
    unfold timesTenPow? at h
    split at h
    · obtain ⟨ten, hten, h⟩ := Option.bind_eq_some_iff.1 h
      split at h
      · exact Binary64.inRange_mul? h
      · exact Binary64.inRange_div? (one_le_tenPow? hten) h
    · split at h
      · cases h
        exact hx
      · split at h
        · cases h
        · obtain ⟨ten, hten, h⟩ := Option.bind_eq_some_iff.1 h
          obtain ⟨z, hz, h⟩ := Option.bind_eq_some_iff.1 h
          exact ih (Binary64.inRange_div? (one_le_tenPow? hten) hz) h

/-- The double of a literal is in range. -/
theorem inRange_ofParts? {negative : Bool} {n : Nat} {e : Int} {y : Binary64}
    (h : ofParts? negative n e = some y) : y.InRange := by
  obtain ⟨x, hx, h⟩ := Option.bind_eq_some_iff.1 h
  obtain ⟨z, hz, h⟩ := Option.bind_eq_some_iff.1 h
  have hrange := inRange_timesTenPow? 4 (Binary64.inRange_ofNat? hx) hz
  cases h
  cases negative with
  | true => exact hrange.neg
  | false => exact hrange

/-- What a number is read as is in the format. -/
theorem inRange_real? {l : Literal} {x : Binary64} (h : l.real? = some x) : x.InRange := by
  unfold real? at h
  dsimp only at h
  split at h
  · exact inRange_ofParts? h
  · split at h
    · exact inRange_ofParts? h
    · split at h
      · cases h
      · cases h
        exact Binary64.inRange_zero _

/-! ## Gathered digits -/

/-- More digits do not make a number smaller. -/
theorem le_foldl_digits (n : Nat) (ds : List Nat) : n ≤ ds.foldl (fun n d => n * 10 + d) n := by
  induction ds generalizing n with
  | nil => exact le_refl n
  | cons d ds ih => exact le_trans (by omega) (ih (n * 10 + d))

/-- All digits fit if their number does. -/
theorem gather_eq {n : Nat} {ds : List Nat} (h : ds.foldl (fun n d => n * 10 + d) n < wordCount) :
    gather n ds = (ds.foldl (fun n d => n * 10 + d) n, []) := by
  induction ds generalizing n with
  | nil => rfl
  | cons d ds ih =>
    have hlt : n * 10 + d < wordCount := lt_of_le_of_lt (le_foldl_digits _ ds) h
    rw [gather, if_pos hlt]
    exact ih h

/-- All digits before and after the point fit if their number does. -/
theorem gather_append {whole fraction : List Char} {n : Nat}
    (h : Text.ofDigits 10 (digitValues (whole ++ fraction)) = n) (hn : n < wordCount) :
    gather 0 (digitValues whole) = (Text.ofDigits 10 (digitValues whole), []) ∧
      gather (Text.ofDigits 10 (digitValues whole)) (digitValues fraction) = (n, []) := by
  have hfold : (digitValues fraction).foldl (fun n d => n * 10 + d)
      (Text.ofDigits 10 (digitValues whole)) = n := by
    rw [← h, digitValues, digitValues, digitValues, List.map_append]
    exact List.foldl_append.symm
  have hlt := hn
  rw [← hfold] at hlt
  refine ⟨gather_eq (lt_of_le_of_lt (le_foldl_digits _ (digitValues fraction)) hlt), ?_⟩
  rw [gather_eq hlt, hfold]

variable {negative : Bool} {whole fraction : List Char} {n : Nat}

/-- A number with few digits and a point is read from all its digits. -/
theorem real?_of_point (h : Text.ofDigits 10 (digitValues (whole ++ fraction)) = n)
    (hn : n < wordCount) : real? ⟨negative, whole, fraction, none⟩
      = ofParts? negative n (-fraction.length) := by
  obtain ⟨hwhole, hfraction⟩ := gather_append h hn
  have hlength : (digitValues fraction).length = fraction.length := by simp [digitValues]
  simp [real?, hwhole, hfraction, hlength]

/-- A number with few digits and an exponent is read from all its digits, and from the exponent if
it is told from greater ones. -/
theorem real?_of_exponent (h : Text.ofDigits 10 (digitValues (whole ++ fraction)) = n)
    (hn : n < wordCount) {e : Int} (he : e.natAbs < exponentCount) :
    real? ⟨negative, whole, fraction, some (decide (e < 0), Text.digits 10 e.natAbs)⟩
      = ofParts? negative n (e - fraction.length) := by
  obtain ⟨hwhole, hfraction⟩ := gather_append h hn
  have hlength : (digitValues fraction).length = fraction.length := by simp [digitValues]
  have hexponent : (if decide (e < 0) = true then -(fraction.length : Int) - e.natAbs
      else -(fraction.length : Int) + e.natAbs) = e - fraction.length := by
    split
    · next hneg =>
      rw [decide_eq_true_eq] at hneg
      omega
    · next hneg =>
      rw [decide_eq_true_eq] at hneg
      omega
  unfold real?
  simp only [hwhole, hfraction, hlength, ofDigits_digitValues, if_pos he, List.length_nil,
    Nat.cast_zero, Nat.sub_zero, Int.zero_sub]
  rw [hexponent]

/-- Zeros behind the digits multiply their number by powers of ten. -/
theorem ofDigits_append_zeros (ds : List Char) (k : Nat) :
    Text.ofDigits 10 (digitValues (ds ++ List.replicate k '0'))
      = Text.ofDigits 10 (digitValues ds) * 10 ^ k := by
  induction k with
  | zero => simp
  | succ k ih =>
    have hsplit : digitValues (ds ++ List.replicate (k + 1) '0')
        = digitValues (ds ++ List.replicate k '0') ++ [0] := by
      simp [digitValues, List.replicate_succ']
    rw [hsplit, Text.ofDigits_append, ih, Nat.add_zero, Nat.pow_succ, Nat.mul_assoc]

/-- Zeros in front of the digits do not change their number. -/
theorem ofDigits_zeros_append (k : Nat) (ds : List Char) :
    Text.ofDigits 10 (digitValues (List.replicate k '0' ++ ds))
      = Text.ofDigits 10 (digitValues ds) := by
  induction k with
  | zero => rfl
  | succ k ih => exact ih

/-! ## Written doubles -/

/-- The literal that a decimal is written as. -/
def ofDecimal (negative : Bool) (d : Decimal) : Literal :=
  let ds := Text.digits 10 d.digits
  let point := d.exponent + ds.length
  if 0 ≤ d.exponent ∧ point ≤ 16 then
    ⟨negative, ds ++ List.replicate d.exponent.toNat '0', ['0'], none⟩
  else if 0 < point ∧ point ≤ 16 then
    ⟨negative, ds.take point.toNat, ds.drop point.toNat, none⟩
  else if -5 < point ∧ point ≤ 0 then
    ⟨negative, ['0'], List.replicate (-point).toNat '0' ++ ds, none⟩
  else
    ⟨negative, ds.take 1, ds.drop 1,
      some (decide (point - 1 < 0), Text.digits 10 (point - 1).natAbs)⟩

/-- A fraction with digits is written with a point. -/
theorem fractionText_of_ne_nil {ds : List Char} (h : ds ≠ []) : fractionText ds = '.' :: ds := by
  cases ds with
  | nil => exact absurd rfl h
  | cons c cs => rfl

/-- An exponent is written with its sign. -/
theorem exponentText_of_int (e : Int) (ds : List Char) :
    exponentText (some (decide (e < 0), ds)) = 'e' :: (if 0 ≤ e then '+' else '-') :: ds := by
  rcases Int.lt_or_le e 0 with h | h
  · simp [exponentText, h, not_le.2 h]
  · simp [exponentText, h, not_lt.2 h]

/-- The literal of a decimal is its text in positions. -/
theorem text_ofDecimal (negative : Bool) (d : Decimal) :
    (ofDecimal negative d).text
      = (if negative then ['-'] else []) ++ Binary64.positional d := by
  have hne := digits_ne_nil d.digits
  unfold ofDecimal Binary64.positional
  dsimp only
  generalize Text.digits 10 d.digits = ds at hne
  split
  · simp [text, fractionText, exponentText]
  · split
    · next hint hpoint =>
      have hdrop : ds.drop (d.exponent + ds.length).toNat ≠ [] := by
        rw [Ne, List.drop_eq_nil_iff]
        omega
      simp [text, fractionText_of_ne_nil hdrop, exponentText]
    · split
      · have hfraction : List.replicate (-(d.exponent + ds.length)).toNat '0' ++ ds ≠ [] :=
          List.append_ne_nil_of_right_ne_nil _ hne
        simp only [text, fractionText_of_ne_nil hfraction, exponentText]
        simp
      · rw [text, exponentText_of_int]
        generalize d.exponent + ds.length - 1 = e
        cases ds with
        | nil => exact absurd rfl hne
        | cons c cs => cases cs <;> simp [fractionText]

/-- The literal of a decimal is not one of an integer. -/
theorem isInteger_ofDecimal (negative : Bool) (d : Decimal) :
    (ofDecimal negative d).isInteger = false := by
  unfold ofDecimal
  dsimp only
  split
  · rfl
  · split
    · next hint hpoint =>
      have hdrop : (Text.digits 10 d.digits).drop
          (d.exponent + (Text.digits 10 d.digits).length).toNat ≠ [] := by
        rw [Ne, List.drop_eq_nil_iff]
        omega
      simp [isInteger, hdrop]
    · split
      · simp [isInteger, digits_ne_nil]
      · simp [isInteger]

/-- The literal of a decimal above zero is well formed. -/
theorem wellFormed_ofDecimal (negative : Bool) {d : Decimal} (hpos : 0 < d.digits) :
    (ofDecimal negative d).WellFormed := by
  have hdigit := isDigit_digits d.digits
  obtain ⟨c, cs, hc, hcs⟩ : ∃ c cs, c ≠ '0' ∧ Text.digits 10 d.digits = c :: cs := by
    obtain ⟨k, hk, -, cs, hcs⟩ := Text.digits_eq_cons_of_pos (show 1 < 10 by decide) _ hpos
    refine ⟨_, cs, fun h => ?_, hcs⟩
    exact absurd (Nat.digitChar_eq_zero.1 h) hk.ne'
  unfold ofDecimal
  dsimp only
  rw [hcs] at hdigit ⊢
  split
  · refine ⟨by simp, fun x hx => ?_, fun _ h => ?_, fun x hx => ?_, fun _ _ h => by cases h⟩
    · rcases List.mem_append.1 hx with hx | hx
      · exact hdigit x hx
      · rw [List.eq_of_mem_replicate hx]
        rfl
    · exact absurd (List.cons.inj h).1 hc
    · rw [List.mem_singleton.1 hx]
      rfl
  · split
    · next hpoint =>
      obtain ⟨k, hk⟩ : ∃ k, (d.exponent + (c :: cs).length).toNat = k + 1 :=
        Nat.exists_eq_succ_of_ne_zero (by omega)
      rw [hk]
      refine ⟨by simp, fun x hx => ?_, fun _ h => ?_, fun x hx => ?_, fun _ _ h => by cases h⟩
      · exact hdigit x (List.mem_of_mem_take hx)
      · exact absurd (List.cons.inj h).1 hc
      · exact hdigit x (List.mem_of_mem_drop hx)
    · split
      · refine ⟨by simp, fun x hx => ?_, fun _ h => ?_, fun x hx => ?_, fun _ _ h => by cases h⟩
        · rw [List.mem_singleton.1 hx]
          rfl
        · exact (List.cons.inj h).2.symm
        · rcases List.mem_append.1 hx with hx | hx
          · rw [List.eq_of_mem_replicate hx]
            rfl
          · exact hdigit x hx
      · refine ⟨by simp, fun x hx => ?_, fun _ h => ?_, fun x hx => ?_, fun _ _ h => ?_⟩
        · exact hdigit x (List.mem_of_mem_take hx)
        · exact absurd (List.cons.inj h).1 hc
        · exact hdigit x (List.mem_of_mem_drop hx)
        · cases h
          exact ⟨digits_ne_nil _, isDigit_digits _⟩

/-- A number up to a power of ten has at most one digit more than the exponent. -/
theorem length_digits_le {n m : Nat} (hn : 0 < n) (h : n ≤ 10 ^ m) :
    (Text.digits 10 n).length ≤ m + 1 := by
  have hle := (Text.length_digits_bounds hn).1.trans h
  have hexponent := (Nat.pow_le_pow_iff_right (show 1 < 10 by decide)).1 hle
  omega

/-- A decimal is read from its digits and its exponent. Where it is written as a whole number with a
zero behind the point, the reader gathers the zeros too. -/
theorem real?_ofDecimal (negative : Bool) {d : Decimal} (hpos : 0 < d.digits)
    (hle : d.digits ≤ 10 ^ 17) (hlow : -340 ≤ d.exponent)
    (hhigh : d.exponent ≤ Binary64.maxTenPow) :
    (ofDecimal negative d).real? = ofParts? negative d.digits d.exponent ∨
      ∃ word ≤ 10 ^ 17, (ofDecimal negative d).real? = ofParts? negative word (-1) := by
  have hmax : Binary64.maxTenPow = 308 := rfl
  have hwords : 10 ^ 17 < wordCount := by decide
  have hlength := length_digits_le hpos hle
  have hlt := (Text.length_digits_bounds hpos).2
  have hvalue := ofDigits_digitValues d.digits
  have hdigits : d.digits < wordCount := lt_of_le_of_lt hle hwords
  unfold ofDecimal
  dsimp only
  generalize Text.digits 10 d.digits = ds at hlength hlt hvalue
  split
  · next hint =>
    obtain ⟨k, hk⟩ := Int.eq_ofNat_of_zero_le hint.1
    -- the zero behind the point is one more digit to the reader
    have hword : Text.ofDigits 10 (digitValues (ds ++ List.replicate k '0' ++ ['0']))
        = d.digits * 10 ^ (k + 1) := by
      rw [List.append_assoc, ← List.replicate_succ', ofDigits_append_zeros, hvalue]
    have hbound : d.digits * 10 ^ (k + 1) ≤ 10 ^ 17 :=
      calc d.digits * 10 ^ (k + 1) ≤ 10 ^ ds.length * 10 ^ (k + 1) := by gcongr
        _ = 10 ^ (ds.length + (k + 1)) := (Nat.pow_add _ _ _).symm
        _ ≤ 10 ^ 17 := Nat.pow_le_pow_right (by decide) (by omega)
    rw [hk, Int.toNat_natCast]
    exact .inr ⟨_, hbound, real?_of_point hword (lt_of_le_of_lt hbound hwords)⟩
  · refine .inl ?_
    split
    · next hint hpoint =>
      have hscale : -(((ds.drop (d.exponent + ds.length).toNat).length : Nat) : Int)
          = d.exponent := by
        rw [List.length_drop]
        omega
      rw [real?_of_point (by rwa [List.take_append_drop]) hdigits, hscale]
    · split
      · next hpoint =>
        have hword : Text.ofDigits 10 (digitValues (['0'] ++
            (List.replicate (-(d.exponent + ds.length)).toNat '0' ++ ds))) = d.digits :=
          (ofDigits_zeros_append (_ + 1) ds).trans hvalue
        have hscale : -(((List.replicate (-(d.exponent + ds.length)).toNat '0' ++ ds).length
            : Nat) : Int) = d.exponent := by
          rw [List.length_append, List.length_replicate]
          omega
        rw [real?_of_point hword hdigits, hscale]
      · have hcount : exponentCount = 2147483648 := rfl
        have hscale : d.exponent + ds.length - 1 - ((ds.drop 1).length : Nat) = d.exponent := by
          have hne : ds.length ≠ 0 := by
            intro hzero
            rw [hzero] at hlt
            omega
          rw [List.length_drop]
          omega
        rw [real?_of_exponent (by rwa [List.take_append_drop]) hdigits (by omega), hscale]

/-- The literal that a double is written as. -/
def ofDouble (x : Binary64) : Literal :=
  if x.isZero then ⟨x.negative, ['0'], ['0'], none⟩ else ofDecimal x.negative x.shortest

/-- The literal of a double is its text. -/
theorem text_ofDouble (x : Binary64) : (ofDouble x).text = x.text := by
  unfold ofDouble Binary64.text
  split
  · simp [text, fractionText, exponentText]
  · exact text_ofDecimal x.negative x.shortest

/-- The literal of a double is not one of an integer. -/
theorem isInteger_ofDouble (x : Binary64) : (ofDouble x).isInteger = false := by
  unfold ofDouble
  split
  · rfl
  · exact isInteger_ofDecimal x.negative x.shortest

/-- A double that is not zero has a mantissa. -/
theorem mantissa_pos_of_not_isZero {x : Binary64} (h : ¬x.isZero = true) : 0 < x.mantissa := by
  rw [Binary64.isZero, decide_eq_true_eq] at h
  exact Nat.pos_of_ne_zero h

/-- The literal of a double in range is well formed. -/
theorem wellFormed_ofDouble {x : Binary64} (hx : x.InRange) : (ofDouble x).WellFormed := by
  unfold ofDouble
  split
  · refine ⟨by simp, fun c hc => ?_, fun cs h => ?_, fun c hc => ?_, fun _ _ h => by cases h⟩
    · rw [List.mem_singleton.1 hc]
      rfl
    · exact (List.cons.inj h).2.symm
    · rw [List.mem_singleton.1 hc]
      rfl
  · next hzero =>
    have hspec := Binary64.shortest_spec hx (mantissa_pos_of_not_isZero hzero)
    exact wellFormed_ofDecimal x.negative hspec.1

/-- The text of a double is not too great for the reader. -/
theorem exists_real?_ofDouble {x : Binary64} (hx : x.InRange) :
    ∃ y, (ofDouble x).real? = some y := by
  unfold ofDouble
  split
  · rw [real?_of_point (n := 0) rfl (by decide)]
    exact ofParts?_of_neg (Nat.zero_le _) (by decide)
  · next hzero =>
    have hpos := mantissa_pos_of_not_isZero hzero
    obtain ⟨hdigits, hle, -, -⟩ := Binary64.shortest_spec hx hpos
    have hlow := Binary64.le_shortest_exponent hx hpos
    obtain ⟨hhigh, hread⟩ :=
      exists_ofParts? x.negative hdigits hle (Binary64.shortest_value_le hx hpos)
    rcases real?_ofDecimal x.negative hdigits hle hlow hhigh with hreal | ⟨word, hword, hreal⟩
    · rw [hreal]
      exact hread
    · rw [hreal]
      exact ofParts?_of_neg hword (by decide)

end Literal

/-- The double that the text of a double is read as. -/
def Binary64.reread (x : Binary64) : Binary64 := (Literal.ofDouble x).real?.getD x

/-- A double in range is read again as one in range. -/
theorem Binary64.inRange_reread {x : Binary64} (hx : x.InRange) : x.reread.InRange := by
  obtain ⟨y, hy⟩ := Literal.exists_real?_ofDouble hx
  rw [reread, hy]
  exact Literal.inRange_real? hy

/-- The text of a double reads as a double. -/
theorem Literal.toJson?_ofDouble {x : Binary64} (hx : x.InRange) :
    (ofDouble x).toJson? = some (.float x.reread) := by
  obtain ⟨y, hy⟩ := exists_real?_ofDouble hx
  have hinteger := isInteger_ofDouble x
  simp [toJson?, word?, hinteger, hy, Binary64.reread]

end TagCache
