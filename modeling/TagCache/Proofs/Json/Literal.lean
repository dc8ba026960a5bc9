import TagCache.Json.Literal
import TagCache.Json.Printer
import TagCache.Proofs.Text.Numeral

/-!
# Reading back written numbers

The text of a literal scans as the literal (`Literal.scan?_text`), if its parts are runs of digits
with no needless zero in front (`Literal.WellFormed`) and the text that follows cannot go on with
the number (`Literal.Ends`). The decimal digits of an integer make such a literal, and it has the
integer as its value (`Literal.wellFormed_ofInt`, `Literal.toJson?_ofInt`).
-/

namespace TagCache

namespace Literal

/-! ## Runs of digits -/

/-- A text that does not go on with a run of digits in front of it. -/
def Stops (rest : List Char) : Prop := ∀ c cs, rest = c :: cs → isDigit c = false

/-- A text that does not go on with a number in front of it. -/
def Ends (rest : List Char) : Prop :=
  ∀ c cs, rest = c :: cs → isDigit c = false ∧ c ≠ '.' ∧ c ≠ 'e' ∧ c ≠ 'E'

/-- A character that is no digit stops a run of digits. -/
theorem Stops.cons {c : Char} (cs : List Char) (h : isDigit c = false) : Stops (c :: cs) := by
  intro c' cs' heq
  cases heq
  exact h

/-- The end of the text ends a number. -/
theorem Ends.nil : Ends [] := by intro c cs h; cases h

/-- A character that no number goes on with ends it. -/
theorem Ends.cons {c : Char} {cs : List Char} (hd : isDigit c = false) (hp : c ≠ '.')
    (he : c ≠ 'e') (hE : c ≠ 'E') : Ends (c :: cs) := by
  intro c' cs' h
  cases h
  exact ⟨hd, hp, he, hE⟩

/-- What ends a number stops a run of digits. -/
theorem Ends.stops {rest : List Char} (h : Ends rest) : Stops rest :=
  fun c cs heq => (h c cs heq).1

/-- The character for a decimal digit is one. -/
theorem isDigit_digitChar {d : Nat} (hd : d < 10) : isDigit (Nat.digitChar d) = true := by
  have key : ∀ d < 10, isDigit (Nat.digitChar d) = true := by decide
  exact key d hd

/-- The digits of a number are digits as characters. -/
theorem isDigit_digits (n : Nat) : ∀ c ∈ Text.digits 10 n, isDigit c = true := by
  obtain ⟨ds, hds, hlt, -, -⟩ := Text.exists_digits (show 1 < 10 by decide) n
  rw [hds]
  intro c hc
  obtain ⟨d, hd, rfl⟩ := List.mem_map.1 hc
  exact isDigit_digitChar (hlt d hd)

/-- Every number has a digit. -/
theorem digits_ne_nil (n : Nat) : Text.digits 10 n ≠ [] := by
  obtain ⟨d, -, ds, hds⟩ := Text.digits_eq_cons (show 1 < 10 by decide) n
  rw [hds]
  exact List.cons_ne_nil _ _

/-- A written number starts with a zero only if it is nothing else. -/
theorem eq_nil_of_digits_eq_cons {n : Nat} {cs : List Char} (h : Text.digits 10 n = '0' :: cs) :
    cs = [] := by
  rcases Nat.eq_zero_or_pos n with rfl | hn
  · exact (List.cons.inj h).2.symm
  · obtain ⟨d, hpos, -, _, hd⟩ := Text.digits_eq_cons_of_pos (show 1 < 10 by decide) n hn
    rw [h] at hd
    have hzero : d = 0 := Nat.digitChar_eq_zero.1 (List.cons.inj hd).1.symm
    omega

/-- A run of digits is taken as a whole. -/
theorem scanDigits?_append {ds rest : List Char} (hne : ds ≠ [])
    (hds : ∀ c ∈ ds, isDigit c = true) (h : Stops rest) :
    scanDigits? (ds ++ rest) = some (ds, rest) := by
  have htake : rest.takeWhile isDigit = [] := by
    cases rest with
    | nil => rfl
    | cons c cs => simp [h c cs rfl]
  have hdrop : rest.dropWhile isDigit = rest := by
    cases rest with
    | nil => rfl
    | cons c cs => simp [h c cs rfl]
  unfold scanDigits?
  rw [List.takeWhile_append_of_pos hds, List.dropWhile_append_of_pos hds, htake, hdrop,
    List.append_nil]
  cases ds with
  | nil => exact absurd rfl hne
  | cons c cs => rfl

/-- A run of digits without a needless zero in front is a whole part. -/
theorem scanWhole?_append {ds rest : List Char} (hne : ds ≠ [])
    (hds : ∀ c ∈ ds, isDigit c = true) (hzero : ∀ cs, ds = '0' :: cs → cs = []) (h : Stops rest) :
    scanWhole? (ds ++ rest) = some (ds, rest) := by
  unfold scanWhole?
  rw [scanDigits?_append hne hds h]
  split
  · next c cs rest' heq =>
    cases hzero (c :: cs) (Prod.mk.inj (Option.some.inj heq)).1
  · rfl

/-! ## Literals -/

/-- The fraction with its point, where there is one. -/
def fractionText : List Char → List Char
  | [] => []
  | ds => '.' :: ds

/-- The exponent with its sign, where there is one. -/
def exponentText : Option (Bool × List Char) → List Char
  | none => []
  | some (below, ds) => 'e' :: (if below then '-' else '+') :: ds

/-- The text of a literal. -/
def text (l : Literal) : List Char :=
  (if l.negative then ['-'] else []) ++ l.whole ++ fractionText l.fraction
    ++ exponentText l.exponent

/-- The parts of the literal are runs of digits, the whole part with no needless zero in front. -/
structure WellFormed (l : Literal) : Prop where
  whole_ne_nil : l.whole ≠ []
  isDigit_whole : ∀ c ∈ l.whole, isDigit c = true
  eq_nil_of_whole : ∀ cs, l.whole = '0' :: cs → cs = []
  isDigit_fraction : ∀ c ∈ l.fraction, isDigit c = true
  exponent : ∀ below ds, l.exponent = some (below, ds) → ds ≠ [] ∧ ∀ c ∈ ds, isDigit c = true

/-- The written fraction of a number is scanned as its digits. -/
theorem scanFraction?_append {ds rest : List Char} (hds : ∀ c ∈ ds, isDigit c = true)
    (h : Stops rest) (hpoint : ∀ cs, rest ≠ '.' :: cs) :
    scanFraction? (fractionText ds ++ rest) = some (ds, rest) := by
  cases ds with
  | nil =>
    show scanFraction? rest = _
    unfold scanFraction?
    split
    · next cs => exact absurd rfl (hpoint cs)
    · rfl
  | cons c cs => exact scanDigits?_append (List.cons_ne_nil c cs) hds h

/-- The written exponent of a number is scanned as its sign and digits. -/
theorem scanExponent?_append {exponent : Option (Bool × List Char)} {rest : List Char}
    (hds : ∀ below ds, exponent = some (below, ds) → ds ≠ [] ∧ ∀ c ∈ ds, isDigit c = true)
    (h : Ends rest) : scanExponent? (exponentText exponent ++ rest) = some (exponent, rest) := by
  cases exponent with
  | none =>
    show scanExponent? rest = _
    unfold scanExponent?
    split
    · next c cs => rw [if_neg (not_or.2 (h c cs rfl).2.2)]
    · rfl
  | some e =>
    obtain ⟨below, ds⟩ := e
    obtain ⟨hne, hall⟩ := hds below ds rfl
    cases below <;>
      simp [exponentText, scanExponent?, scanSign, scanDigits?_append hne hall h.stops]

/-- An exponent does not go on with a fraction in front of it. -/
theorem stops_exponentText (exponent : Option (Bool × List Char)) {rest : List Char}
    (h : Ends rest) :
    Stops (exponentText exponent ++ rest) ∧ ∀ cs, exponentText exponent ++ rest ≠ '.' :: cs := by
  cases exponent with
  | none => exact ⟨h.stops, fun cs heq => (h '.' cs heq).2.1 rfl⟩
  | some e => exact ⟨.cons _ (by decide), fun cs heq => absurd (List.cons.inj heq).1 (by decide)⟩

/-- A fraction does not go on with digits in front of it. -/
theorem stops_fractionText (fraction : List Char) {rest : List Char} (h : Stops rest) :
    Stops (fractionText fraction ++ rest) := by
  cases fraction with
  | nil => exact h
  | cons c cs => exact .cons _ (by decide)

/-- Only a literal with a minus has one in front. -/
theorem scanMinus_text {l : Literal} (hl : l.WellFormed) (rest : List Char) :
    scanMinus (l.text ++ rest) = (l.negative, l.whole ++ (fractionText l.fraction
      ++ (exponentText l.exponent ++ rest))) := by
  obtain ⟨negative, whole, fraction, exponent⟩ := l
  unfold text
  cases negative with
  | true => simp [scanMinus]
  | false =>
    cases whole with
    | nil => exact absurd rfl hl.whole_ne_nil
    | cons c cs =>
      have hdigit : isDigit c = true := hl.isDigit_whole c List.mem_cons_self
      have hminus : c ≠ '-' := by
        rintro rfl
        cases hdigit
      simp [scanMinus, hminus]

/-- The text of a well-formed literal scans as the literal. -/
theorem scan?_text {l : Literal} (hl : l.WellFormed) {rest : List Char} (h : Ends rest) :
    scan? (l.text ++ rest) = some (l, rest) := by
  obtain ⟨hstops, hpoint⟩ := stops_exponentText l.exponent h
  unfold scan?
  simp only [scanMinus_text hl, scanWhole?_append hl.whole_ne_nil hl.isDigit_whole
    hl.eq_nil_of_whole (stops_fractionText _ hstops),
    scanFraction?_append hl.isDigit_fraction hstops hpoint, scanExponent?_append hl.exponent h,
    Option.bind_eq_bind, Option.bind_some]
  rfl

/-- A number starts with a digit or a minus. -/
theorem text_eq_cons {l : Literal} (hl : l.WellFormed) :
    ∃ c cs, l.text = c :: cs ∧ (isDigit c = true ∨ c = '-') := by
  obtain ⟨negative, whole, fraction, exponent⟩ := l
  cases negative with
  | true => exact ⟨'-', _, rfl, .inr rfl⟩
  | false =>
    cases whole with
    | nil => exact absurd rfl hl.whole_ne_nil
    | cons c cs => exact ⟨c, _, rfl, .inl (hl.isDigit_whole c List.mem_cons_self)⟩

/-! ## Integers -/

/-- The literal of a natural number, with or without a minus. -/
def ofNat (negative : Bool) (n : Nat) : Literal := ⟨negative, Text.digits 10 n, [], none⟩

/-- The literal of an integer. -/
def ofInt : Int → Literal
  | .ofNat n => ofNat false n
  | .negSucc n => ofNat true (n + 1)

/-- The literal of a natural number is well formed. -/
theorem wellFormed_ofNat (negative : Bool) (n : Nat) : (ofNat negative n).WellFormed where
  whole_ne_nil := digits_ne_nil n
  isDigit_whole := isDigit_digits n
  eq_nil_of_whole _ h := eq_nil_of_digits_eq_cons h
  isDigit_fraction _ h := absurd h List.not_mem_nil
  exponent _ _ h := by cases h

/-- The literal of an integer is well formed. -/
theorem wellFormed_ofInt (i : Int) : (ofInt i).WellFormed := by
  cases i with
  | ofNat n => exact wellFormed_ofNat false n
  | negSucc n => exact wellFormed_ofNat true (n + 1)

/-- The literal of an integer is its text. -/
theorem text_ofInt (i : Int) : (ofInt i).text = Json.integerText i := by
  cases i <;> simp [ofInt, ofNat, text, fractionText, exponentText, Json.integerText]

/-- The digits of a number denote it. -/
theorem ofDigits_digitValues (n : Nat) :
    Text.ofDigits 10 (digitValues (Text.digits 10 n)) = n := by
  obtain ⟨ds, hds, hlt, -, hval⟩ := Text.exists_digits (show 1 < 10 by decide) n
  have hmap : (Text.digits 10 n).map (fun c => c.toNat - '0'.toNat) = ds := by
    rw [hds, List.map_map]
    refine (List.map_congr_left fun d hd => ?_).trans (List.map_id ds)
    exact Nat.toNat_digitChar_sub_48_of_lt_ten (hlt d hd)
  unfold digitValues
  rw [hmap, hval]

/-- The whole part of the literal of a natural number has its value. -/
theorem wholeValue_ofNat (negative : Bool) (n : Nat) : (ofNat negative n).wholeValue = n :=
  ofDigits_digitValues n

/-- The literal of a number of 64 bits is the word. -/
theorem word?_ofNat {n : Nat} (hn : n < wordCount) : (ofNat false n).word? = some n := by
  unfold word?
  rw [wholeValue_ofNat]
  simp [isInteger, ofNat, hn]

/-- The literal of an integer of 64 bits has the integer as its value. -/
theorem toJson?_ofInt {i : Int} (hlow : -(signedCount : Int) ≤ i) (hhigh : i < wordCount) :
    (ofInt i).toJson? = some (.int i) := by
  cases i with
  | ofNat n =>
    have hn : n < wordCount := by simpa using hhigh
    show (ofNat false n).toJson? = _
    unfold toJson?
    rw [word?_ofNat hn]
    rfl
  | negSucc n =>
    have hn : n + 1 ≤ signedCount := by omega
    have hword : (ofNat true (n + 1)).word? = none := by simp [word?, ofNat]
    show (ofNat true (n + 1)).toJson? = _
    unfold toJson?
    rw [hword, wholeValue_ofNat]
    simp [isInteger, ofNat, hn, Int.negSucc_eq]

end Literal

end TagCache
