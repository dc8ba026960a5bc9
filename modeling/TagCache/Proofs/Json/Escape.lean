import TagCache.Json.Escape

/-!
# Reading back written strings

The written form of a text has no closing quote of its own, so the scanner stops at the quote that
ends it (`Json.scanQuoted?_escape`), and what it scanned stands for the text
(`Json.unescape?_escape`).
-/

namespace TagCache.Json

/-- A control character is written with the two digits of its number. -/
theorem hexDigits4_of_lt {n : Nat} (hn : n < 0x20) :
    hexDigits4 n = ['0', '0', Nat.digitChar (n / 16), Nat.digitChar (n % 16)] := by
  have key : ∀ n < 0x20,
      hexDigits4 n = ['0', '0', Nat.digitChar (n / 16), Nat.digitChar (n % 16)] := by decide
  exact key n hn

/-- The four digits of a control character are read as its code. -/
theorem hex4?_of_lt {n : Nat} (hn : n < 0x20) :
    hex4? '0' '0' (Nat.digitChar (n / 16)) (Nat.digitChar (n % 16)) = some n := by
  have key : ∀ n < 0x20,
      hex4? '0' '0' (Nat.digitChar (n / 16)) (Nat.digitChar (n % 16)) = some n := by decide
  exact key n hn

/-- The three ways to write a character: by a letter, by its number, as itself. -/
theorem escapeChar_cases (c : Char) :
    (∃ e, e ≠ 'u' ∧ shortEscape? e = some c ∧ escapeChar c = ['\\', e]) ∨
    (c.toNat < 0x20 ∧ escapeChar c = '\\' :: 'u' :: hexDigits4 c.toNat) ∨
    (¬c.toNat < 0x20 ∧ c ≠ '"' ∧ c ≠ '\\' ∧ escapeChar c = [c]) := by
  unfold escapeChar
  split
  case h_8 hq hb _ _ _ _ _ =>
    split
    · next h => exact .inr (.inl ⟨h, rfl⟩)
    · next h => exact .inr (.inr ⟨h, hq, hb, rfl⟩)
  all_goals exact .inl ⟨_, by decide, by decide, rfl⟩

/-- The scanner passes over a written character. -/
theorem scanQuoted?_escapeChar (c : Char) (cs : List Char) :
    scanQuoted? (escapeChar c ++ cs)
      = (scanQuoted? cs).map fun r => (escapeChar c ++ r.1, r.2) := by
  rcases escapeChar_cases c with ⟨e, hu, he, h⟩ | ⟨hlt, h⟩ | ⟨hlt, hq, hb, h⟩
  · rw [h, List.cons_append, List.singleton_append, scanQuoted?]
    · simp [he]
    · intro _ _ _ _ _ hc
      exact absurd hc hu
  · rw [h, hexDigits4_of_lt hlt]
    simp only [List.cons_append, List.nil_append]
    rw [scanQuoted?, hex4?_of_lt hlt]
    simp
  · rw [h, List.singleton_append, scanQuoted?]
    · simp [hlt]
    all_goals simp_all

/-- A written character stands for itself. -/
theorem unescape?_escapeChar (c : Char) (cs : List Char) :
    unescape? (escapeChar c ++ cs) = (unescape? cs).map (c :: ·) := by
  rcases escapeChar_cases c with ⟨e, hu, he, h⟩ | ⟨hlt, h⟩ | ⟨hlt, hq, hb, h⟩
  · rw [h, List.cons_append, List.singleton_append, unescape?]
    · simp [he]
    · intro _ _ _ _ _ hc
      exact absurd hc hu
  · have hhigh : isHighHalf c.toNat = false := by simp [isHighHalf]; omega
    have hlow : isLowHalf c.toNat = false := by simp [isLowHalf]; omega
    rw [h, hexDigits4_of_lt hlt]
    simp only [List.cons_append, List.nil_append]
    rw [unescape?, hex4?_of_lt hlt]
    simp [hhigh, hlow]
  · rw [h, List.singleton_append, unescape?]
    all_goals simp_all

/-- The scanner finds the end of a written text. -/
theorem scanQuoted?_escape (cs rest : List Char) :
    scanQuoted? (escape cs ++ '"' :: rest) = some (escape cs, rest) := by
  induction cs with
  | nil => rfl
  | cons c cs ih =>
    have hcons : escape (c :: cs) = escapeChar c ++ escape cs := rfl
    rw [hcons, List.append_assoc, scanQuoted?_escapeChar, ih]
    rfl

/-- A written text stands for the text. -/
theorem unescape?_escape (cs : List Char) : unescape? (escape cs) = some cs := by
  induction cs with
  | nil => rfl
  | cons c cs ih =>
    have hcons : escape (c :: cs) = escapeChar c ++ escape cs := rfl
    rw [hcons, unescape?_escapeChar, ih]
    rfl

end TagCache.Json
