import TagCache.Address

/-!
# Reading back written numbers

The digits of a number are the characters of digit values below the radix, and those values denote
the number (`Text.exists_digits`). So the digits read back (`Text.value?_digits`), and the written
form of an address reads back as the address (`Address.parse?_text`), as does the decimal one
(`Address.parse?_decimal`). What is read at all is a run of digits after at most one plus sign
(`Text.readBelow?_eq_some_iff`).
-/

namespace TagCache

/-! ## Lists of results -/

section
variable {α β : Type} {f : α → Option β} {l : List α}

/-- What is read one by one is read as a list. -/
theorem mapM_eq_some_map {g : α → β} (h : ∀ a ∈ l, f a = some (g a)) :
    l.mapM f = some (l.map g) := by
  induction l with
  | nil => rfl
  | cons a l ih =>
    obtain ⟨ha, hl⟩ := List.forall_mem_cons.1 h
    rw [List.mapM_cons, ha, ih hl]
    rfl

/-- What was written one by one is read back as a list. -/
theorem mapM_map_eq_some {write : β → α} {l : List β} (h : ∀ b ∈ l, f (write b) = some b) :
    (l.map write).mapM f = some l := by
  rw [List.mapM_map]
  exact (mapM_eq_some_map h).trans (congrArg some (List.map_id l))

/-- Where only what was written is read, a list is read exactly if it was written one by one. -/
theorem mapM_eq_some_iff {write : β → α} {P : β → Prop} {bs : List β}
    (h : ∀ a b, f a = some b ↔ P b ∧ a = write b) :
    l.mapM f = some bs ↔ (∀ b ∈ bs, P b) ∧ l = bs.map write := by
  constructor
  · intro hl
    induction l generalizing bs with
    | nil =>
      cases hl
      simp
    | cons a l ih =>
      rw [List.mapM_cons] at hl
      obtain ⟨b, hb, hl⟩ := Option.bind_eq_some_iff.1 hl
      obtain ⟨rest, hrest, hl⟩ := Option.bind_eq_some_iff.1 hl
      cases hl
      obtain ⟨hP, rfl⟩ := (h a b).1 hb
      obtain ⟨hPs, rfl⟩ := ih hrest
      exact ⟨List.forall_mem_cons.2 ⟨hP, hPs⟩, rfl⟩
  · rintro ⟨hP, rfl⟩
    exact mapM_map_eq_some fun b hb => (h _ b).2 ⟨hP b hb, rfl⟩

end

/-! ## Digits -/

namespace Text

/-- One digit more multiplies a number by the radix and adds the digit. -/
theorem ofDigits_append (radix : Nat) (ds : List Nat) (d : Nat) :
    ofDigits radix (ds ++ [d]) = ofDigits radix ds * radix + d := by
  simp [ofDigits]

/-- A written number is a list of digit values in characters. -/
theorem exists_digits {radix : Nat} (hr : 1 < radix) (n : Nat) :
    ∃ ds : List Nat, digits radix n = ds.map Nat.digitChar ∧ (∀ d ∈ ds, d < radix) ∧
      ds ≠ [] ∧ ofDigits radix ds = n := by
  induction n using Nat.strongRecOn with
  | ind n ih =>
    by_cases hn : n < radix
    · refine ⟨[n], Nat.toDigits_of_lt_base hn, by simpa using hn, by simp, ?_⟩
      simp [ofDigits]
    · have hn := Nat.not_lt.1 hn
      obtain ⟨ds, hds, hlt, -, hval⟩ := ih (n / radix) (Nat.div_lt_self (by omega) hr)
      refine ⟨ds ++ [n % radix], ?_, fun d hd => ?_, by simp, ?_⟩
      · rw [List.map_append, ← hds]
        exact Nat.toDigits_of_base_le hr hn
      · rcases List.mem_append.1 hd with hd | hd
        · exact hlt d hd
        · rw [List.mem_singleton.1 hd]
          exact Nat.mod_lt _ (by omega)
      · rw [ofDigits_append, hval]
        exact Nat.div_add_mod' n radix

/-- The decimal text of a number is made of its digits. -/
theorem toList_decimal (n : Nat) : (decimal n).toList = digits 10 n := by
  simp [decimal]

/-- The digits of a number are characters for numbers below the radix. -/
theorem mem_digits {radix n : Nat} {c : Char} (hr : 1 < radix) (hc : c ∈ digits radix n) :
    ∃ d < radix, d.digitChar = c := by
  obtain ⟨ds, hds, hlt, -, -⟩ := exists_digits hr n
  obtain ⟨d, hd, rfl⟩ := List.mem_map.1 (hds ▸ hc)
  exact ⟨d, hlt d hd, rfl⟩

/-- The character of a digit value reads as that value. -/
theorem digit?_digitChar {radix d : Nat} (hr : radix ≤ 16) (hd : d < radix) :
    digit? radix d.digitChar = some d := by
  have key : ∀ d < 16, digit? 16 (Nat.digitChar d) = some d := by decide
  have h := key d (by omega)
  unfold digit? at h ⊢
  simp only [Option.filter_eq_some_iff] at h ⊢
  exact ⟨h.1, by simpa using hd⟩

/-- The digits of a number read back. -/
theorem value?_digits {radix : Nat} (hr : 1 < radix) (hr' : radix ≤ 16) (n : Nat) :
    value? radix (digits radix n) = some n := by
  obtain ⟨ds, hds, hlt, hne, hval⟩ := exists_digits hr n
  have hmap : (ds.map Nat.digitChar).mapM (digit? radix) = some ds :=
    mapM_map_eq_some fun d hd => digit?_digitChar hr' (hlt d hd)
  rw [hds]
  cases ds with
  | nil => exact absurd rfl hne
  | cons d ds =>
    unfold value?
    rw [List.map_cons] at hmap ⊢
    simp only [hmap, Option.map_some, hval]

/-- The first character of a written number is that of a digit value. -/
theorem digits_eq_cons {radix : Nat} (hr : 1 < radix) (n : Nat) :
    ∃ d < radix, ∃ rest, digits radix n = Nat.digitChar d :: rest := by
  obtain ⟨ds, hds, hlt, hne, -⟩ := exists_digits hr n
  cases ds with
  | nil => exact absurd rfl hne
  | cons d ds => exact ⟨d, hlt d (by simp), ds.map Nat.digitChar, hds⟩

/-- No needless zero stands in front of a written number. -/
theorem digits_eq_cons_of_pos {radix : Nat} (hr : 1 < radix) (n : Nat) (hn : 0 < n) :
    ∃ d, 0 < d ∧ d < radix ∧ ∃ rest, digits radix n = Nat.digitChar d :: rest := by
  induction n using Nat.strongRecOn with
  | ind n ih =>
    by_cases h : n < radix
    · exact ⟨n, hn, h, [], Nat.toDigits_of_lt_base h⟩
    · have h := Nat.not_lt.1 h
      obtain ⟨d, hpos, hlt, rest, hd⟩ :=
        ih (n / radix) (Nat.div_lt_self hn hr) (Nat.div_pos h (by omega))
      refine ⟨d, hpos, hlt, rest ++ [Nat.digitChar (n % radix)], ?_⟩
      have hsplit : digits radix n = digits radix (n / radix) ++ [Nat.digitChar (n % radix)] :=
        Nat.toDigits_of_base_le hr h
      rw [hsplit, hd, List.cons_append]

/-- The digits of a number below the bound read back, since no sign stands in front of them. -/
theorem readBelow?_digits {radix bound n : Nat} (hr : 1 < radix) (hr' : radix ≤ 16)
    (hn : n < bound) : readBelow? radix bound (digits radix n) = some n := by
  obtain ⟨d, hd, rest, hds⟩ := digits_eq_cons hr n
  have hplus : Nat.digitChar d ≠ '+' := by
    have key : ∀ d < 16, Nat.digitChar d ≠ '+' := by decide
    exact key d (by omega)
  have hval := value?_digits hr hr' n
  unfold readBelow?
  rw [hds] at hval ⊢
  split
  · next h => exact absurd (List.cons.inj h).1 hplus
  · simp only [hval]
    simpa using hn

/-- Below eleven, where letters are no digits, a character with a digit value is the one that is
written for the value. -/
theorem digit?_eq_some_iff {radix d : Nat} {c : Char} (hr : radix ≤ 10) :
    digit? radix c = some d ↔ d < radix ∧ c = d.digitChar := by
  constructor
  · intro h
    have hvalue := (Option.filter_eq_some_iff.1 h).1
    have hd : d < radix := by simpa using (Option.filter_eq_some_iff.1 h).2
    refine ⟨hd, ?_⟩
    split at hvalue
    · next hc =>
      cases hvalue
      have hle : '0'.toNat ≤ c.toNat := hc.1
      apply Char.toNat_inj.1
      rw [Nat.toNat_digitChar_of_lt_ten (by omega)]
      exact (Nat.add_sub_cancel' hle).symm
    · -- The letters have values from ten on.
      split at hvalue
      · cases hvalue
        omega
      · split at hvalue
        · cases hvalue
          omega
        · cases hvalue
  · rintro ⟨hd, rfl⟩
    exact digit?_digitChar (by omega) hd

/-- A run of decimal digits is read as the number that the digits denote. -/
theorem value?_ten_eq_some_iff {cs : List Char} {n : Nat} : value? 10 cs = some n ↔
    ∃ ds : List Nat, ds ≠ [] ∧ (∀ d ∈ ds, d < 10) ∧ cs = ds.map Nat.digitChar ∧
      ofDigits 10 ds = n := by
  have hrun (ds : List Nat) : cs.mapM (digit? 10) = some ds ↔
      (∀ d ∈ ds, d < 10) ∧ cs = ds.map Nat.digitChar :=
    mapM_eq_some_iff fun c d => digit?_eq_some_iff (by decide)
  cases cs with
  | nil =>
    constructor
    · intro h
      cases h
    · rintro ⟨ds, hne, -, hcs, -⟩
      exact absurd (List.map_eq_nil_iff.1 hcs.symm) hne
  | cons c cs =>
    rw [value?.eq_2 _ _ (List.cons_ne_nil c cs), Option.map_eq_some_iff]
    constructor
    · rintro ⟨ds, hds, hval⟩
      obtain ⟨hlt, hcs⟩ := (hrun ds).1 hds
      refine ⟨ds, fun hds => ?_, hlt, hcs, hval⟩
      rw [hds] at hcs
      cases hcs
    · rintro ⟨ds, -, hlt, hcs, hval⟩
      exact ⟨ds, (hrun ds).2 ⟨hlt, hcs⟩, hval⟩

/-- A plus sign is no digit. -/
theorem value?_plus (radix : Nat) (cs : List Char) : value? radix ('+' :: cs) = none := by
  rw [value?.eq_2 _ _ (List.cons_ne_nil '+' cs), List.mapM_cons]
  rfl

/-- A number is read with a plus sign in front of its digits or without one. -/
theorem readBelow?_eq_some_iff {radix bound n : Nat} {cs : List Char} :
    readBelow? radix bound cs = some n ↔
      n < bound ∧ ∃ run, (cs = run ∨ cs = '+' :: run) ∧ value? radix run = some n := by
  unfold readBelow?
  rw [Option.filter_eq_some_iff, decide_eq_true_iff, and_comm]
  refine and_congr_right fun _ => ⟨fun h => ?_, ?_⟩
  · split at h
    · exact ⟨_, .inr rfl, h⟩
    · exact ⟨_, .inl rfl, h⟩
  · rintro ⟨run, rfl | rfl, h⟩
    · split
      · cases (value?_plus _ _).symm.trans h
      · exact h
    · exact h

/-! ## Blanks -/

/-- A text without a blank is not trimmed. -/
theorem trim_eq_self {cs : List Char} (h : ∀ c ∈ cs, isBlank c = false) : trim cs = cs := by
  have hdrop : ∀ cs : List Char, (∀ c ∈ cs, isBlank c = false) → cs.dropWhile isBlank = cs := by
    intro cs h
    cases cs with
    | nil => rfl
    | cons c cs => simp [h c (by simp)]
  unfold trim trimEnd trimStart
  rw [hdrop cs h, hdrop cs.reverse fun c hc => h c (List.mem_reverse.1 hc), List.reverse_reverse]

/-- No digit is blank. -/
theorem isBlank_digitChar {d : Nat} (hd : d < 16) : isBlank (Nat.digitChar d) = false := by
  have key : ∀ d < 16, isBlank (Nat.digitChar d) = false := by decide
  exact key d hd

end Text

namespace Address

/-- The text of an address is its hexadecimal digits behind a prefix. -/
theorem toList_text (a : Address) : a.text.toList = '0' :: 'x' :: Text.digits 16 a.toNat := by
  simp [text, Text.hex]

/-- The written form of an address reads back. -/
@[simp] theorem parse?_text (a : Address) : parse? a.text = some a := by
  have hblank : ∀ c ∈ a.text.toList, Text.isBlank c = false := by
    rw [toList_text]
    intro c hc
    rcases List.mem_cons.1 hc with rfl | hc
    · decide
    rcases List.mem_cons.1 hc with rfl | hc
    · decide
    obtain ⟨d, hd, rfl⟩ := Text.mem_digits (by decide) hc
    exact Text.isBlank_digitChar hd
  unfold parse?
  rw [Text.trim_eq_self hblank, toList_text]
  simp only
  have hlt : a.toNat < count := a.toNat_lt
  rw [Text.readBelow?_digits (by decide) (by decide) hlt]
  simp

/-- The decimal form of an address reads back, since no marker for another radix is in it. -/
theorem parse?_decimal (a : Address) : parse? (Text.decimal a.toNat) = some a := by
  have hblank : ∀ c ∈ Text.digits 10 a.toNat, Text.isBlank c = false := by
    intro c hc
    obtain ⟨d, hd, rfl⟩ := Text.mem_digits (by decide) hc
    exact Text.isBlank_digitChar (by omega)
  have hmarker : ∀ c ∈ Text.digits 10 a.toNat, c ≠ 'x' ∧ c ≠ 'X' := by
    have key : ∀ d < 10, Nat.digitChar d ≠ 'x' ∧ Nat.digitChar d ≠ 'X' := by decide
    intro c hc
    obtain ⟨d, hd, rfl⟩ := Text.mem_digits (by decide) hc
    exact key d hd
  have hread : Text.readBelow? 10 count (Text.digits 10 a.toNat) = some a.toNat :=
    Text.readBelow?_digits (by decide) (by decide) a.toNat_lt
  unfold parse?
  rw [Text.toList_decimal, Text.trim_eq_self hblank]
  split
  · next h => exact absurd rfl (hmarker 'x' (by simp [h])).1
  · next h => exact absurd rfl (hmarker 'X' (by simp [h])).2
  · simp [hread]

/-- Different addresses are written differently. -/
theorem text_injective {a b : Address} (h : a.text = b.text) : a = b := by
  have := congrArg parse? h
  simpa using this

end Address

end TagCache
