import Mathlib
import TagCache.Project.Listing
import TagCache.Proofs.Text.Digits

/-!
# The segment that a text asks for

A text has one of three forms, or it is a name. It is the word for the cursor in letters of either
case (`Selector.SpellsCurrent`), else it writes a handle after a hash sign
(`Selector.SpellsHandle`), else it is an address. So `Segment.Wanted` says which segments a text
asks for without a selector, and `Segment.wanted_iff` that the selector of the text fits just
these. What a command selects by a text is the first segment that the text asks for, or it fails
(`segment_by_text`).
-/

namespace TagCache

namespace Text

/-- A character with a lower-case form is that letter or its capital. -/
theorem eq_or_eq_toUpper_of_toLower {c letter : Char} (h : c.toLower = letter) :
    c = letter ∨ c = letter.toUpper := by
  subst h
  by_cases hc : c.isUpper
  · rw [Char.toUpper_toLower_eq_toUpper,
      Char.toUpper_eq_of_not_isLower (Char.not_isLower_of_isUpper hc)]
    exact .inr rfl
  · exact .inl (Char.toLower_eq_of_not_isUpper hc).symm

/-- The letters of a word stand in either case exactly if they are the word in lower case. -/
theorem map_toLower_eq_iff {cs word : List Char}
    (hword : ∀ letter ∈ word, letter.toLower = letter) :
    cs.map Char.toLower = word ↔
      List.Forall₂ (fun c letter => c = letter ∨ c = letter.toUpper) cs word := by
  constructor
  · rintro rfl
    exact List.forall₂_map_right_iff.2
      (List.forall₂_same.2 fun c _ => eq_or_eq_toUpper_of_toLower rfl)
  · intro h
    induction h with
    | nil => rfl
    | @cons c letter cs word hc _ ih =>
      obtain ⟨hletter, hword⟩ := List.forall_mem_cons.1 hword
      have hlower : c.toLower = letter := by
        rcases hc with rfl | rfl
        · exact hletter
        · rw [Char.toLower_toUpper_eq_toLower, hletter]
      rw [List.map_cons, hlower, ih hword]

end Text

namespace Selector

variable {text : String}

/-! ## The forms of a text -/

/-- A text is the word for the cursor, each letter in either case. -/
def SpellsCurrent (text : String) : Prop :=
  List.Forall₂ (fun c letter => c = letter ∨ c = letter.toUpper) text.toList "current".toList

/-- A text writes a handle: a hash sign, at most one plus sign, and decimal digits. -/
def SpellsHandle (text : String) (h : UInt32) : Prop :=
  ∃ digits, (text.toList = '#' :: digits ∨ text.toList = '#' :: '+' :: digits) ∧
    Text.SpellsDecimal digits h.toNat

/-- A text has a form in which it is not a name. -/
def HasForm (text : String) : Prop :=
  SpellsCurrent text ∨ (∃ h, SpellsHandle text h) ∨ ∃ a, Address.parse? text = some a

/-- The texts for the current segment are the spellings of its word. -/
theorem isCurrent_iff : isCurrent text = true ↔ SpellsCurrent text := by
  unfold isCurrent
  rw [decide_eq_true_iff]
  exact Text.map_toLower_eq_iff (by simp)

/-- A handle is a decimal number of 32 bits, with or without a sign in front. -/
theorem readBelow?_handleCount_eq_some_iff {cs : List Char} {h : UInt32} :
    (Text.readBelow? 10 handleCount cs).map UInt32.ofNat = some h ↔
      ∃ digits, (cs = digits ∨ cs = '+' :: digits) ∧ Text.SpellsDecimal digits h.toNat := by
  rw [Option.map_eq_some_iff]
  constructor
  · rintro ⟨n, hread, rfl⟩
    obtain ⟨hn, digits, hcs, hvalue⟩ := Text.readBelow?_eq_some_iff.1 hread
    rw [UInt32.toNat_ofNat_of_lt' hn]
    exact ⟨digits, hcs, Text.value?_eq_some_iff_spells.1 hvalue⟩
  · rintro ⟨digits, hcs, hvalue⟩
    exact ⟨h.toNat, Text.readBelow?_eq_some_iff.2
      ⟨h.toNat_lt, digits, hcs, Text.value?_eq_some_iff_spells.2 hvalue⟩, UInt32.ofNat_toNat⟩

/-- The texts for a handle are the spellings of it. -/
theorem parseHandle?_eq_some_iff {h : UInt32} :
    parseHandle? text.toList = some h ↔ SpellsHandle text h := by
  unfold parseHandle? SpellsHandle
  split
  · next cs htext =>
    rw [readBelow?_handleCount_eq_some_iff]
    simp only [htext, List.cons.injEq, true_and]
  · next htext =>
    constructor
    · intro hnone
      cases hnone
    · rintro ⟨digits, htext' | htext', -⟩
      · exact (htext _ htext').elim
      · exact (htext _ htext').elim

/-- The word for the current segment comes before everything else. -/
theorem parse_eq_current (hform : SpellsCurrent text) : parse text = .current :=
  if_pos (isCurrent_iff.2 hform)

/-- A handle comes before an address and a name. -/
theorem parse_eq_handle {h : UInt32} (hlater : ¬SpellsCurrent text) (hform : SpellsHandle text h) :
    parse text = .handle h := by
  unfold parse
  rw [if_neg (isCurrent_iff.not.2 hlater), parseHandle?_eq_some_iff.2 hform]

/-- A text in neither of those forms names an address if it can, and otherwise a segment. -/
theorem parse_of_not_spells (hlater : ¬SpellsCurrent text) (hlater' : ∀ h, ¬SpellsHandle text h) :
    parse text = ((Address.parse? text).map .address).getD (.name text) := by
  have hnone : parseHandle? text.toList = none :=
    Option.eq_none_iff_forall_ne_some.2 fun h hh => hlater' h (parseHandle?_eq_some_iff.1 hh)
  unfold parse
  rw [if_neg (isCurrent_iff.not.2 hlater), hnone]
  cases Address.parse? text <;> rfl

/-- An address comes before a name. -/
theorem parse_eq_address {a : Address} (hlater : ¬SpellsCurrent text)
    (hlater' : ∀ h, ¬SpellsHandle text h) (hform : Address.parse? text = some a) :
    parse text = .address a := by
  rw [parse_of_not_spells hlater hlater', hform]
  rfl

/-- A text in no other form is the name of a segment. -/
theorem parse_eq_name (hlater : ¬HasForm text) : parse text = .name text := by
  obtain ⟨hcurrent, hlater⟩ := not_or.1 hlater
  obtain ⟨hhandle, haddress⟩ := not_or.1 hlater
  rw [parse_of_not_spells hcurrent (not_exists.1 hhandle),
    Option.eq_none_iff_forall_ne_some.2 (not_exists.1 haddress)]
  rfl

/-- The selector of a text follows its first form in the order of preference. -/
theorem parse_cases (text : String) :
    (SpellsCurrent text ∧ parse text = .current) ∨
    (¬SpellsCurrent text ∧ ∃ h, SpellsHandle text h ∧ parse text = .handle h) ∨
    (¬SpellsCurrent text ∧ (∀ h, ¬SpellsHandle text h) ∧
      ∃ a, Address.parse? text = some a ∧ parse text = .address a) ∨
    (¬HasForm text ∧ parse text = .name text) := by
  by_cases hcurrent : SpellsCurrent text
  · exact .inl ⟨hcurrent, parse_eq_current hcurrent⟩
  by_cases hhandle : ∃ h, SpellsHandle text h
  · obtain ⟨h, hform⟩ := hhandle
    exact .inr (.inl ⟨hcurrent, h, hform, parse_eq_handle hcurrent hform⟩)
  have hhandle := not_exists.1 hhandle
  by_cases haddress : ∃ a, Address.parse? text = some a
  · obtain ⟨a, hform⟩ := haddress
    exact .inr (.inr (.inl ⟨hcurrent, hhandle, a, hform, parse_eq_address hcurrent hhandle hform⟩))
  · have hform : ¬HasForm text := by
      rintro (h | ⟨h, hh⟩ | ha)
      · exact hcurrent h
      · exact hhandle h hh
      · exact haddress ha
    exact .inr (.inr (.inr ⟨hform, parse_eq_name hform⟩))

/-- A text is read as a name exactly if it has no other form. -/
theorem parse_eq_name_iff {n : String} : parse text = .name n ↔ ¬HasForm text ∧ n = text := by
  constructor
  · intro hname
    rcases parse_cases text with ⟨-, hparse⟩ | ⟨-, h, -, hparse⟩ | ⟨-, -, a, -, hparse⟩ |
      ⟨hform, hparse⟩
    · cases hname.symm.trans hparse
    · cases hname.symm.trans hparse
    · cases hname.symm.trans hparse
    · cases hname.symm.trans hparse
      exact ⟨hform, rfl⟩
  · rintro ⟨hform, rfl⟩
    exact parse_eq_name hform

/-! ## The written forms -/

/-- The word for the current segment starts with its first letter. -/
theorem SpellsCurrent.head (h : SpellsCurrent text) :
    ∃ c cs, text.toList = c :: cs ∧ (c = 'c' ∨ c = 'C') := by
  unfold SpellsCurrent at h
  rw [show "current".toList = 'c' :: "urrent".toList by simp] at h
  obtain ⟨c, cs, hc, -, htext⟩ := List.forall₂_cons_right_iff.1 h
  exact ⟨c, cs, htext, hc⟩

/-- A text that starts with none of these characters is an address or a name. -/
theorem not_spells_of_head {c : Char} {cs : List Char} (htext : text.toList = c :: cs)
    (hc : c ≠ 'c' ∧ c ≠ 'C' ∧ c ≠ '#') : ¬SpellsCurrent text ∧ ∀ h, ¬SpellsHandle text h := by
  obtain ⟨hlower, hupper, hhash⟩ := hc
  constructor
  · intro hcurrent
    obtain ⟨c', cs', hcs', hc'⟩ := hcurrent.head
    cases htext.symm.trans hcs'
    exact hc'.elim hlower hupper
  · rintro h ⟨digits, hdigits | hdigits, -⟩
    · exact hhash (List.cons.inj (htext.symm.trans hdigits)).1
    · exact hhash (List.cons.inj (htext.symm.trans hdigits)).1

/-- A handle that is written after a hash sign is read back. -/
theorem parse_hash_decimal (h : UInt32) : parse ("#" ++ Text.decimal h.toNat) = .handle h := by
  have htext : ("#" ++ Text.decimal h.toNat).toList = '#' :: Text.digits 10 h.toNat := by
    rw [String.toList_append, Text.toList_decimal]
    rfl
  refine parse_eq_handle (fun hcurrent => ?_)
    ⟨Text.digits 10 h.toNat, .inl htext, Text.spellsDecimal_digits h.toNat⟩
  obtain ⟨c, cs, hcs, hc⟩ := hcurrent.head
  cases htext.symm.trans hcs
  revert hc
  decide

/-- An address that is written in hexadecimal is read back. -/
theorem parse_text (a : Address) : parse a.text = .address a := by
  obtain ⟨hcurrent, hhandle⟩ := not_spells_of_head (Address.toList_text a) (by decide)
  exact parse_eq_address hcurrent hhandle (Address.parse?_text a)

/-- An address that is written in decimals is read back. -/
theorem parse_decimal (a : Address) : parse (Text.decimal a.toNat) = .address a := by
  obtain ⟨d, hd, cs, hcs⟩ := Text.digits_eq_cons (show 1 < 10 by decide) a.toNat
  have hc : ∀ d < 10, Nat.digitChar d ≠ 'c' ∧ Nat.digitChar d ≠ 'C' ∧ Nat.digitChar d ≠ '#' := by
    decide
  obtain ⟨hcurrent, hhandle⟩ := not_spells_of_head
    ((Text.toList_decimal a.toNat).trans hcs) (hc d hd)
  exact parse_eq_address hcurrent hhandle (Address.parse?_decimal a)

end Selector

namespace Segment

open Selector

variable {text : String} {cursor : Option Address} {s : Segment}

/-! ## The segments that a text asks for -/

/-- A text asks for a segment by its first form in the order of preference. -/
inductive Wanted (text : String) (cursor : Option Address) (s : Segment) : Prop
  | current {a : Address} (form : SpellsCurrent text) (there : cursor = some a)
      (above : s.start ≤ a) (below : a < s.stop)
  | handle (later : ¬SpellsCurrent text) (form : SpellsHandle text s.handle)
  | address {a : Address} (later : ¬SpellsCurrent text) (later' : ∀ h, ¬SpellsHandle text h)
      (form : Address.parse? text = some a) (above : s.start ≤ a) (below : a < s.stop)
  | name (later : ¬HasForm text) (named : s.name = text)

/-- A text asks for the segments that its selector fits. -/
theorem wanted_iff : s.Wanted text cursor ↔ (Selector.parse text).fits cursor s = true := by
  constructor
  · intro h
    cases h with
    | @current a form there above below =>
      rw [parse_eq_current form, there]
      simp [fits, contains, above, below]
    | handle later form =>
      rw [parse_eq_handle later form]
      simp [fits]
    | address later later' form above below =>
      rw [parse_eq_address later later' form]
      simp [fits, contains, above, below]
    | name later named =>
      rw [parse_eq_name later]
      simp [fits, named]
  · intro h
    rcases parse_cases text with ⟨hform, hparse⟩ | ⟨hlater, handle, hform, hparse⟩ |
      ⟨hlater, hlater', a, hform, hparse⟩ | ⟨hlater, hparse⟩
    · rw [hparse] at h
      cases cursor with
      | none => cases h
      | some a =>
        obtain ⟨above, below⟩ : s.start ≤ a ∧ a < s.stop := by simpa [fits, contains] using h
        exact .current hform rfl above below
    · rw [hparse] at h
      have hs : s.handle = handle := by simpa [fits] using h
      subst hs
      exact .handle hlater hform
    · rw [hparse] at h
      obtain ⟨above, below⟩ : s.start ≤ a ∧ a < s.stop := by simpa [fits, contains] using h
      exact .address hlater hlater' hform above below
    · rw [hparse] at h
      exact .name hlater (by simpa [fits] using h)

/-- A segment is the first in a list that a text asks for. -/
def FirstWanted (text : String) (cursor : Option Address) (segments : List Segment)
    (s : Segment) : Prop :=
  ∃ before after, segments = before ++ s :: after ∧ s.Wanted text cursor ∧
    ∀ t ∈ before, ¬t.Wanted text cursor

/-- The segment that is selected is the first one that is wanted. -/
theorem select?_eq_some_iff {segments : List Segment} :
    select? segments cursor (.parse text) = some s ↔ FirstWanted text cursor segments s := by
  unfold select? FirstWanted
  rw [List.find?_eq_some_iff_append]
  simp only [wanted_iff, Bool.not_eq_true', Bool.not_eq_true]
  constructor
  · rintro ⟨hs, before, after, hsplit, hbefore⟩
    exact ⟨before, after, hsplit, hs, hbefore⟩
  · rintro ⟨before, after, hsplit, hs, hbefore⟩
    exact ⟨hs, before, after, hsplit, hbefore⟩

/-- No segment is selected if none is wanted. -/
theorem select?_eq_none_iff {segments : List Segment} :
    select? segments cursor (.parse text) = none ↔ ∀ s ∈ segments, ¬s.Wanted text cursor := by
  unfold select?
  rw [List.find?_eq_none]
  simp only [wanted_iff]

end Segment

namespace Project

variable {p : Project} {text : String}

/-- A command selects the first segment that the text asks for. -/
theorem selectSegments_eq_ok_iff {found : List Segment} :
    p.selectSegments (some text) = .ok found ↔
      ∃ s, s.FirstWanted text p.snapshot.cursor p.snapshot.segments ∧ found = [s] := by
  simp only [← Segment.select?_eq_some_iff]
  cases h : Segment.select? p.snapshot.segments p.snapshot.cursor (.parse text) with
  | none => simp [selectSegments, h]
  | some s => simp [selectSegments, h, eq_comm]

/-- A command fails exactly if the text asks for no segment, and names the selector. -/
theorem selectSegments_eq_error_iff {e : Problem} :
    p.selectSegments (some text) = .error e ↔
      (∀ s ∈ p.snapshot.segments, ¬s.Wanted text p.snapshot.cursor) ∧
        e = .within ("Failed to select segment '" ++ text ++ "'")
          (.failure (.segmentNotFound (.parse text))) := by
  rw [← Segment.select?_eq_none_iff]
  cases h : Segment.select? p.snapshot.segments p.snapshot.cursor (.parse text) with
  | none => simp [selectSegments, h, eq_comm]
  | some s => simp [selectSegments, h]

end Project

open Selector in
/-- From any list of segments, with the cursor anywhere or nowhere, any text selects the first
segment that it asks for: the first that covers the cursor for the word `current`, else the first
with the handle that it writes, else the first that covers the address that it denotes, else the
first with the name. If there is none, the selection fails and names the selector of the text. Only
a text with none of the other forms is a name, and the written forms of a handle and of an address
ask for that handle and for that address. -/
theorem segment_by_text (text : String) (segments : List Segment) (cursor : Option Address) :
    (∀ s, Segment.select? segments cursor (.parse text) = some s ↔
      s.FirstWanted text cursor segments) ∧
    (Segment.select? segments cursor (.parse text) = none ↔
      ∀ s ∈ segments, ¬s.Wanted text cursor) ∧
    (∀ p : Project,
      (∀ found, p.selectSegments (some text) = .ok found ↔
        ∃ s, s.FirstWanted text p.snapshot.cursor p.snapshot.segments ∧ found = [s]) ∧
      ∀ e, p.selectSegments (some text) = .error e ↔
        (∀ s ∈ p.snapshot.segments, ¬s.Wanted text p.snapshot.cursor) ∧
          e = .within ("Failed to select segment '" ++ text ++ "'")
            (.failure (.segmentNotFound (.parse text)))) ∧
    (∀ n, Selector.parse text = .name n ↔ ¬HasForm text ∧ n = text) ∧
    (¬HasForm text → ∀ s : Segment, s.Wanted text cursor ↔ s.name = text) ∧
    ∀ (h : UInt32) (a : Address) (s : Segment),
      (s.Wanted ("#" ++ Text.decimal h.toNat) cursor ↔ s.handle = h) ∧
      (s.Wanted a.text cursor ↔ s.start ≤ a ∧ a < s.stop) ∧
      (s.Wanted (Text.decimal a.toNat) cursor ↔ s.start ≤ a ∧ a < s.stop) := by
  refine ⟨fun s => Segment.select?_eq_some_iff, Segment.select?_eq_none_iff,
    fun p => ⟨fun found => Project.selectSegments_eq_ok_iff,
      fun e => Project.selectSegments_eq_error_iff⟩,
    fun n => parse_eq_name_iff, fun hform s => ?_, fun h a s => ⟨?_, ?_, ?_⟩⟩
  · rw [Segment.wanted_iff, parse_eq_name hform]
    simp [fits]
  · rw [Segment.wanted_iff, parse_hash_decimal]
    simp [fits]
  · rw [Segment.wanted_iff, parse_text]
    simp [fits, Segment.contains]
  · rw [Segment.wanted_iff, parse_decimal]
    simp [fits, Segment.contains]

/-- A number after a hash sign that is no handle makes a name. -/
example : Selector.parse "#4294967296" = .name "#4294967296" := by decide

end TagCache
