import TagCache.Proofs.Json.Parsed

/-!
# Laws of decoding

What a decoder is handed out of a document that was read was read too (`Document.Readable.record?`),
and what it is handed out of the document of a written value is the document of a part of it: a
number (`Document.word?_ofCount`), a key (`Document.word?_decimal`), the fields of a record by their
names (`Document.record?_object`).
-/

namespace TagCache

/-- Whatever stands in a list that was read was read on its own. -/
theorem exists_of_mapM_eq_some {α β : Type} {f : α → Option β} {l : List α} {l' : List β}
    (h : l.mapM f = some l') :
    ∀ b ∈ l', ∃ a ∈ l, f a = some b := by
  induction l generalizing l' with
  | nil =>
    cases h
    exact fun b hb => absurd hb List.not_mem_nil
  | cons a l ih =>
    rw [List.mapM_cons] at h
    obtain ⟨b, hb, h⟩ := Option.bind_eq_some_iff.1 h
    obtain ⟨bs, hbs, h⟩ := Option.bind_eq_some_iff.1 h
    cases h
    refine List.forall_mem_cons.2 ⟨⟨a, List.mem_cons_self, hb⟩, fun c hc => ?_⟩
    obtain ⟨a', ha', hc⟩ := ih hbs c hc
    exact ⟨a', List.mem_cons_of_mem a ha', hc⟩

namespace Document

/-! ## Parts of documents that were read -/

/-- The items of a sequence are readable if each of them is. -/
theorem readableItems_iff (ds : List Document) : ReadableItems ds ↔ ∀ d ∈ ds, d.Readable := by
  induction ds with
  | nil => simp [ReadableItems]
  | cons d ds ih => simp [ReadableItems, ih]

/-- `ReadableMembers` in the per-member form. -/
theorem readableMembers_iff (ms : List (Document × Document)) :
    ReadableMembers ms ↔ ∀ m ∈ ms, m.2.Readable := by
  induction ms with
  | nil => simp [ReadableMembers]
  | cons m ms ih => obtain ⟨k, d⟩ := m; simp [ReadableMembers, ih]

namespace Readable

variable {d : Document}

/-- The items of a readable document are readable. -/
theorem items? (hd : d.Readable) {ds : List Document} (h : d.items? = some ds) :
    ∀ d' ∈ ds, d'.Readable := by
  cases d with
  | leaf l =>
    have h : (if l.isVoid then some [] else none) = some ds := h
    split at h
    · cases h
      exact fun d' hd' => absurd hd' List.not_mem_nil
    · cases h
  | sequence items =>
    cases h
    exact (readableItems_iff ds).1 hd
  | mapping members => cases h

/-- The members of a readable document are readable. -/
theorem members? (hd : d.Readable) {ms : List (Document × Document)} (h : d.members? = some ms) :
    ReadableMembers ms := by
  cases d with
  | leaf l =>
    have h : (if l.isVoid then some [] else none) = some ms := h
    split at h
    · cases h
      trivial
    · cases h
  | sequence items => cases h
  | mapping members =>
    cases h
    exact hd

end Readable

/-- A field is bound to its name. -/
theorem mem_of_field? {members : List (String × Document)} {name : String} {d : Document}
    (h : field? members name = some (some d)) : (name, d) ∈ members := by
  have hbound : d ∈ boundTo name members := by
    unfold field? at h
    split at h
    · cases h
    · next heq =>
      cases h
      rw [heq]
      exact List.mem_singleton_self d
    · cases h
  obtain ⟨⟨k, d'⟩, hmem, hd'⟩ := List.mem_filterMap.1 hbound
  split at hd'
  · next hk =>
    obtain rfl : k = name := hk
    cases hd'
    exact hmem
  · cases hd'

/-- The fields of a record that was read were read. -/
theorem Readable.record? {d : Document} (hd : d.Readable) {positional : Bool} {names : List String}
    {fields : List (Option Document)} (h : d.record? positional names = some fields) :
    ∀ d', some d' ∈ fields → d'.Readable := by
  intro d' hd'
  unfold Document.record? at h
  split at h
  · next items =>
    split at h
    · cases h
      have hmem : d' ∈ items := by simpa using hd'
      exact (readableItems_iff items).1 hd d' hmem
    · cases h
  · obtain ⟨members, hmembers, h⟩ := Option.bind_eq_some_iff.1 h
    obtain ⟨named, hnamed, h⟩ := Option.bind_eq_some_iff.1 h
    obtain ⟨name, -, hfield⟩ := exists_of_mapM_eq_some h (some d') hd'
    obtain ⟨m, hm, hkey⟩ := exists_of_mapM_eq_some hnamed _ (mem_of_field? hfield)
    obtain ⟨k, -, hpair⟩ := Option.map_eq_some_iff.1 hkey
    cases hpair
    exact (readableMembers_iff members).1 (hd.members? hmembers) m hm

/-! ## Parts of written values -/

open Json (keyDocument)

/-- The items of an array are those of its document. -/
theorem items?_array (xs : List Json) :
    (Json.array xs).document.items? = some (xs.map Json.document) :=
  congrArg some (Json.documentItems_eq xs)

/-- The members of an object are those of its document. -/
theorem members?_object (ms : List (String × Json)) :
    (Json.object ms).document.members? = some (ms.map fun b => (keyDocument b.1, b.2.document)) :=
  congrArg some (Json.documentMembers_eq ms)

/-- The text of a string is that of its document. -/
theorem text?_string (s : String) : (Json.string s).document.text? = some s :=
  Json.unescaped?_escape s

/-- A count below a bound is read back. -/
theorem wordBelow?_ofCount {n bound : Nat} (hn : n < bound) (hbound : bound ≤ UInt64.size) :
    (Json.ofCount n).document.wordBelow? bound = some n := by
  show ((Literal.ofNat false n).word?).filter (· < bound) = some n
  rw [Literal.word?_ofNat (Nat.lt_of_lt_of_le hn hbound)]
  simp [hn]

/-- A written word is read as the word. -/
theorem word?_ofCount (a : UInt64) : (Json.ofCount a.toNat).document.word? = some a := by
  unfold word?
  rw [wordBelow?_ofCount a.toNat_lt_size (Nat.le_refl _)]
  simp

/-- Digits stand for themselves in a string. -/
theorem escape_digits (n : Nat) : Json.escape (Text.digits 10 n) = Text.digits 10 n := by
  have hdigit : ∀ d < 10, Json.escapeChar (Nat.digitChar d) = [Nat.digitChar d] := by decide
  obtain ⟨ds, hds, hlt, -, -⟩ := Text.exists_digits (show 1 < 10 by decide) n
  have hself : ∀ c ∈ Text.digits 10 n, Json.escapeChar c = [c] := by
    rw [hds]
    intro c hc
    obtain ⟨d, hd, rfl⟩ := List.mem_map.1 hc
    exact hdigit d (hlt d hd)
  unfold Json.escape
  rw [List.flatMap_congr hself, List.flatMap_singleton']

/-- A word that is written as a key is read as the word. -/
theorem word?_decimal (a : UInt64) : (keyDocument (Text.decimal a.toNat)).word? = some a := by
  have htext : Json.escape (Text.decimal a.toNat).toList = (Literal.ofNat false a.toNat).text := by
    rw [Text.decimal, String.toList_ofList, escape_digits]
    exact (Literal.text_ofInt a.toNat).symm
  have hscan := Literal.scan?_text (Literal.wellFormed_ofNat false a.toNat) Literal.Ends.nil
  rw [List.append_nil] at hscan
  have hword : (Leaf.ofKey (Json.escape (Text.decimal a.toNat).toList)).word? = some a.toNat := by
    rw [htext, Leaf.ofKey, hscan]
    exact Literal.word?_ofNat a.toNat_lt_size
  unfold word? wordBelow? keyDocument
  simp only [hword]
  simp [Option.filter, a.toNat_lt_size]

/-- A name is bound to the document of its value. -/
theorem boundTo_documents {ms : List (String × Json)} (h : (ms.map (·.1)).Nodup) (name : String) :
    boundTo name (ms.map fun b => (b.1, b.2.document))
      = ((ms.lookup name).map Json.document).toList := by
  induction ms with
  | nil => rfl
  | cons b ms ih =>
    obtain ⟨k, v⟩ := b
    obtain ⟨hk, h⟩ := List.nodup_cons.1 h
    have hcons : boundTo name (((k, v) :: ms).map fun b => (b.1, b.2.document))
        = (if k = name then [v.document] else [])
          ++ boundTo name (ms.map fun b => (b.1, b.2.document)) := by
      unfold boundTo
      rw [List.map_cons, List.filterMap_cons]
      by_cases hname : k = name <;> simp [hname]
    rw [hcons, ih h, List.lookup_cons]
    by_cases hname : k = name
    · subst hname
      have hnone : ms.lookup k = none := List.lookup_eq_none_iff.2 fun p hp =>
        bne_iff_ne.2 fun heq => hk (List.mem_map.2 ⟨p, hp, heq.symm⟩)
      simp [hnone]
    · have hbeq : (name == k) = false := beq_eq_false_iff_ne.2 (Ne.symm hname)
      simp [hname, hbeq]

/-- A written record is read as its fields, each of them absent where it was not written. -/
theorem record?_object {ms : List (String × Json)} (h : (ms.map (·.1)).Nodup) (positional : Bool)
    (names : List String) :
    (Json.object ms).document.record? positional names
      = some (names.map fun name => (ms.lookup name).map Json.document) := by
  have hnamed : (Json.documentMembers ms).mapM (fun m => m.1.text?.map (·, m.2))
      = some (ms.map fun b => (b.1, b.2.document)) := by
    rw [Json.documentMembers_eq, List.mapM_map]
    refine mapM_eq_some_map fun b _ => ?_
    show (keyDocument b.1).text?.map (·, b.2.document) = _
    rw [Json.text?_keyDocument]
    rfl
  refine Option.bind_eq_some_iff.2 ⟨_, hnamed, mapM_eq_some_map fun name _ => ?_⟩
  unfold field?
  rw [boundTo_documents h]
  cases ms.lookup name <;> rfl

end Document

end TagCache
