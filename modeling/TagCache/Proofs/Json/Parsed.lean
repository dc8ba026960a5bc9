import TagCache.Proofs.Json.RoundTrip

/-!
# What a text can be read as

A value that was read can be written and read again (`Json.writable_of_parse?`): its integers are of
64 bits, its doubles are in the format, the members of its objects stand in ascending key order, and
it nests no deeper than the reader allows. Unless there is a double in it, its text gives it back
(`Json.plain_of_parse?`). The reader settles what a unit of text stands for (`Document.Readable`),
and the decoder puts the values together (`Document.writable_of_toJson?`).
-/

namespace TagCache

/-- A number is an integer of 64 bits or a double in the format. -/
theorem Literal.writable_of_toJson? {l : Literal} {v : Json} (h : l.toJson? = some v) :
    v.Writable ∧ v.depth = 0 := by
  unfold toJson? at h
  split at h
  · next n hword =>
    cases h
    unfold word? at hword
    split at hword
    · next hcond =>
      simp only [Bool.and_eq_true, decide_eq_true_eq] at hcond
      cases hword
      have hsigned : (0 : Int) ≤ signedCount := by decide
      refine ⟨⟨by omega, ?_⟩, rfl⟩
      exact Int.ofNat_lt.2 hcond.2
    · cases hword
  · split at h
    · next hcond =>
      simp only [Bool.and_eq_true, decide_eq_true_eq] at hcond
      cases h
      have hle : (l.wholeValue : Int) ≤ signedCount := Int.ofNat_le.2 hcond.2
      have hpos : (0 : Int) < wordCount := by decide
      exact ⟨⟨by omega, by omega⟩, rfl⟩
    · obtain ⟨x, hx, rfl⟩ := Option.map_eq_some_iff.1 h
      exact ⟨inRange_real? hx, rfl⟩

/-! ## Documents that were read -/

/-- The unit stands for no array or object, and for no value that cannot be written. -/
def Leaf.Readable (l : Leaf) : Prop := ∀ v, l.value? = some v → v.Writable ∧ v.depth = 0

namespace Document

mutual

/-- All units of the document are readable. -/
def Readable : Document → Prop
  | .leaf l => l.Readable
  | .sequence items => ReadableItems items
  | .mapping members => ReadableMembers members
termination_by structural d => d

/-- `Readable` over the items of a sequence. -/
def ReadableItems : List Document → Prop
  | [] => True
  | d :: ds => Readable d ∧ ReadableItems ds
termination_by structural ds => ds

/-- `Readable` over the values of the members of a mapping. -/
def ReadableMembers : List (Document × Document) → Prop
  | [] => True
  | (_, d) :: ms => Readable d ∧ ReadableMembers ms
termination_by structural ms => ms

end

mutual

/-- The value of a readable document can be written. -/
theorem writable_of_toJson? : ∀ {d : Document} {room : Nat} {v : Json}, d.Readable →
    d.toJson? room = some v → v.Writable ∧ v.depth ≤ room
  | .leaf l, room, v, hd, h => by
    obtain ⟨hwritable, hdepth⟩ := hd v h
    exact ⟨hwritable, by omega⟩
  | .sequence items, 0, v, hd, h => by cases h
  | .sequence items, room + 1, v, hd, h => by
    obtain ⟨vs, hvs, rfl⟩ := Option.map_eq_some_iff.1 h
    obtain ⟨hwritable, hdepth⟩ := writable_of_itemsToJson? hd hvs
    exact ⟨hwritable, Nat.succ_le_succ hdepth⟩
  | .mapping members, 0, v, hd, h => by cases h
  | .mapping members, room + 1, v, hd, h => by
    obtain ⟨ms, hms, rfl⟩ := Option.map_eq_some_iff.1 h
    have hall (b) (hb : b ∈ (Table.ofList ms).entries) : b.2.Writable ∧ b.2.depth ≤ room :=
      writable_of_membersToJson? hd hms b (Table.mem_of_mem_ofList hb)
    refine ⟨⟨(Table.ofList ms).ascending,
      (Json.writableMembers_iff _).2 fun b hb => (hall b hb).1⟩, ?_⟩
    exact Nat.succ_le_succ ((Json.depthMembers_le_iff _ _).2 fun b hb => (hall b hb).2)

/-- Readable items make values that can be written, no deeper than there is room. -/
theorem writable_of_itemsToJson? : ∀ {ds : List Document} {room : Nat} {vs : List Json},
    ReadableItems ds → itemsToJson? room ds = some vs →
    Json.WritableItems vs ∧ Json.depthItems vs ≤ room
  | [], room, vs, hds, h => by
    cases h
    exact ⟨trivial, Nat.zero_le _⟩
  | d :: ds, room, vs, hds, h => by
    obtain ⟨v, hv, h⟩ := Option.bind_eq_some_iff.1 h
    obtain ⟨vs', hvs', h⟩ := Option.bind_eq_some_iff.1 h
    cases h
    obtain ⟨hwritable, hdepth⟩ := writable_of_toJson? hds.1 hv
    obtain ⟨hwritables, hdepths⟩ := writable_of_itemsToJson? hds.2 hvs'
    exact ⟨⟨hwritable, hwritables⟩, Nat.max_le.2 ⟨hdepth, hdepths⟩⟩

/-- Readable members make values that can be written, no deeper than there is room. -/
theorem writable_of_membersToJson? : ∀ {ms : List (Document × Document)} {room : Nat}
    {vs : List (String × Json)}, ReadableMembers ms → membersToJson? room ms = some vs →
    ∀ b ∈ vs, b.2.Writable ∧ b.2.depth ≤ room
  | [], room, vs, hms, h, b, hb => by
    cases h
    cases hb
  | (k, d) :: ms, room, vs, hms, h, b, hb => by
    obtain ⟨key, -, h⟩ := Option.bind_eq_some_iff.1 h
    obtain ⟨v, hd, h⟩ := Option.bind_eq_some_iff.1 h
    obtain ⟨vs', hvs', h⟩ := Option.bind_eq_some_iff.1 h
    cases h
    rcases List.mem_cons.1 hb with rfl | hb
    · exact writable_of_toJson? hms.1 hd
    · exact writable_of_membersToJson? hms.2 hvs' b hb

end

end Document

/-! ## The reader -/

namespace Json

/-- A leaf that can be written can be read. -/
theorem readable_ofValue {v : Json} (hwritable : v.Writable) (hdepth : v.depth = 0) :
    (Leaf.ofValue v).Readable := by
  intro w hw
  cases hw
  exact ⟨hwritable, hdepth⟩

/-- Every string can be read. -/
theorem readable_ofString (raw : List Char) : (Leaf.ofString raw).Readable := by
  intro w hw
  obtain ⟨s, -, rfl⟩ := Option.map_eq_some_iff.1 hw
  exact ⟨trivial, rfl⟩

/-- What the reader reads with some fuel is readable. -/
structure ReadsReadable (fuel : Nat) : Prop where
  value {cs : List Char} {d : Document} {rest : List Char} :
    readValue? fuel cs = some (d, rest) → d.Readable
  items {cs : List Char} {ds : List Document} {rest : List Char} :
    readItems? fuel cs = some (ds, rest) → Document.ReadableItems ds
  members {cs : List Char} {ms : List (Document × Document)} {rest : List Char} :
    readMembers? fuel cs = some (ms, rest) → Document.ReadableMembers ms

namespace ReadsReadable

variable {fuel : Nat} {cs rest : List Char} (h : ReadsReadable fuel)
include h

/-- A value that is read with one step more is readable. -/
theorem value_succ {d : Document} (hd : readValue? (fuel + 1) cs = some (d, rest)) :
    d.Readable := by
  unfold readValue? at hd
  split at hd
  · cases hd
    exact readable_ofValue trivial rfl
  · cases hd
    exact readable_ofValue trivial rfl
  · cases hd
    exact readable_ofValue trivial rfl
  · obtain ⟨⟨raw, rest'⟩, -, hd⟩ := Option.map_eq_some_iff.1 hd
    cases hd
    exact readable_ofString raw
  · split at hd
    · cases hd
      trivial
    · obtain ⟨⟨ds, rest'⟩, hds, hd⟩ := Option.map_eq_some_iff.1 hd
      cases hd
      exact h.items hds
  · split at hd
    · cases hd
      trivial
    · obtain ⟨⟨ms, rest'⟩, hms, hd⟩ := Option.map_eq_some_iff.1 hd
      cases hd
      exact h.members hms
  · obtain ⟨⟨l, rest'⟩, -, hd⟩ := Option.map_eq_some_iff.1 hd
    cases hd
    exact fun v hv => l.writable_of_toJson? hv

/-- Items that are read with one step more are readable. -/
theorem items_succ {ds : List Document} (hds : readItems? (fuel + 1) cs = some (ds, rest)) :
    Document.ReadableItems ds := by
  unfold readItems? at hds
  obtain ⟨⟨d, rest'⟩, hd, hds⟩ := Option.bind_eq_some_iff.1 hds
  dsimp only at hds
  split at hds
  · cases hds
    exact ⟨h.value hd, trivial⟩
  · obtain ⟨⟨ds', rest''⟩, hmore, hds⟩ := Option.bind_eq_some_iff.1 hds
    cases hds
    exact ⟨h.value hd, h.items hmore⟩
  · cases hds

/-- Members that are read with one step more are readable. -/
theorem members_succ {ms : List (Document × Document)}
    (hms : readMembers? (fuel + 1) cs = some (ms, rest)) : Document.ReadableMembers ms := by
  unfold readMembers? at hms
  split at hms
  · obtain ⟨⟨raw, rest'⟩, -, hms⟩ := Option.bind_eq_some_iff.1 hms
    dsimp only at hms
    split at hms
    · obtain ⟨⟨d, rest''⟩, hd, hms⟩ := Option.bind_eq_some_iff.1 hms
      dsimp only at hms
      split at hms
      · cases hms
        exact ⟨h.value hd, trivial⟩
      · obtain ⟨⟨ms', rest₃⟩, hmore, hms⟩ := Option.bind_eq_some_iff.1 hms
        cases hms
        exact ⟨h.value hd, h.members hmore⟩
      · cases hms
    · cases hms
  · cases hms

end ReadsReadable

/-- Whatever the reader reads is readable. -/
theorem readsReadable (fuel : Nat) : ReadsReadable fuel := by
  induction fuel with
  | zero =>
    refine ⟨fun h => ?_, fun h => ?_, fun h => ?_⟩
    all_goals cases h
  | succ fuel ih => exact ⟨ih.value_succ, ih.items_succ, ih.members_succ⟩

/-- Every document that is read from a text is readable. -/
theorem readable_of_read? {text : String} {d : Document} (h : read? text = some d) :
    d.Readable := by
  unfold read? at h
  split at h
  · next d' rest hread =>
    split at h
    · cases h
      exact (readsReadable _).value hread
    · cases h
  · cases h

/-- A value that was read can be written and read again. -/
theorem writable_of_parse? {text : String} {v : Json} (h : parse? text = some v) :
    v.Writable ∧ v.depth ≤ maxDepth := by
  obtain ⟨d, hd, htoJson⟩ := Option.bind_eq_some_iff.1 h
  exact Document.writable_of_toJson? (readable_of_read? hd) htoJson

/-- A value that was read, and has no double in it, is written to a text that gives it back. -/
theorem plain_of_parse? {text : String} {v : Json} (h : parse? text = some v) (hv : v.Floatless) :
    v.Plain ∧ v.depth ≤ maxDepth := by
  obtain ⟨hwritable, hdepth⟩ := writable_of_parse? h
  exact ⟨(plain_iff v).2 ⟨hwritable, hv⟩, hdepth⟩

end Json

end TagCache
