import TagCache.Proofs.Document
import TagCache.Snapshot.Format

/-!
# Reading back written snapshots

A snapshot that was read can be written (`Snapshot.writable_of_ofDocument?`): the values of its tags
nest no deeper where they stand than the reader allows, and its numbers are words. A decoder finds
each part again in the document of the written form, whatever form the part was read from, so
without a double in a tag the snapshot is read again from its canonical text
(`Snapshot.parseJson_text`).
-/

namespace TagCache

open Document

/-! ## Snapshots that were read -/

/-- The values can be written, and nest at most `room` arrays and objects. -/
def TagTable.Writable (room : Nat) (t : TagTable) : Prop :=
  ∀ b ∈ t.entries, b.2.Writable ∧ b.2.depth ≤ room

/-- There is no double in the values. -/
def TagTable.Floatless (t : TagTable) : Prop := ∀ b ∈ t.entries, b.2.Floatless

/-- Tags without floats are written as a value without floats. -/
theorem TagTable.Floatless.toJson {t : TagTable} (h : t.Floatless) :
    (Json.object t.entries).Floatless := (Json.floatlessMembers_iff t.entries).2 h

namespace Snapshot

/-- The text of the snapshot can be read: the values of tags can, where they stand, and the numbers
of extra lines are words. -/
structure Writable (s : Snapshot) : Prop where
  functions : ∀ f ∈ s.functions, TagTable.Writable (Json.maxDepth - 4) f.tags
  tags : ∀ b ∈ s.tags.entries, TagTable.Writable (Json.maxDepth - 3) b.2
  extraComments : ∀ b ∈ s.extraComments.entries,
    b.2.before < UInt64.size ∧ b.2.after < UInt64.size

/-- There is no double in the values of tags. -/
structure Floatless (s : Snapshot) : Prop where
  functions : ∀ f ∈ s.functions, TagTable.Floatless f.tags
  tags : ∀ b ∈ s.tags.entries, TagTable.Floatless b.2

end Snapshot

namespace Document

variable {d : Document}

/-- A word that is read is below its bound. -/
theorem lt_of_wordBelow? {bound n : Nat} (h : d.wordBelow? bound = some n) : n < bound := by
  cases d with
  | leaf l =>
    have h := (Option.filter_eq_some_iff.1 h).2
    simpa using h
  | sequence | mapping => cases h

/-- A field that is there is read. -/
theorem withDefault?_some {α : Type} (default : α) (read : Document → Option α) (d : Document) :
    withDefault? default read (some d) = read d := rfl

/-- A field with a default has it or is read. -/
theorem withDefault?_eq_some {α : Type} {default : α} {read : Document → Option α}
    {field : Option Document} {a : α} (h : withDefault? default read field = some a) :
    a = default ∨ ∃ d, field = some d ∧ read d = some a := by
  cases field with
  | none =>
    cases h
    exact .inl rfl
  | some d => exact .inr ⟨d, rfl, h⟩

/-- Tags that are read can be written. -/
theorem writable_of_tagTable? (hd : d.Readable) {room : Nat} {t : TagTable}
    (h : d.tagTable? room = some t) : TagTable.Writable room t := by
  obtain ⟨members, hmembers, h⟩ := Option.bind_eq_some_iff.1 h
  obtain ⟨values, hvalues, h⟩ := Option.bind_eq_some_iff.1 h
  cases h
  intro b hb
  exact writable_of_membersToJson? (hd.members? hmembers) hvalues b (Table.mem_of_mem_ofList hb)

/-- What a table by addresses holds was read from the documents of its members. -/
theorem exists_of_addressTable? {α : Type} {read : Document → Option α} {t : Table Address α}
    (hd : d.Readable) (h : d.addressTable? read = some t) :
    ∀ b ∈ t.entries, ∃ d' : Document, d'.Readable ∧ read d' = some b.2 := by
  obtain ⟨members, hmembers, h⟩ := Option.bind_eq_some_iff.1 h
  obtain ⟨bindings, hbindings, h⟩ := Option.bind_eq_some_iff.1 h
  cases h
  intro b hb
  obtain ⟨⟨k, d'⟩, hm, hread⟩ := exists_of_mapM_eq_some hbindings b (Table.mem_of_mem_ofList hb)
  obtain ⟨a, -, hread⟩ := Option.bind_eq_some_iff.1 hread
  obtain ⟨x, hx, hread⟩ := Option.bind_eq_some_iff.1 hread
  cases hread
  exact ⟨d', (readableMembers_iff members).1 (hd.members? hmembers) _ hm, hx⟩

end Document

/-- The tags of a function that was read can be written. -/
theorem FunctionInfo.writable_of_ofDocument? {d : Document} (hd : d.Readable) {positional : Bool}
    {room : Nat} {f : FunctionInfo} (h : ofDocument? positional room d = some f) :
    TagTable.Writable room f.tags := by
  obtain ⟨fields, hfields, h⟩ := Option.bind_eq_some_iff.1 h
  split at h
  · next entry chunks tags =>
    obtain ⟨_, -, h⟩ := Option.bind_eq_some_iff.1 h
    obtain ⟨_, -, h⟩ := Option.bind_eq_some_iff.1 h
    obtain ⟨t, ht, h⟩ := Option.bind_eq_some_iff.1 h
    cases h
    rcases withDefault?_eq_some ht with rfl | ⟨d', rfl, ht⟩
    · exact fun b hb => absurd hb List.not_mem_nil
    · exact writable_of_tagTable? (hd.record? hfields d' (by simp)) ht
  · cases h

/-- The numbers of extra lines that were read are words. -/
theorem ExtraLines.lt_of_ofDocument? {d : Document} {positional : Bool} {x : ExtraLines}
    (h : ofDocument? positional d = some x) : x.before < UInt64.size ∧ x.after < UInt64.size := by
  have hlines {field : Option Document} {n : Nat}
      (h : withDefault? 0 (wordBelow? UInt64.size) field = some n) : n < UInt64.size := by
    rcases withDefault?_eq_some h with rfl | ⟨d', -, h⟩
    · decide
    · exact lt_of_wordBelow? h
  obtain ⟨fields, -, h⟩ := Option.bind_eq_some_iff.1 h
  split at h
  · obtain ⟨_, hbefore, h⟩ := Option.bind_eq_some_iff.1 h
    obtain ⟨_, hafter, h⟩ := Option.bind_eq_some_iff.1 h
    cases h
    exact ⟨hlines hbefore, hlines hafter⟩
  · cases h

/-- A snapshot that was read can be written. -/
theorem Snapshot.writable_of_ofDocument? {d : Document} (hd : d.Readable) {s : Snapshot}
    (h : ofDocument? jsonDialect d = some s) : s.Writable := by
  obtain ⟨fields, hfields, h⟩ := Option.bind_eq_some_iff.1 h
  have hfield := hd.record? hfields
  split at h
  · next bounds heads functions tags customNames extraComments segments cursor =>
    obtain ⟨⟨low, high⟩, -, h⟩ := Option.bind_eq_some_iff.1 h
    obtain ⟨_, -, h⟩ := Option.bind_eq_some_iff.1 h
    obtain ⟨fs, hfs, h⟩ := Option.bind_eq_some_iff.1 h
    obtain ⟨ts, hts, h⟩ := Option.bind_eq_some_iff.1 h
    obtain ⟨_, -, h⟩ := Option.bind_eq_some_iff.1 h
    obtain ⟨xs, hxs, h⟩ := Option.bind_eq_some_iff.1 h
    obtain ⟨_, -, h⟩ := Option.bind_eq_some_iff.1 h
    obtain ⟨_, -, h⟩ := Option.bind_eq_some_iff.1 h
    cases h
    constructor
    · rcases withDefault?_eq_some hfs with rfl | ⟨d', rfl, hfs⟩
      · exact fun f hf => absurd hf List.not_mem_nil
      · obtain ⟨items, hitems, hfs⟩ := Option.bind_eq_some_iff.1 hfs
        intro f hf
        obtain ⟨d'', hd'', hf⟩ := exists_of_mapM_eq_some hfs f hf
        exact FunctionInfo.writable_of_ofDocument?
          ((hfield d' (by simp)).items? hitems d'' hd'') hf
    · rcases withDefault?_eq_some hts with rfl | ⟨d', rfl, hts⟩
      · exact fun b hb => absurd hb List.not_mem_nil
      · intro b hb
        obtain ⟨d'', hd'', ht⟩ := exists_of_addressTable? (hfield d' (by simp)) hts b hb
        exact writable_of_tagTable? hd'' ht
    · rcases withDefault?_eq_some hxs with rfl | ⟨d', rfl, hxs⟩
      · exact fun b hb => absurd hb List.not_mem_nil
      · intro b hb
        obtain ⟨d'', -, hx⟩ := exists_of_addressTable? (hfield d' (by simp)) hxs b hb
        exact ExtraLines.lt_of_ofDocument? hx
  · cases h

/-! ## Snapshots that are written -/

namespace Document

/-- A written list is read item by item. -/
theorem mapM_items?_array {α : Type} {toJson : α → Json} {read : Document → Option α} {l : List α}
    (h : ∀ a ∈ l, read (toJson a).document = some a) :
    (Json.array (l.map toJson)).document.items?.bind (fun ds => ds.mapM read) = some l := by
  rw [items?_array, List.map_map]
  exact mapM_map_eq_some h

/-- A set of addresses is read back. -/
theorem addressSet?_document (s : KeySet Address) :
    (Snapshot.addressesToJson s).document.addressSet? = some s := by
  have hitems : (Snapshot.addressesToJson s).document.items?.bind (fun ds => ds.mapM (·.word?))
      = some s.toList := mapM_items?_array fun a _ => word?_ofCount a
  unfold addressSet?
  simp only [Option.bind_eq_bind]
  rw [← Option.bind_assoc, hitems]
  exact congrArg some (KeySet.ofList_toList s)

/-- A table by addresses is read back if its values are. -/
theorem addressTable?_document {α : Type} {toJson : α → Json} {read : Document → Option α}
    {t : Table Address α} (h : ∀ b ∈ t.entries, read (toJson b.2).document = some b.2) :
    (Snapshot.tableToJson toJson t).document.addressTable? read = some t := by
  have hmembers : (Snapshot.tableToJson toJson t).document.members? = some (t.entries.map fun b =>
      (Json.keyDocument (Text.decimal b.1.toNat), (toJson b.2).document)) :=
    (members?_object _).trans (congrArg some List.map_map)
  have hread : (t.entries.map fun b =>
      (Json.keyDocument (Text.decimal b.1.toNat), (toJson b.2).document)).mapM
        (fun m => do return (← m.1.word?, ← read m.2)) = some t.entries := by
    refine mapM_map_eq_some fun b hb => ?_
    show (do return (← (Json.keyDocument _).word?, ← read _)) = some b
    rw [word?_decimal, h b hb]
    rfl
  unfold addressTable?
  rw [hmembers, Option.bind_eq_bind, Option.bind_some]
  exact Option.bind_eq_some_iff.2 ⟨_, hread, congrArg some (Table.ofList_entries t)⟩

/-- Tags without floats are read back. -/
theorem tagTable?_document {room : Nat} {t : TagTable} (ht : TagTable.Writable room t)
    (hfloatless : TagTable.Floatless t) :
    (Json.object t.entries).document.tagTable? room = some t := by
  have hread : Json.rereadMembers t.entries = t.entries :=
    Json.object.inj hfloatless.toJson.reread_eq
  have hvalues : membersToJson? room (Json.documentMembers t.entries) = some t.entries := by
    rw [Json.membersToJson?_documentMembers _
      ((Json.writableMembers_iff _).2 fun b hb => (ht b hb).1)
      ((Json.depthMembers_le_iff _ _).2 fun b hb => (ht b hb).2), hread]
  show (do return Table.ofList (← membersToJson? room (Json.documentMembers t.entries))) = _
  rw [hvalues]
  exact congrArg some (Table.ofList_entries t)

end Document

/-- A chunk is read back. -/
theorem Chunk.ofDocument?_document (positional : Bool) (c : Chunk) :
    ofDocument? positional c.toJson.document = some c := by
  have hfields : c.toJson.document.record? positional fieldNames
      = some [some (Json.ofCount c.start.toNat).document,
        some (Json.ofCount c.stop.toNat).document] :=
    record?_object (by exact (by decide : fieldNames.Nodup)) positional fieldNames
  unfold ofDocument?
  rw [hfields]
  simp only [Option.bind_eq_bind, Option.bind_some, required?, word?_ofCount]
  rfl

/-- The fields of a written function. An empty table of tags is absent. -/
theorem FunctionInfo.record?_document (positional : Bool) (f : FunctionInfo) :
    f.toJson.document.record? positional fieldNames
      = some [some (Json.ofCount f.entry.toNat).document,
        some (Json.array (f.chunks.map Chunk.toJson)).document,
        if f.tags.isEmpty then none else some (Json.object f.tags.entries).document] := by
  unfold toJson
  cases f.tags.isEmpty with
  | true =>
    exact record?_object (by exact (by decide : (fieldNames.take 2).Nodup)) positional fieldNames
  | false => exact record?_object (by exact (by decide : fieldNames.Nodup)) positional fieldNames

/-- A function is read back with its tags. -/
theorem FunctionInfo.ofDocument?_document {positional : Bool} {room : Nat} {f : FunctionInfo}
    (hwritable : TagTable.Writable room f.tags) (hfloatless : TagTable.Floatless f.tags) :
    ofDocument? positional room f.toJson.document = some f := by
  have hchunks : (Json.array (f.chunks.map Chunk.toJson)).document.items?.bind
      (fun ds => ds.mapM (Chunk.ofDocument? positional)) = some f.chunks :=
    mapM_items?_array fun c _ => c.ofDocument?_document positional
  have htags : withDefault? ∅ (tagTable? room)
      (if f.tags.isEmpty then none else some (Json.object f.tags.entries).document)
        = some f.tags := by
    split
    · next hempty => exact congrArg some (Table.eq_empty_of_isEmpty hempty).symm
    · exact tagTable?_document hwritable hfloatless
  unfold ofDocument?
  rw [f.record?_document]
  simp only [Option.bind_eq_bind, Option.bind_some, required?, word?_ofCount]
  rw [hchunks, htags]
  rfl

/-- Extra comment lines are read back. -/
theorem ExtraLines.ofDocument?_document {positional : Bool} {x : ExtraLines}
    (h : x.before < UInt64.size ∧ x.after < UInt64.size) :
    ofDocument? positional x.toJson.document = some x := by
  have hfields : x.toJson.document.record? positional fieldNames
      = some [some (Json.ofCount x.before).document, some (Json.ofCount x.after).document] :=
    record?_object (by exact (by decide : fieldNames.Nodup)) positional fieldNames
  unfold ofDocument?
  rw [hfields]
  simp only [Option.bind_eq_bind, Option.bind_some, withDefault?,
    wordBelow?_ofCount h.1 (Nat.le_refl _), wordBelow?_ofCount h.2 (Nat.le_refl _)]
  rfl

/-- A segment is read back. -/
theorem Segment.ofDocument?_document (positional : Bool) (g : Segment) :
    ofDocument? positional g.toJson.document = some g := by
  have hfields : g.toJson.document.record? positional fieldNames
      = some [some (Json.ofCount g.handle.toNat).document, some (Json.string g.name).document,
        some (Json.ofCount g.start.toNat).document, some (Json.ofCount g.stop.toNat).document] :=
    record?_object (by exact (by decide : fieldNames.Nodup)) positional fieldNames
  unfold ofDocument?
  rw [hfields]
  simp only [Option.bind_eq_bind, Option.bind_some, required?, word?_ofCount, text?_string,
    wordBelow?_ofCount g.handle.toNat_lt (by decide)]
  simp

/-- The fields of a written snapshot. Only the cursor may be absent. -/
theorem Snapshot.record?_document (positional : Bool) (s : Snapshot) :
    s.toJson.document.record? positional fieldNames
      = some [some (Json.array [.ofCount s.low.toNat, .ofCount s.high.toNat]).document,
        some (addressesToJson s.heads).document,
        some (Json.array (s.functions.map FunctionInfo.toJson)).document,
        some (tableToJson (fun t => .object t.entries) s.tags).document,
        some (addressesToJson s.customNames).document,
        some (tableToJson ExtraLines.toJson s.extraComments).document,
        some (Json.array (s.segments.map Segment.toJson)).document,
        s.cursor.map fun a => (Json.ofCount a.toNat).document] := by
  unfold toJson
  cases s.cursor with
  | none =>
    exact record?_object (by exact (by decide : (fieldNames.take 7).Nodup)) positional fieldNames
  | some a => exact record?_object (by exact (by decide : fieldNames.Nodup)) positional fieldNames

/-- The document of a snapshot that can be written decodes as the snapshot, if there is no double
in it. -/
theorem Snapshot.ofDocument?_document {s : Snapshot} (hs : s.Writable) (hfloatless : s.Floatless) :
    ofDocument? jsonDialect s.toJson.document = some s := by
  have hbounds : (Json.array [.ofCount s.low.toNat, .ofCount s.high.toNat]).document.addressPair?
      = some (s.low, s.high) := by
    show (do return (← (Json.ofCount _).document.word?, ← (Json.ofCount _).document.word?)) = _
    rw [word?_ofCount, word?_ofCount]
    rfl
  have hfunctions : (Json.array (s.functions.map FunctionInfo.toJson)).document.items?.bind
      (fun ds => ds.mapM (FunctionInfo.ofDocument? true (Json.maxDepth - 4)))
        = some s.functions := mapM_items?_array fun f hf =>
    FunctionInfo.ofDocument?_document (hs.functions f hf) (hfloatless.functions f hf)
  have htags : (tableToJson (fun t => .object t.entries) s.tags).document.addressTable?
      (tagTable? (Json.maxDepth - 3)) = some s.tags := addressTable?_document fun b hb =>
    tagTable?_document (hs.tags b hb) (hfloatless.tags b hb)
  have hcomments : (tableToJson ExtraLines.toJson s.extraComments).document.addressTable?
      (ExtraLines.ofDocument? true) = some s.extraComments := addressTable?_document fun b hb =>
    ExtraLines.ofDocument?_document (hs.extraComments b hb)
  have hsegments : (Json.array (s.segments.map Segment.toJson)).document.items?.bind
      (fun ds => ds.mapM (Segment.ofDocument? true)) = some s.segments :=
    mapM_items?_array fun g _ => g.ofDocument?_document true
  have hcursor : withDefault? none (optional? word?)
      (s.cursor.map fun a => (Json.ofCount a.toNat).document) = some s.cursor := by
    cases s.cursor with
    | none => rfl
    | some a => exact congrArg (Option.map some) (word?_ofCount a)
  unfold ofDocument? jsonDialect
  dsimp only
  rw [s.record?_document]
  simp only [Option.bind_eq_bind, Option.bind_some, required?, withDefault?_some, hbounds,
    addressSet?_document, htags, hcomments]
  rw [hfunctions, hsegments, hcursor]
  rfl

/-! ## Canonical texts -/

namespace Json

/-- A list is without floats if the form of each element is. -/
theorem floatless_array {α : Type} {toJson : α → Json} {l : List α}
    (h : ∀ a ∈ l, (toJson a).Floatless) : (array (l.map toJson)).Floatless := by
  refine (floatlessItems_iff _).2 fun v hv => ?_
  obtain ⟨a, ha, rfl⟩ := List.mem_map.1 hv
  exact h a ha

/-- A table by addresses is without floats if the form of each value is. -/
theorem floatless_table {α : Type} {toJson : α → Json} {t : Table Address α}
    (h : ∀ b ∈ t.entries, (toJson b.2).Floatless) :
    (Snapshot.tableToJson toJson t).Floatless := by
  refine (floatlessMembers_iff _).2 fun m hm => ?_
  obtain ⟨b, hb, rfl⟩ := List.mem_map.1 hm
  exact h b hb

end Json

/-- A function is written without floats if its tags are. -/
theorem FunctionInfo.floatless_toJson {f : FunctionInfo} (h : TagTable.Floatless f.tags) :
    f.toJson.Floatless := by
  have hchunks : (Json.array (f.chunks.map Chunk.toJson)).Floatless :=
    Json.floatless_array fun _ _ => ⟨trivial, trivial, trivial⟩
  unfold toJson
  split
  · exact ⟨trivial, hchunks, trivial⟩
  · exact ⟨trivial, hchunks, h.toJson, trivial⟩

namespace Snapshot

variable {s : Snapshot}

/-- A snapshot is written without floats if its tags are. -/
theorem Floatless.toJson (h : s.Floatless) : s.toJson.Floatless := by
  have haddresses (s : KeySet Address) : (addressesToJson s).Floatless :=
    Json.floatless_array fun _ _ => trivial
  have hfunctions : (Json.array (s.functions.map FunctionInfo.toJson)).Floatless :=
    Json.floatless_array fun f hf => FunctionInfo.floatless_toJson (h.functions f hf)
  have htags : (tableToJson (fun t => .object t.entries) s.tags).Floatless :=
    Json.floatless_table fun b hb => (h.tags b hb).toJson
  have hcomments : (tableToJson ExtraLines.toJson s.extraComments).Floatless :=
    Json.floatless_table fun _ _ => ⟨trivial, trivial, trivial⟩
  have hsegments : (Json.array (s.segments.map Segment.toJson)).Floatless :=
    Json.floatless_array fun _ _ => ⟨trivial, trivial, trivial, trivial, trivial⟩
  refine ⟨⟨trivial, trivial, trivial⟩, haddresses _, hfunctions, htags, haddresses _, hcomments,
    hsegments, ?_⟩
  cases s.cursor with
  | none => trivial
  | some a => exact ⟨trivial, trivial⟩

/-- A checked snapshot is the same one, and passes the check. -/
theorem checked_eq_ok_iff {s' : Snapshot} :
    s.checked = .ok s' ↔ s = s' ∧ s.check = .ok () := by
  unfold checked
  cases hcheck : s.check with
  | error fault => simp
  | ok _ => simp

/-- A snapshot that was read has passed the check. -/
theorem parseJson_eq_ok_iff {text : String} :
    parseJson text = .ok s ↔
      (Json.read? text).bind (ofDocument? jsonDialect) = some s ∧ s.check = .ok () := by
  unfold parseJson
  cases (Json.read? text).bind (ofDocument? jsonDialect) with
  | none => simp
  | some s' =>
    show s'.checked = .ok s ↔ some s' = some s ∧ _
    rw [checked_eq_ok_iff, Option.some.injEq]
    exact and_congr_right fun h => by rw [h]

/-- What was read from a text is read again from the text that is written, if there is no double in
it. -/
theorem parseJson_text {text : String} (h : parseJson text = .ok s) (hfloatless : s.Floatless) :
    parseJson s.text = .ok s := by
  obtain ⟨hdecoded, hcheck⟩ := parseJson_eq_ok_iff.1 h
  obtain ⟨d, hd, hs⟩ := Option.bind_eq_some_iff.1 hdecoded
  have hwritable := writable_of_ofDocument? (Json.readable_of_read? hd) hs
  have hread : Json.read? s.text = some s.toJson.document :=
    Json.read?_compact hfloatless.toJson.legible
  refine parseJson_eq_ok_iff.2 ⟨?_, hcheck⟩
  rw [hread]
  exact ofDocument?_document hwritable hfloatless

end Snapshot

/-- A snapshot that was read from a text, however it is written there, and has no double in its tags
is read again from its canonical text. So two such texts have the same canonical text exactly if
they mean the same snapshot. -/
theorem snapshot_text_is_canonical {text : String} {s : Snapshot}
    (h : Snapshot.parseJson text = .ok s) (hfloatless : s.Floatless) :
    Snapshot.parseJson s.text = .ok s ∧
      ∀ text' s', Snapshot.parseJson text' = .ok s' → s'.Floatless →
        (s.text = s'.text ↔ s = s') := by
  refine ⟨Snapshot.parseJson_text h hfloatless, fun text' s' h' hfloatless' => ⟨fun htext => ?_,
    congrArg Snapshot.text⟩⟩
  have hagain := Snapshot.parseJson_text h hfloatless
  rw [htext, Snapshot.parseJson_text h' hfloatless'] at hagain
  exact (Except.ok.inj hagain).symm

/-- A text with fields out of order and left out, records that are arrays, an address that is given
twice, and the greatest address. -/
def Snapshot.looseText : String :=
  "\x7b\"tags\":\x7b\"16\":\x7b\"x\":1\x7d,"
    ++ "\"16\":\x7b\"x\":[-1,\x7b\"b\":0,\"a\":null\x7d]\x7d\x7d,"
    ++ "\"functions\":[[16,[[16,32]]]],\"extra_comments\":\x7b\"16\":[2]\x7d,"
    ++ "\"heads\":[18446744073709551615,16],\"bounds\":[0,18446744073709551615]\x7d"

/-- What it is read as. -/
def Snapshot.loose : Snapshot where
  low := 0
  high := 0xffffffffffffffff
  heads := KeySet.ofList [16, 0xffffffffffffffff]
  functions := [⟨16, [⟨16, 32⟩], ∅⟩]
  tags := .ofList [(16, .ofList [("x", .array [.int (-1), .object [("a", .null), ("b", .int 0)]])])]
  customNames := ∅
  extraComments := .ofList [(16, ⟨2, 0⟩)]
  segments := []
  cursor := none

/-- The sample snapshot has no floats. -/
theorem Snapshot.floatless_loose : loose.Floatless where
  functions f hf := by
    obtain rfl := List.mem_singleton.1 hf
    exact fun b hb => absurd hb List.not_mem_nil
  tags b hb := by
    obtain rfl := List.mem_singleton.1 hb
    intro m hm
    obtain rfl := List.mem_singleton.1 hm
    exact ⟨trivial, ⟨trivial, trivial, trivial⟩, trivial⟩

/-- A loose text and the canonical one give the same snapshot. -/
theorem snapshot_text_is_canonical_loose :
    Snapshot.parseJson Snapshot.looseText = .ok .loose ∧
    Snapshot.parseJson Snapshot.loose.text = .ok .loose ∧
    Snapshot.loose.text ≠ (Snapshot.empty 0 64).text := by
  have hloose : Snapshot.parseJson Snapshot.looseText = .ok .loose := by decide +kernel
  have hempty : Snapshot.parseJson "\x7b\"bounds\":[0,64]\x7d" = .ok (.empty 0 64) := by
    decide +kernel
  have hnone : (Snapshot.empty 0 64).Floatless :=
    ⟨fun f hf => absurd hf List.not_mem_nil, fun b hb => absurd hb List.not_mem_nil⟩
  obtain ⟨hagain, htexts⟩ := snapshot_text_is_canonical hloose Snapshot.floatless_loose
  exact ⟨hloose, hagain, fun htext => absurd ((htexts _ _ hempty hnone).1 htext) (by decide)⟩

end TagCache
