import TagCache.Proofs.Session.Index
import TagCache.Proofs.Session.Increment
import TagCache.Proofs.Session.Script

/-!
# Fields beyond the expected ones

An update of a function's document reads all of it and writes all of it again, and changes nothing
but the two tables of counts. So the other fields (`Entry.extras`) stay what they are, if there is
no double among them, through every call that does not remove the document
(`Store.HasExtras.run`), whether the call succeeds or fails. And no check accepts a document with
such a field, whatever else it has (`verifyIndex_of_extras`, `verifyContents_of_extras`).
-/

namespace TagCache

open Session

/-! ## Fields of an entry -/

namespace Entry

/-- The fields beyond the expected ones. -/
def extras (e : Entry) : Table String Json := e.fields.filter fun k _ => !expectedFields.contains k

variable {e : Entry}

/-- The extra fields of an entry are those that are not expected. -/
theorem find?_extras (e : Entry) (k : String) :
    e.extras.find? k = if expectedFields.contains k then none else e.fields.find? k := by
  unfold extras
  rw [Table.find?_filter_key]
  cases expectedFields.contains k <;> rfl

/-- A field that is not one of the tables is an extra one. -/
theorem find?_extras_of_ne (e : Entry) {k : String} (hn : k ≠ namesField)
    (ha : k ≠ addressesField) : e.extras.find? k = e.fields.find? k := by
  have hk : ¬expectedFields.contains k = true := by
    intro h
    rcases List.mem_pair.1 (KeySet.contains_ofList.1 h) with rfl | rfl
    · exact hn rfl
    · exact ha rfl
  rw [find?_extras, if_neg hk]

/-- A table of counts is none of them. -/
theorem extras_overlay {field : String} (h : expectedFields.contains field = true)
    (counts : List (String × Nat)) : (e.overlay field counts).extras = e.extras := by
  refine Table.ext_find? fun k => ?_
  rw [find?_extras, find?_extras]
  split
  · rfl
  · next hk =>
    refine Table.find?_insert_of_ne _ _ ?_
    rintro rfl
    exact hk h

/-- Raising counts keeps the extra fields. -/
theorem extras_raised (c : Counts) (a : Address) (name : String) :
    (e.raised c a name).extras = e.extras :=
  (extras_overlay rfl _).trans (extras_overlay rfl _)

/-- Fields without a double in them are read again as they are. -/
theorem extras_reread (h : ∀ k v, e.extras.find? k = some v → v.Floatless) :
    e.reread.extras = e.extras := by
  refine Table.ext_find? fun k => ?_
  have hfloatless := h k
  rw [find?_extras] at hfloatless ⊢
  rw [find?_extras]
  split at hfloatless
  · next hk => rw [if_pos hk, if_pos hk]
  · next hk =>
    rw [if_neg hk, if_neg hk, reread, Table.find?_mapValues]
    cases hv : e.fields.find? k with
    | none => rfl
    | some v => exact congrArg some (hfloatless v hv).reread_eq

/-- An entry with the expected fields has no other. -/
theorem keys_ne_of_extras (h : e.extras ≠ ∅) : e.keys ≠ expectedFields := by
  intro hkeys
  refine h (Table.ext_find? fun k => ?_)
  rw [find?_extras, ← hkeys]
  split
  · rfl
  · next hk =>
    refine Table.find?_eq_none_iff.2 fun hmem => hk ?_
    exact KeySet.contains_ofList.2 hmem

end Entry

/-! ## Calls of the store -/

namespace Store

/-- The document of a function is an entry with the given fields beyond the expected ones. -/
def HasExtras (s : Store) (f : Address) (x : Table String Json) : Prop :=
  ∃ text e, s.document? f = some text ∧ Entry.parse (.contents f) text = .ok e ∧ e.extras = x

/-- The counts that an increment of a function starts from, if its document decodes. -/
def counts? (s : Store) (f : Address) : Option Counts :=
  (s.start f).toOption.bind fun e => e.counts.toOption

/-- The call does not remove the document of a function, gives it counts of 64 bits only, and raises
no count that is at its limit. -/
def Spares (s : Store) (f : Address) : StoreCall → Prop
  | .change (.setNames p t) => p = .contents f → t.Words
  | .change (.setAddresses p t) => p = .contents f → t.Words
  | .change (.increment p a name) => p = .contents f → ∀ c ∈ s.counts? f, Entry.Spare c a name
  | .change (.removeContents g) => g ≠ f
  | .change (.removeGlobal _) => True
  | .deleteAll p => p ≠ .contents f

instance (s : Store) (f : Address) : ∀ call, Decidable (s.Spares f call)
  | .change (.setNames _ _) => inferInstanceAs (Decidable (_ → _))
  | .change (.setAddresses _ _) => inferInstanceAs (Decidable (_ → _))
  | .change (.increment _ _ _) => inferInstanceAs (Decidable (_ → _))
  | .change (.removeContents _) => inferInstanceAs (Decidable (_ ≠ _))
  | .change (.removeGlobal _) => inferInstanceAs (Decidable True)
  | .deleteAll _ => inferInstanceAs (Decidable (_ ≠ _))

/-- So it is with each of the calls where it is made. -/
def SparesAll (s : Store) (f : Address) : List StoreCall → Prop
  | [] => True
  | call :: calls => s.Spares f call ∧ (call.run s).2.SparesAll f calls

instance decidableSparesAll (f : Address) :
    ∀ (calls : List StoreCall) (s : Store), Decidable (s.SparesAll f calls)
  | [], _ => inferInstanceAs (Decidable True)
  | call :: calls, s =>
    have := decidableSparesAll f calls (call.run s).2
    inferInstanceAs (Decidable (_ ∧ _))

namespace HasExtras

variable {s s' : Store} {f : Address} {x : Table String Json}

/-- The same document has the same extra fields. -/
theorem congr (h : s.HasExtras f x) (hdoc : s'.document? f = s.document? f) :
    s'.HasExtras f x := by
  unfold HasExtras
  rwa [hdoc]

/-- An update keeps the fields that it keeps in the entry. -/
theorem updateContents (h : s.HasExtras f x) (hx : ∀ k v, x.find? k = some v → v.Floatless)
    {update : Entry → Except Malformation Entry}
    (hupdate : ∀ e e', s.start f = .ok e → update e = .ok e' →
      e'.Writable ∧ e'.partition = e.partition ∧ e'.extras = e.extras) :
    (StoreM.updateContents f update s).2.HasExtras f x := by
  obtain ⟨text, e, hdoc, hparse, rfl⟩ := h
  have hstart : s.start f = .ok e := (start_of_document? hdoc).trans hparse
  cases hresult : update e with
  | error reason =>
    rw [updateContents_of_malformed update hstart hresult]
    exact ⟨text, e, hdoc, hparse, rfl⟩
  | ok e' =>
    obtain ⟨hwritable, hpartition, hextras⟩ := hupdate e e' hstart hresult
    have hcontents : s.contents.isSome := Option.isSome_of_isSome_bind (Option.isSome_of_mem hdoc)
    have hreread : Entry.parse (.contents f) e'.text = .ok e'.reread := by
      rw [← partition_start hstart, ← hpartition, Entry.parse_text_of_writable hwritable]
    rw [updateContents_of_start update hstart hresult]
    refine ⟨e'.text, e'.reread, ?_, hreread, ?_⟩
    · rw [document?_put s hcontents, if_pos rfl]
    · rw [← hextras] at hx ⊢
      exact Entry.extras_reread hx

/-- What is not about the function leaves its document alone. -/
theorem of_leaves (h : s.HasExtras f x) {α : Type} {action : StoreM α}
    (haction : StoreM.Leaves (· == f) action) : (action s).2.HasExtras f x :=
  h.congr ((haction s).document?_eq (beq_self_eq_true f))

/-- A call that spares the document keeps its other fields, whether it succeeds or fails. -/
theorem run (h : s.HasExtras f x) (hx : ∀ k v, x.find? k = some v → v.Floatless)
    {call : StoreCall} (hcall : s.Spares f call) : (call.run s).2.HasExtras f x := by
  have hwritable {e : Entry} (he : s.start f = .ok e) : e.Writable := writable_start he
  cases call with
  | deleteAll p =>
    refine h.of_leaves (.deleteAll fun g hg => beq_eq_false_iff_ne.2 ?_)
    rintro rfl
    exact hcall hg
  | change m =>
    -- a change of another function or of the index does not touch the document
    by_cases hm : m.function? = some f
    · cases m with
      | setNames p t =>
        cases p with
        | globals => cases hm
        | contents g =>
          obtain rfl : g = f := Option.some.inj hm
          refine h.updateContents hx fun e e' he hresult => ?_
          cases hresult
          exact ⟨(hwritable he).overlay _ (Table.words_iff.1 (hcall rfl)), rfl,
            Entry.extras_overlay rfl _⟩
      | setAddresses p t =>
        cases p with
        | globals => cases hm
        | contents g =>
          obtain rfl : g = f := Option.some.inj hm
          refine h.updateContents hx fun e e' he hresult => ?_
          cases hresult
          refine ⟨(hwritable he).overlay _ fun b hb => ?_, rfl, Entry.extras_overlay rfl _⟩
          obtain ⟨a, ha, rfl⟩ := List.mem_map.1 hb
          exact Table.words_iff.1 (hcall rfl) a ha
      | increment p a name =>
        cases p with
        | globals => cases hm
        | contents g =>
          obtain rfl : g = f := Option.some.inj hm
          refine h.updateContents hx fun e e' he hresult => ?_
          obtain ⟨c, hcounts⟩ := Entry.decodes_of_increment hresult
          have hspare : Entry.Spare c a name := hcall rfl c <| by
            rw [counts?, he]
            exact congrArg Except.toOption hcounts
          rw [Entry.increment_of_counts hcounts hspare] at hresult
          cases hresult
          exact ⟨(hwritable he).raised hspare, rfl, Entry.extras_raised c a name⟩
      | removeContents g => exact absurd (Option.some.inj hm) hcall
      | removeGlobal k => cases hm
    · refine h.of_leaves (Mutation.apply_sameOutside fun g hg => beq_eq_false_iff_ne.2 ?_)
      rintro rfl
      exact hm hg

/-- So do all of them. -/
theorem replay (h : s.HasExtras f x) (hx : ∀ k v, x.find? k = some v → v.Floatless)
    {calls : List StoreCall} (hcalls : s.SparesAll f calls) :
    (replayCalls StoreCall.run calls s).2.HasExtras f x := by
  induction calls generalizing s with
  | nil => exact h
  | cons call calls ih => exact ih (h.run hx hcalls.1) hcalls.2

/-- A function with extra fields has an entry that can be read. -/
theorem exists_readContents (h : s.HasExtras f x) :
    ∃ e, s.readContents f = .ok (some e) ∧ e.extras = x := by
  obtain ⟨text, e, hdoc, hparse, hextras⟩ := h
  exact ⟨e, by rw [readContents_of_document? hdoc, hparse]; rfl, hextras⟩

end HasExtras

end Store

/-! ## Checks -/

namespace Session

variable {db : Snapshot} {s : Store} {f : Address} {x : Table String Json}

/-- The check of the index accepts documents with exactly the expected fields. -/
theorem indexed_of_verifyIndex {c : Table Address String} (hc : s.contents = some c)
    (h : (outcome (verifyIndex db) (.start s none)).1 = .ok true) {a : Address} {text : String}
    (ha : c.find? a = some text) : db.Indexed a text := by
  have hkeys : s.contentsKeys = .ok (c.entries.map (·.1)) := by
    rw [Store.contentsKeys, hc]
    rfl
  have hall : ∀ k ∈ c.entries, c.find? k.1 = some k.2 := fun k hk => Table.find?_eq_some_iff.2 hk
  by_cases hread : ∃ k ∈ c.entries, db.Unreadable k.1 k.2
  · obtain ⟨failure, hends⟩ := ends_verifyKeys hc hall hread
    obtain ⟨events, hrun⟩ := ((Reaches.asks hkeys).ends_bind hends).outcome_start
    have hresult := (congrArg Prod.fst hrun).symm.trans h
    cases hresult
  · have hread : ∀ k ∈ c.entries, ¬db.Unreadable k.1 k.2 := fun k hk h => hread ⟨k, hk, h⟩
    have hwrites := (Writes.asks hkeys).bind_wordless (writes_verifyKeys hc hall hread)
    have hresult := Except.ok.inj (hwrites.outcome_start.1.symm.trans h)
    exact of_decide_eq_true
      (List.all_eq_true.1 hresult (a, text) (Table.find?_eq_some_iff.1 ha))

/-- A store with extra fields is not accepted by the check of the index. -/
theorem verifyIndex_of_extras (h : s.HasExtras f x) (hx : x ≠ ∅) (room : Option Nat) :
    (outcome (verifyIndex db) (.start s room)).1 ≠ .ok true := by
  intro hroom
  obtain ⟨text, e, hdoc, hparse, rfl⟩ := h
  obtain ⟨c, hc, hf⟩ := Option.bind_eq_some_iff.1 hdoc
  have hresult := compositional_scripted.verifyIndex.relaxes.result hroom
  have hfields := (indexed_of_verifyIndex hc hresult hf).2
  rw [Entry.fieldsOf?_of_parse hparse] at hfields
  exact Entry.keys_ne_of_extras hx (Option.some.inj hfields)

/-- A function with extra fields is not accepted by the check of its contents. -/
theorem verifyContents_of_extras (h : s.HasExtras f x) (hx : x ≠ ∅) {a : Address}
    (ha : db.functionOf? a = some f) (room : Option Nat) :
    (outcome (verifyContents db a) (.start s room)).1 ≠ .ok true := by
  intro hroom
  obtain ⟨e, he, rfl⟩ := h.exists_readContents
  have hresult := (compositional_scripted.verifyContents a).relaxes.result hroom
  exact Entry.keys_ne_of_extras hx ((verifyContents_eq_true_iff ha he).1 hresult).1

end Session

/-- Fields beyond the expected ones stay what they are, if there is no double among them, and no
other comes up, whatever calls are made that do not remove the document. As long as there is one, no
check of the index or of the function's cache accepts what is stored. -/
theorem extras_survive {s : Store} {f : Address} {text : String} {e : Entry}
    (hdoc : s.document? f = some text) (hparse : Entry.parse (.contents f) text = .ok e)
    (hfloatless : ∀ k v, e.extras.find? k = some v → v.Floatless) {calls : List StoreCall}
    (hcalls : s.SparesAll f calls) :
    let after := (replayCalls StoreCall.run calls s).2
    ∃ e', after.readContents f = .ok (some e') ∧
      (∀ k, k ≠ namesField → k ≠ addressesField → e'.fields.find? k = e.fields.find? k) ∧
      ((∃ k, k ≠ namesField ∧ k ≠ addressesField ∧ e.fields.contains k = true) →
        ∀ db room, (outcome (verifyIndex db) (.start after room)).1 ≠ .ok true ∧
          ∀ a, db.functionOf? a = some f →
            (outcome (verifyContents db a) (.start after room)).1 ≠ .ok true) := by
  intro after
  have hbefore : s.HasExtras f e.extras := ⟨text, e, hdoc, hparse, rfl⟩
  have hafter : after.HasExtras f e.extras := hbefore.replay hfloatless hcalls
  obtain ⟨e', he', hextras⟩ := hafter.exists_readContents
  refine ⟨e', he', fun k hn ha => ?_, ?_⟩
  · rw [← e'.find?_extras_of_ne hn ha, hextras, e.find?_extras_of_ne hn ha]
  · rintro ⟨k, hn, ha, hk⟩ db room
    have hsome : e.extras ≠ ∅ := by
      intro hempty
      rw [Table.contains_eq, ← e.find?_extras_of_ne hn ha, hempty] at hk
      cases hk
    exact ⟨verifyIndex_of_extras hafter hsome room,
      fun a ha => verifyContents_of_extras hafter hsome ha room⟩

/-- A document with a note of its own, and with an array where its table of addresses should be. -/
def Entry.annotatedText : String :=
  "\x7b\"note\":\x7b\"b\":[1,null],\"a\":\"\\u00e9\"\x7d,"
    ++ "\"__address__\":[],\"__tags__\":\x7b\"x\":5\x7d\x7d"

/-- What it is read as. -/
def Entry.annotated : Entry where
  partition := .contents 16
  fields := Table.ofList [(addressesField, .array []), (namesField, .object [("x", .ofCount 5)]),
    ("note", .object [("a", .string "é"), ("b", .array [.int 1, .null])])]

/-- A store with that document of a function. -/
def Store.annotated : Store :=
  { Store.stale with contents := some (.ofList [(16, Entry.annotatedText)]) }

/-- An increment that fails, since the array is no table, one that does not, since the array was
replaced in between, and a deletion of the index. -/
def StoreCall.annotating : List StoreCall :=
  [.change (.increment (.contents 16) 16 "x"),
    .change (.setAddresses (.contents 16) (.ofList [(16, 5)])),
    .change (.increment (.contents 16) 16 "x"),
    .deleteAll .globals]

/-- The extra fields of the sample have no floats. -/
theorem Entry.floatless_annotated {k : String} {v : Json}
    (h : annotated.extras.find? k = some v) : v.Floatless := by
  have hextras : annotated.extras.entries
      = [("note", .object [("a", .string "é"), ("b", .array [.int 1, .null])])] := rfl
  have hmem := Table.find?_eq_some_iff.1 h
  rw [hextras] at hmem
  obtain ⟨rfl, rfl⟩ := Prod.mk.inj (List.mem_singleton.1 hmem)
  exact ⟨trivial, ⟨trivial, trivial, trivial⟩, trivial⟩

/-- The extra fields of the sample survive calls of all kinds. -/
theorem extras_survive_annotated :
    let after := replayCalls StoreCall.run StoreCall.annotating Store.annotated
    after.1 = [.error (.malformedEntry (.contents 16) (.notTable addressesField (.array []))),
      .ok none, .ok none, .ok (some 1)] ∧
    (∃ e, after.2.readContents 16 = .ok (some e) ∧ e.fields.find? "note"
      = some (.object [("a", .string "é"), ("b", .array [.int 1, .null])])) ∧
    (outcome (verifyIndex .pair) (.start after.2 none)).1 ≠ .ok true ∧
    (outcome (verifyContents .pair 20) (.start after.2 none)).1 ≠ .ok true := by
  intro after
  have hparse : Entry.parse (.contents 16) Entry.annotatedText = .ok .annotated := by
    decide +kernel
  have hcalls : Store.annotated.SparesAll 16 StoreCall.annotating := by decide +kernel
  obtain ⟨e, he, hfields, hchecks⟩ :=
    extras_survive rfl hparse (fun _ _ => Entry.floatless_annotated) hcalls
  obtain ⟨hindex, hcontents⟩ := hchecks ⟨"note", by decide, by decide, rfl⟩ .pair none
  exact ⟨by decide +kernel, ⟨e, he, hfields "note" (by decide) (by decide)⟩, hindex,
    hcontents 20 rfl⟩

end TagCache
