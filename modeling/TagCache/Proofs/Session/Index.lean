import TagCache.Proofs.Entry.Reread
import TagCache.Proofs.Session.Verify
import TagCache.Proofs.Text.Lines

/-!
# The check of the index

The check of the index goes through the stored keys one by one and tells of each what is wrong with
it (`Snapshot.indexReport`): a key that no function owns, a key that another function owns, or the
fields of a function's document. It never ends early on what it finds
(`Session.writes_verifyKeys`). Only the document of a function makes it fail, if that is no JSON
object (`Session.ends_verifyKeys`); documents under other keys are not read.
-/

namespace TagCache

open Text (SingleLine)

/-! ## Fields of a document -/

namespace Entry

/-- The names of the fields of a stored text, if it holds an object. -/
def fieldsOf? (text : String) : Option (KeySet String) :=
  match Json.parse? text with
  | some (.object members) => some (KeySet.ofList (members.map (·.1)))
  | _ => none

/-- A text that parses has the fields of the entry. -/
theorem fieldsOf?_of_parse {p : Partition} {text : String} {e : Entry} (h : parse p text = .ok e) :
    fieldsOf? text = some e.keys := by
  unfold fieldsOf?
  rw [parse?_of_parse h]
  rfl

/-- A text without fields does not parse. -/
theorem parse_of_fieldsOf?_eq_none (p : Partition) {text : String} (h : fieldsOf? text = none) :
    ∃ failure, parse p text = .error failure := by
  cases hparse : parse p text with
  | error failure => exact ⟨failure, rfl⟩
  | ok e =>
    rw [fieldsOf?_of_parse hparse] at h
    cases h

/-- A text with fields parses to an entry that has them. -/
theorem exists_parse_of_fieldsOf? (p : Partition) {text : String} {fields : KeySet String}
    (h : fieldsOf? text = some fields) : ∃ e, parse p text = .ok e ∧ e.keys = fields := by
  unfold fieldsOf? at h
  split at h
  · next members hparse =>
    have hentry : parse p text = .ok ⟨p, Table.ofList members⟩ := by
      unfold parse
      rw [hparse]
    have hfields := fieldsOf?_of_parse hentry
    rw [fieldsOf?, hparse] at hfields
    exact ⟨_, hentry, (Option.some.inj hfields).symm.trans (Option.some.inj h)⟩
  · cases h

end Entry

/-! ## Reports -/

/-- A line, if there are items to tell of. -/
def lineIfAny (items : List String) (line : String) : List String :=
  if items.isEmpty then [] else [line]

/-- What there is to say about the fields of a function's document. -/
def fieldsReport (a : Address) (fields : KeySet String) : List String :=
  let unsupported := fields.diff expectedFields
  let missing := expectedFields.diff fields
  lineIfAny unsupported ("[" ++ a.text
      ++ "] the index item for this function contains unsupported keys (" ++ joined unsupported
      ++ ")")
    ++ lineIfAny missing ("[" ++ a.text
      ++ "] the index item for this function is missing the required keys (" ++ joined missing
      ++ ")")

/-- What there is to say about a stored key and its document. -/
def Snapshot.indexReport (db : Snapshot) (a : Address) (text : String) : List String :=
  match db.functionOf? a with
  | none => ["[" ++ a.text ++ "] the item in the index (" ++ a.text
      ++ ") has been orphaned and is not associated with a function"]
  | some owner =>
    if owner ≠ a then ["[" ++ a.text ++ "] the item has the wrong parent (" ++ a.text
      ++ ") and should be owned by " ++ owner.text]
    else match Entry.fieldsOf? text with
      | none => []
      | some fields => fieldsReport a fields

/-- The report on a function with fields is about them. -/
theorem Snapshot.indexReport_of_fields {db : Snapshot} {a : Address} {text : String}
    {fields : KeySet String} (ha : db.functionOf? a = some a)
    (hfields : Entry.fieldsOf? text = some fields) :
    db.indexReport a text = fieldsReport a fields := by
  unfold indexReport
  rw [ha]
  simp only [ne_eq, not_true_eq_false, if_false, hfields]

/-- The key is the entry point of a function, and its document has exactly the expected fields. -/
def Snapshot.Indexed (db : Snapshot) (a : Address) (text : String) : Prop :=
  db.functionOf? a = some a ∧ Entry.fieldsOf? text = some expectedFields

/-- The key is the entry point of a function, and its document is no object. -/
def Snapshot.Unreadable (db : Snapshot) (a : Address) (text : String) : Prop :=
  db.functionOf? a = some a ∧ Entry.fieldsOf? text = none

instance (db : Snapshot) (a : Address) (text : String) : Decidable (db.Indexed a text) :=
  inferInstanceAs (Decidable (_ ∧ _))

namespace Session

variable {db : Snapshot} {s : Store} {c : Table Address String} {a : Address} {text : String}

/-! ## One key -/

/-- A line that is written if there are items to tell of, before the rest. -/
theorem Writes.lineIfAny {b : Bool} {ls : List String} {rest : Unit → Session Bool}
    (items : List String) (line : String) (h : Writes (rest ()) s b s ls) :
    Writes (if (!items.isEmpty) = true then Session.writeLine line >>= rest else rest ()) s b s
      ((TagCache.lineIfAny items line).flatMap Text.lines ++ ls) := by
  unfold TagCache.lineIfAny
  cases items.isEmpty with
  | true => exact h
  | false => simpa using (Writes.writeLine line).bind h

/-- The fields of a document are reported, and are accepted if there is nothing to report. -/
theorem writes_verifyFields (a : Address) (e : Entry) :
    Writes (verifyFields a e) s (decide (e.keys = expectedFields)) s
      ((fieldsReport a e.keys).flatMap Text.lines) := by
  have haccepts : ((expectedFields.keysBeyond e.keys).isEmpty
      && (e.keys.keysBeyond expectedFields).isEmpty) = decide (e.keys = expectedFields) := by
    rw [Bool.eq_iff_iff, Bool.and_eq_true, List.isEmpty_iff, List.isEmpty_iff, decide_eq_true_iff]
    exact Table.keysBeyond_eq_nil_and_iff
  unfold verifyFields
  rw [fieldsReport, List.flatMap_append, ← haccepts]
  refine Writes.lineIfAny _ _ ?_
  rw [← List.append_nil (List.flatMap _ _)]
  exact Writes.lineIfAny _ _ .pure

/-- The document of a function is read where the key is its entry point. -/
theorem verifyKey_of_owner (ha : db.functionOf? a = some a) :
    verifyKey db a = (do
      visit a
      match ← asks (·.readContents a) with
      | none => return true
      | some e => verifyFields a e) := by
  unfold verifyKey
  rw [ha]
  exact bind_congr fun _ => if_neg (not_not.2 rfl)

/-- A line about a key that is not accepted. -/
theorem writes_refused (line : String) :
    Writes (writeLine line >>= fun _ => pure false) s false s ([line].flatMap Text.lines) := by
  rw [List.flatMap_singleton]
  exact (Writes.writeLine line).then_wordless .pure

/-- A key is checked and reported, whatever is found, unless its document cannot be read. -/
theorem writes_verifyKey (hc : s.contents = some c) (ha : c.find? a = some text)
    (hread : ¬db.Unreadable a text) :
    Writes (verifyKey db a) s (decide (db.Indexed a text)) s
      ((db.indexReport a text).flatMap Text.lines) := by
  unfold Snapshot.indexReport
  cases howner : db.functionOf? a with
  | none =>
    have hout : decide (db.Indexed a text) = false := by simp [Snapshot.Indexed, howner]
    rw [hout]
    unfold verifyKey
    rw [howner]
    exact writes_refused _
  | some owner =>
    by_cases hne : owner = a
    · subst hne
      have hfields : Entry.fieldsOf? text ≠ none := fun h => hread ⟨howner, h⟩
      obtain ⟨fields, hfields⟩ := Option.ne_none_iff_exists'.1 hfields
      obtain ⟨e, hparse, rfl⟩ := Entry.exists_parse_of_fieldsOf? (.contents owner) hfields
      have hentry : s.readContents owner = .ok (some e) := by
        rw [Store.readContents_eq hc, ha]
        simp only [hparse]
        rfl
      have hin : decide (db.Indexed owner text) = decide (e.keys = expectedFields) := by
        simp [Snapshot.Indexed, howner, hfields]
      rw [hin, verifyKey_of_owner howner]
      simp only [ne_eq, not_true_eq_false, if_false, hfields]
      refine (Writes.visit owner).bind_wordless ((Writes.asks hentry).bind_wordless ?_)
      exact writes_verifyFields owner e
    · have hout : decide (db.Indexed a text) = false := by simp [Snapshot.Indexed, howner, hne]
      rw [hout]
      unfold verifyKey
      rw [howner]
      simp only [ne_eq, hne, not_false_eq_true, if_true]
      refine (Writes.visit owner).bind_wordless ?_
      exact writes_refused _

/-- The check fails at the document of a function that is no object. -/
theorem ends_verifyKey (hc : s.contents = some c) (ha : c.find? a = some text)
    (h : db.Unreadable a text) : ∃ failure, Ends (verifyKey db a) s (.error failure) s := by
  obtain ⟨failure, hparse⟩ := Entry.parse_of_fieldsOf?_eq_none (.contents a) h.2
  have hentry : s.readContents a = .error failure := by
    rw [Store.readContents_eq hc, ha]
    simp only [hparse]
    rfl
  refine ⟨failure, ?_⟩
  rw [verifyKey_of_owner h.1]
  refine (Reaches.visit a).ends_bind ?_
  exact Ends.bind (Ends.asks hentry)

/-! ## All keys -/

section
variable {l : List (Address × String)}

/-- All keys are checked and reported in their order, if their documents can be read where they
have to be. -/
theorem writes_verifyKeys (hc : s.contents = some c) (hl : ∀ k ∈ l, c.find? k.1 = some k.2)
    (hread : ∀ k ∈ l, ¬db.Unreadable k.1 k.2) :
    Writes (verifyKeys db (l.map (·.1))) s (l.all fun k => decide (db.Indexed k.1 k.2)) s
      ((l.flatMap fun k => db.indexReport k.1 k.2).flatMap Text.lines) := by
  induction l with
  | nil => exact .pure
  | cons k l ih =>
    obtain ⟨hk, hrest⟩ := List.forall_mem_cons.1 hl
    obtain ⟨hkread, hrestread⟩ := List.forall_mem_cons.1 hread
    rw [List.flatMap_cons, List.flatMap_append]
    refine (writes_verifyKey hc hk hkread).bind ?_
    exact (ih hrest hrestread).then_wordless .pure

/-- The check fails if the document of a function is no object, whatever stands before it. -/
theorem ends_verifyKeys (hc : s.contents = some c) (hl : ∀ k ∈ l, c.find? k.1 = some k.2)
    (h : ∃ k ∈ l, db.Unreadable k.1 k.2) :
    ∃ failure, Ends (verifyKeys db (l.map (·.1))) s (.error failure) s := by
  induction l with
  | nil => simp at h
  | cons k l ih =>
    obtain ⟨hk, hrest⟩ := List.forall_mem_cons.1 hl
    by_cases hkread : db.Unreadable k.1 k.2
    · obtain ⟨failure, hends⟩ := ends_verifyKey hc hk hkread
      exact ⟨failure, hends.bind⟩
    · have hlater : ∃ k ∈ l, db.Unreadable k.1 k.2 := by simpa [hkread] using h
      obtain ⟨failure, hends⟩ := ih hrest hlater
      have hfirst := (writes_verifyKey hc hk hkread).reaches
      exact ⟨failure, hfirst.ends_bind hends.bind⟩

end

/-! ## Reports on one line -/

/-- A line that lists texts of one line. -/
theorem singleLine_of_mem_lineIfAny {items : List String} {label line : String}
    (hlabel : SingleLine label) (hitems : ∀ item ∈ items, SingleLine item)
    (h : line ∈ lineIfAny items ("[" ++ a.text ++ label ++ joined items ++ ")")) :
    SingleLine line := by
  unfold lineIfAny at h
  split at h
  · cases h
  · have hjoined : SingleLine (joined items) := .intercalate .literal hitems
    rw [List.mem_singleton.1 h]
    exact .append (.append (a.singleLine_bracketed hlabel) hjoined) .literal

/-- Reports stay on one line unless the name of a field does not. -/
theorem singleLine_of_mem_indexReport {line : String}
    (hnames : db.functionOf? a = some a → ∀ fields, Entry.fieldsOf? text = some fields →
      ∀ field ∈ fields.toList, SingleLine field)
    (h : line ∈ db.indexReport a text) : SingleLine line := by
  have hexpected : ∀ item ∈ expectedFields.toList, SingleLine item := by decide
  unfold Snapshot.indexReport at h
  split at h
  · rw [List.mem_singleton.1 h]
    have hlabel : SingleLine ("[" ++ a.text ++ "] the item in the index (") :=
      a.singleLine_bracketed .literal
    exact .append (.append hlabel a.singleLine_text) .literal
  · next owner howner =>
    split at h
    · rw [List.mem_singleton.1 h]
      have hlabel : SingleLine ("[" ++ a.text ++ "] the item has the wrong parent (") :=
        a.singleLine_bracketed .literal
      exact .append (.append (.append hlabel a.singleLine_text) .literal)
        owner.singleLine_text
    · next hne =>
      obtain rfl := not_not.1 hne
      split at h
      · cases h
      · next fields hfields =>
        obtain h | h := List.mem_append.1 h
        · refine singleLine_of_mem_lineIfAny .literal (fun item hitem => ?_) h
          exact hnames howner fields hfields item (List.mem_filter.1 hitem).1
        · refine singleLine_of_mem_lineIfAny .literal (fun item hitem => ?_) h
          exact hexpected item (List.mem_filter.1 hitem).1

end Session

open Session

/-- The check of the index fails exactly where the document of a function is no object: documents
under keys that are no entry point are not read. Otherwise it accepts the index if every key is the
entry point of a function and has the two fields, and its lines are the reports on all keys in
order. The name of a field stands in a report as it is; if no such name has a line feed, each report
is one line. -/
theorem index_check_reports_all (db : Snapshot) {s : Store} {c : Table Address String}
    (hc : s.contents = some c) :
    let checked := outcome (verifyIndex db) (.start s none)
    let reports := c.entries.flatMap fun k => db.indexReport k.1 k.2
    ((∃ failure, checked.1 = .error failure) ↔
      ∃ a text, c.find? a = some text ∧ db.functionOf? a = some a ∧
        Entry.fieldsOf? text = none) ∧
    ∀ b, checked.1 = .ok b →
      (b = true ↔ ∀ a text, c.find? a = some text →
        db.functionOf? a = some a ∧ Entry.fieldsOf? text = some expectedFields) ∧
      checked.2.lines = reports.flatMap Text.lines ∧
      ((∀ a text, c.find? a = some text → db.functionOf? a = some a →
        ∀ fields, Entry.fieldsOf? text = some fields → ∀ field ∈ fields.toList, SingleLine field) →
        checked.2.lines = reports) := by
  intro checked reports
  have hkeys : s.contentsKeys = .ok (c.entries.map (·.1)) := by
    rw [Store.contentsKeys, hc]
    rfl
  have hall : ∀ k ∈ c.entries, c.find? k.1 = some k.2 := fun k hk => Table.find?_eq_some_iff.2 hk
  -- the first document that cannot be read ends the check, and without one all keys are reported
  by_cases hread : ∃ k ∈ c.entries, db.Unreadable k.1 k.2
  · obtain ⟨failure, hends⟩ := ends_verifyKeys hc hall hread
    obtain ⟨events, hrun⟩ := ((Reaches.asks hkeys).ends_bind hends).outcome_start
    have hresult : checked.1 = .error failure := congrArg Prod.fst hrun
    obtain ⟨k, hk, howner, hfields⟩ := hread
    refine ⟨⟨fun _ => ⟨k.1, k.2, hall k hk, howner, hfields⟩, fun _ => ⟨failure, hresult⟩⟩, ?_⟩
    intro b hb
    rw [hresult] at hb
    cases hb
  · have hread' : ∀ k ∈ c.entries, ¬db.Unreadable k.1 k.2 := fun k hk h => hread ⟨k, hk, h⟩
    obtain ⟨hresult, hlines⟩ :=
      ((Writes.asks hkeys).bind_wordless (writes_verifyKeys hc hall hread')).outcome_start
    have hresult : checked.1 = .ok (c.entries.all fun k => decide (db.Indexed k.1 k.2)) := hresult
    have hlines : checked.2.lines = reports.flatMap Text.lines := hlines
    refine ⟨⟨?_, ?_⟩, fun b hb => ⟨?_, hlines, ?_⟩⟩
    · rintro ⟨failure, hfailure⟩
      rw [hresult] at hfailure
      cases hfailure
    · rintro ⟨a, text, hfind, howner, hfields⟩
      exact absurd ⟨howner, hfields⟩ (hread' (a, text) (Table.find?_eq_some_iff.1 hfind))
    · rw [hresult] at hb
      cases hb
      rw [List.all_eq_true]
      refine ⟨fun h a text hfind => ?_, fun h k hk => decide_eq_true (h k.1 k.2 (hall k hk))⟩
      exact of_decide_eq_true (h (a, text) (Table.find?_eq_some_iff.1 hfind))
    · intro hnames
      rw [hlines]
      refine Text.flatMap_lines fun line hline => ?_
      obtain ⟨k, hk, hline⟩ := List.mem_flatMap.1 hline
      exact singleLine_of_mem_indexReport (hnames k.1 k.2 (hall k hk)) hline

/-- A snapshot of two functions. -/
def Snapshot.pair : Snapshot :=
  ((Snapshot.empty 0 64).withFunction 40 40 48).withFunction 16 16 32

/-- An entry with a field of its own and none of the expected ones. -/
def Entry.noted : Entry := ⟨.contents 40, Table.ofList [("note", .object [])]⟩

/-- The sample document is given back by its text. -/
theorem Entry.plain_noted : Entry.noted.Plain where
  value := ⟨List.pairwise_singleton _ _, ⟨.nil, trivial⟩, trivial⟩
  depth := by decide

/-- The documents of those two functions, and of two keys that are no entry point. -/
def Snapshot.pairDocuments : List (Address × String) :=
  [(16, (Entry.ofCounts (.contents 16) .unnamed).text), (20, "broken"), (40, Entry.noted.text),
    (56, "broken")]

/-- The documents of the pair have the expected fields, or one field instead of them. -/
theorem Snapshot.fieldsOf?_pairDocuments {a : Address} {text : String}
    (h : (Table.ofList pairDocuments).find? a = some text)
    (ha : Snapshot.pair.functionOf? a = some a) :
    Entry.fieldsOf? text = some (if a = 16 then expectedFields else KeySet.ofList ["note"]) := by
  have hmem : (a, text) ∈ pairDocuments := Table.find?_eq_some_iff.1 h
  simp only [pairDocuments, List.mem_cons, Prod.mk.injEq, List.not_mem_nil, or_false] at hmem
  obtain ⟨rfl, rfl⟩ | ⟨rfl, -⟩ | ⟨rfl, rfl⟩ | ⟨rfl, -⟩ := hmem
  · rw [Entry.fieldsOf?_of_parse (Entry.parse_ofCounts _ Counts.fits_unnamed), Entry.keys_ofCounts]
    rfl
  · cases ha
  · exact Entry.fieldsOf?_of_parse (Entry.parse_text Entry.plain_noted)
  · cases ha

/-- A store with those documents. -/
def Store.disordered : Store :=
  { Store.stale with contents := some (.ofList Snapshot.pairDocuments) }

/-- The check reports all keys that are wrong, in order. -/
theorem index_check_reports_all_disordered :
    Store.disordered.contents = some (.ofList Snapshot.pairDocuments) ∧
    (outcome (verifyIndex .pair) (.start .disordered none)).1 = .ok false ∧
    (outcome (verifyIndex .pair) (.start .disordered none)).2.lines = [
      "[0x14] the item has the wrong parent (0x14) and should be owned by 0x10",
      "[0x28] the index item for this function contains unsupported keys (note)",
      "[0x28] the index item for this function is missing the required keys "
        ++ "(__address__, __tags__)",
      "[0x38] the item in the index (0x38) has been orphaned and is not associated with a function"
    ] := by
  have hc : Store.disordered.contents = some (.ofList Snapshot.pairDocuments) := rfl
  obtain ⟨hfails, hends⟩ := index_check_reports_all .pair hc
  have hreadable : ¬∃ failure,
      (outcome (verifyIndex .pair) (.start .disordered none)).1 = .error failure := by
    rw [hfails]
    rintro ⟨a, text, hfind, howner, hnone⟩
    cases (Snapshot.fieldsOf?_pairDocuments hfind howner).symm.trans hnone
  have hok : ∀ r : Except Failure Bool, (¬∃ failure, r = .error failure) → ∃ b, r = .ok b
    | .ok b, _ => ⟨b, rfl⟩
    | .error failure, h => absurd ⟨failure, rfl⟩ h
  obtain ⟨b, hchecked⟩ := hok _ hreadable
  obtain ⟨haccepts, -, hlines⟩ := hends b hchecked
  have hb : b = false := by
    refine Bool.eq_false_iff.2 fun hb => ?_
    cases (haccepts.1 hb 20 "broken" rfl).1
  rw [hb] at hchecked
  refine ⟨hc, hchecked, (hlines fun a text hfind howner fields h => ?_).trans ?_⟩
  · cases (Snapshot.fieldsOf?_pairDocuments hfind howner).symm.trans h
    split <;> decide
  · have howner : Snapshot.pair.functionOf? 16 = some 16 := rfl
    have howner' : Snapshot.pair.functionOf? 40 = some 40 := rfl
    have h16 := Snapshot.indexReport_of_fields howner
      (Snapshot.fieldsOf?_pairDocuments (a := 16) rfl howner)
    have h40 := Snapshot.indexReport_of_fields howner'
      (Snapshot.fieldsOf?_pairDocuments (a := 40) rfl howner')
    show Snapshot.pair.indexReport 16 _ ++ (_ ++ (Snapshot.pair.indexReport 40 _ ++ _)) = _
    rw [h16, h40]
    decide +kernel

end TagCache
