import TagCache.Proofs.Session.Completeness
import TagCache.Proofs.Session.Verify
import TagCache.Proofs.Text.Lines

/-!
# What the check of a cache reports

The check of a function's cache writes nothing exactly if it accepts the cache
(`Finding.lines_eq_nil_iff`). Where it comes to a recount (`Session.ComesToRecount`), the recounted
addresses are those cached ones that carry a tag (`Recount.contains_addresses_found`): none is ever
additional, and the missing ones are the cached ones without a tag
(`Recount.compareCounts_found_of_untagged`). With the same addresses and names on both sides there
is a line for each count that differs, and no other (`mismatchTexts`).
-/

namespace TagCache

open Text (SingleLine)

/-! ## Findings -/

/-- A finding has nothing to report exactly if the cache is accepted. -/
theorem Finding.lines_eq_nil_iff {finding : Finding} (a : Address) :
    finding.lines a = [] ↔ finding.accepts = true := by
  cases finding with
  | recounted f addresses names =>
    rw [accepts_recounted_iff]
    simp [lines, lines.tell]
  | _ => simp [lines, lines.tell, accepts]

/-! ## The recounted addresses -/

namespace Recount

variable {db : Snapshot} {f : Address} {cached : Counts}

/-- The cached addresses without a tag. -/
def untagged (db : Snapshot) (cached : Counts) : List Address :=
  cached.addresses.keys.filter fun b => (db.tagsAt b).isEmpty

/-- No address is additional. -/
theorem keysBeyond_addresses_found :
    cached.addresses.keysBeyond (found db f cached).addresses = [] := by
  rw [Table.keysBeyond_eq_nil_iff]
  intro b hb
  rw [contains_addresses_found, Bool.and_eq_true] at hb
  exact hb.1

/-- The missing addresses are those without a tag. -/
theorem keysBeyond_addresses_cached :
    (found db f cached).addresses.keysBeyond cached.addresses = untagged db cached := by
  refine List.filter_congr fun b hb => ?_
  rw [contains_addresses_found, Table.mem_keys_iff_contains.1 hb]
  simp

/-- No address is untagged if the cached ones are those that were found. -/
theorem untagged_eq_nil_iff : untagged db cached = [] ↔
    (found db f cached).addresses.keys = cached.addresses.keys := by
  rw [← keysBeyond_addresses_cached (f := f)]
  refine ⟨fun h => Table.keys_eq_iff.2 fun b => ?_, Table.keysBeyond_eq_nil_of_keys⟩
  rw [Bool.eq_iff_iff]
  exact ⟨Table.keysBeyond_eq_nil_iff.1 keysBeyond_addresses_found b,
    Table.keysBeyond_eq_nil_iff.1 h b⟩

/-- Where every cached address has a tag, the recounted values are the numbers of tags that are not
left out. -/
theorem getD_found_of_tagged
    (h : ∀ a, cached.addresses.contains a = true → (db.tagsAt a).isEmpty = false) :
    (∀ a, cached.addresses.contains a = true → (found db f cached).addresses.getD a 0
      = (tagsWithout db f (leftOut db f cached) a).size) ∧
    ∀ k, (found db f cached).names.getD k 0 = cached.addresses.keys.countP
      fun a => (tagsWithout db f (leftOut db f cached) a).contains k := by
  obtain ⟨haddresses, hnames⟩ := find?_found_of_tagged (f := f) h
  constructor
  · intro a ha
    obtain ⟨m, hm⟩ := Option.isSome_iff_exists.1 (Table.contains_eq _ a ▸ ha)
    rw [Table.getD, haddresses, hm]
    rfl
  · exact fun k => Table.getD_eq_of_find?_iff (hnames k)

/-- Where the addresses differ, the comparison ends with the missing ones. -/
theorem compareCounts_found_of_untagged (h : untagged db cached ≠ []) :
    compareCounts f cached (found db f cached) = .addressKeys f [] (untagged db cached) := by
  unfold compareCounts
  rw [keysBeyond_addresses_found, keysBeyond_addresses_cached]
  simp [h]

end Recount

/-- Where the keys are the same, the comparison ends with the counts that differ. -/
theorem compareCounts_of_keys {f : Address} {cached found : Counts}
    (haddresses : found.addresses.keys = cached.addresses.keys)
    (hnames : found.names.keys = cached.names.keys) :
    compareCounts f cached found = .recounted f (cached.addresses.mismatches found.addresses)
      (cached.names.mismatches found.names) := by
  unfold compareCounts
  simp only [Table.keysBeyond_eq_nil_of_keys haddresses, Table.keysBeyond_eq_nil_of_keys hnames,
    Table.keysBeyond_eq_nil_of_keys haddresses.symm, Table.keysBeyond_eq_nil_of_keys hnames.symm]
  rfl

/-! ## Lines of a report -/

/-- Lines that start with an address in brackets. -/
theorem flatMap_lines_tell (a : Address) {texts : List String} (h : ∀ t ∈ texts, SingleLine t) :
    (Finding.lines.tell a texts).flatMap Text.lines = Finding.lines.tell a texts := by
  refine Text.flatMap_lines fun line hline => ?_
  obtain ⟨t, ht, rfl⟩ := List.mem_map.1 hline
  exact .append (a.singleLine_bracketed .literal) (h t ht)

/-- A mismatch is told in one line. -/
theorem singleLine_mismatchText {target : String} (h : SingleLine target) (cached found : Nat) :
    SingleLine (mismatchText target cached found) := by
  have hplural : SingleLine (plural cached "s") := by
    unfold plural
    split <;> exact .literal
  have hverb : SingleLine (if found = 1 then " was" else " were") := by
    split <;> exact .literal
  have hcached := Text.singleLine_decimal cached
  have hfound := Text.singleLine_decimal found
  have hexpected : SingleLine ("expected to find " ++ Text.decimal cached ++ " reference"
      ++ plural cached "s" ++ " to " ++ target) :=
    .append (.append (.append (.append (.append .literal hcached) .literal) hplural) .literal) h
  exact .append (.append (.append (.append hexpected .literal) hfound) hverb) .literal

section
variable {κ : Type} [Ord κ]

/-- One text for each cached count that differs from the recounted one. -/
def mismatchTexts (target : κ → String) (cached : Table κ Nat) (recounted : κ → Nat) :
    List String :=
  (cached.entries.filter fun b => decide (recounted b.1 ≠ b.2)).map fun b =>
    mismatchText (target b.1) b.2 (recounted b.1)

/-- Every mismatch that is told is one line. -/
theorem singleLine_of_mem_mismatchTexts {target : κ → String} {cached : Table κ Nat}
    {recounted : κ → Nat} {text : String} (htarget : ∀ k, SingleLine (target k))
    (h : text ∈ mismatchTexts target cached recounted) : SingleLine text := by
  obtain ⟨b, -, rfl⟩ := List.mem_map.1 h
  exact singleLine_mismatchText (htarget b.1) b.2 (recounted b.1)

/-- The report on the counts of a table. -/
theorem map_mismatches [Std.TransOrd κ] [Std.LawfulEqOrd κ] {target : κ → String}
    {cached found : Table κ Nat} {recounted : κ → Nat}
    (h : ∀ k, cached.contains k = true → found.getD k 0 = recounted k) :
    ((cached.mismatches found).map fun (k, n, m) => mismatchText (target k) n m)
      = mismatchTexts target cached recounted := by
  have hcounts : ∀ b ∈ cached.entries, found.getD b.1 0 = recounted b.1 := fun b hb =>
    h b.1 (Table.mem_keys_iff_contains.1 (List.mem_map_of_mem hb))
  unfold Table.mismatches mismatchTexts
  generalize cached.entries = l at hcounts
  induction l with
  | nil => rfl
  | cons b l ih =>
    obtain ⟨hb, hl⟩ := List.forall_mem_cons.1 hcounts
    have hrest := ih hl
    by_cases heq : recounted b.1 = b.2
    · simpa [hb, heq] using hrest
    · simpa [hb, heq] using hrest

end

namespace Session

variable {db : Snapshot} {s : Store} {a f : Address} {cached : Counts}

/-! ## Lines of the check -/

/-- The lines of the report of a finding. -/
def reportLines (a : Address) (finding : Finding) : List String :=
  (finding.lines a).flatMap Text.lines

/-- Nothing is reported of a finding that is accepted. -/
theorem reportLines_eq_nil_iff {finding : Finding} :
    reportLines a finding = [] ↔ finding.accepts = true := by
  rw [← Finding.lines_eq_nil_iff a, reportLines, List.flatMap_eq_nil_iff]
  refine ⟨fun h => ?_, fun h => by simp [h]⟩
  exact List.eq_nil_iff_forall_not_mem.2 fun text htext => Text.lines_ne_nil text (h text htext)

/-- The lines among the events of a report are those of the finding. -/
theorem filterMap_reportEvents (a : Address) (finding : Finding) :
    (reportEvents a finding).filterMap Event.line? = reportLines a finding := by
  unfold reportEvents reportLines
  induction finding.lines a with
  | nil => rfl
  | cons text rest ih =>
    rw [List.flatMap_cons, List.filterMap_append, ih, List.flatMap_cons, List.filterMap_map]
    congr 1
    exact List.filterMap_some

/-- A report writes the lines of the finding. -/
theorem writes_report (a : Address) (finding : Finding) :
    Writes (report a finding) s finding.accepts s (reportLines a finding) :=
  ⟨_, runs_report a finding, filterMap_reportEvents a finding⟩

/-- The check of the cache asked for at an address comes to a recount of the counts of a function:
its entry has the expected fields, its tables decode, and its addresses lie in the function. -/
structure ComesToRecount (db : Snapshot) (s : Store) (a f : Address) (cached : Counts) : Prop where
  owner : db.functionOf? a = some f
  entry : ∃ e, s.readContents f = .ok (some e) ∧ e.keys = expectedFields ∧ e.counts = .ok cached
  inside : ∀ b, cached.addresses.contains b = true → db.functionContains f b = true

/-- A check that comes to the recount writes what that finds. -/
theorem writes_verifyContents_of_recount (h : ComesToRecount db s a f cached) :
    Writes (verifyContents db a) s (compareCounts f cached (Recount.found db f cached)).accepts s
      (reportLines a (compareCounts f cached (Recount.found db f cached))) := by
  obtain ⟨e, he, hfields, hcounts⟩ := h.entry
  refine ⟨_, runs_verifyContents_of_recount h.owner he (checkFields_eq_none_iff.2 hfields) hcounts
    (checkStrays_eq_none_iff.2 h.inside), ?_⟩
  have hvisits : (cached.addresses.keys.flatMap fun b => [Event.visited b]).filterMap Event.line?
      = [] := by
    rw [List.filterMap_eq_nil_iff]
    intro event hevent
    obtain ⟨b, -, hb⟩ := List.mem_flatMap.1 hevent
    rw [List.mem_singleton.1 hb]
    rfl
  rw [List.filterMap_append, hvisits, filterMap_reportEvents]
  rfl

/-- The check ends with a failure, or with the report of what it comes to. -/
theorem verifyContents_reports (db : Snapshot) (s : Store) (a : Address) :
    (∃ failure, (outcome (verifyContents db a) (.start s none)).1 = .error failure) ∨
      ∃ finding, Writes (verifyContents db a) s finding.accepts s (reportLines a finding) := by
  -- each stage of the check ends it, with a finding or a failure, or leads to the next
  cases howner : db.functionOf? a with
  | none =>
    refine .inr ⟨.unresolved, ?_⟩
    unfold verifyContents
    rw [howner]
    exact writes_report a .unresolved
  | some f =>
    cases he : s.readContents f with
    | error failure =>
      have hends : Ends (verifyContents db a) s (.error failure) s := by
        unfold verifyContents
        rw [howner]
        exact Ends.bind (Ends.asks he)
      obtain ⟨events, hrun⟩ := hends.outcome_start
      exact .inl ⟨failure, congrArg Prod.fst hrun⟩
    | ok entry =>
      cases entry with
      | none =>
        refine .inr ⟨.uncached, ?_⟩
        unfold verifyContents
        rw [howner]
        refine (Writes.asks he).bind_wordless ?_
        exact writes_report a .uncached
      | some e =>
        cases hfields : checkFields f e with
        | some finding =>
          exact .inr ⟨finding, _, runs_verifyContents_of_fields howner he hfields,
            filterMap_reportEvents a finding⟩
        | none =>
          cases hcounts : e.counts with
          | error reason =>
            refine .inl ⟨.malformedEntry (.contents f) reason, ?_⟩
            rw [outcome_verifyContents_of_malformed howner he hfields hcounts]
          | ok cached =>
            cases hstrays : checkStrays db f cached with
            | some finding =>
              exact .inr ⟨finding, _, runs_verifyContents_of_strays howner he hfields hcounts
                hstrays, filterMap_reportEvents a finding⟩
            | none =>
              exact .inr ⟨_, writes_verifyContents_of_recount
                ⟨howner, ⟨e, he, checkFields_eq_none_iff.1 hfields, hcounts⟩,
                  checkStrays_eq_none_iff.1 hstrays⟩⟩

/-- The lines about addresses that are missing. -/
theorem reportLines_addressKeys {missing : List Address} (h : missing ≠ []) :
    reportLines a (.addressKeys f [] missing) = Finding.lines.tell f [
      "the address cache for " ++ f.text ++ " is desynchronized and "
        ++ ("is missing " ++ Text.decimal missing.length) ++ " addresses...",
      "...the addresses that are missing are: " ++ joined (missing.map Address.text)] := by
  have hjoined : SingleLine (joined (missing.map Address.text)) := by
    refine .intercalate .literal fun text htext => ?_
    obtain ⟨b, -, rfl⟩ := List.mem_map.1 htext
    exact b.singleLine_text
  have hcount := Text.singleLine_decimal missing.length
  have hlines : (Finding.addressKeys f [] missing).lines a = Finding.lines.tell f [
      "the address cache for " ++ f.text ++ " is desynchronized and "
        ++ ("is missing " ++ Text.decimal missing.length) ++ " addresses...",
      "...the addresses that are missing are: " ++ joined (missing.map Address.text)] := by
    simp [Finding.lines, Finding.lines.listed, differenceText, h]
  unfold reportLines
  rw [hlines]
  refine flatMap_lines_tell f (List.forall_mem_cons.2 ⟨?_, List.forall_mem_singleton.2 ?_⟩)
  · have hfunction : SingleLine ("the address cache for " ++ f.text
        ++ " is desynchronized and ") := .append (.append .literal f.singleLine_text) .literal
    exact .append (.append hfunction (.append .literal hcount)) .literal
  · exact .append .literal hjoined

/-- The lines about counts that differ. -/
theorem reportLines_recounted {found : Counts} {addresses : Address → Nat} {names : String → Nat}
    (haddresses : ∀ b, cached.addresses.contains b = true →
      found.addresses.getD b 0 = addresses b)
    (hnames : ∀ k, cached.names.contains k = true → found.names.getD k 0 = names k) :
    reportLines a (.recounted f (cached.addresses.mismatches found.addresses)
        (cached.names.mismatches found.names))
      = Finding.lines.tell f (
        mismatchTexts (fun b => "address " ++ b.text) cached.addresses addresses
          ++ mismatchTexts (fun k => "tag " ++ Text.quoted k) cached.names names) := by
  have hsingle : ∀ text ∈ mismatchTexts (fun b => "address " ++ b.text) cached.addresses addresses
      ++ mismatchTexts (fun k => "tag " ++ Text.quoted k) cached.names names, SingleLine text := by
    intro text htext
    obtain htext | htext := List.mem_append.1 htext
    · exact singleLine_of_mem_mismatchTexts
        (fun b => .append .literal b.singleLine_text) htext
    · exact singleLine_of_mem_mismatchTexts
        (fun k => .append .literal (Text.singleLine_quoted k)) htext
  rw [← map_mismatches haddresses, ← map_mismatches hnames] at hsingle ⊢
  exact flatMap_lines_tell f hsingle

end Session

open Session

/-- The check of a function's cache accepts it exactly if it writes nothing. Where it comes to a
recount, every recounted address is a cached one. If some cached address is not recounted, those are
the ones without a tag, and the lines tell how many are missing and which; if the addresses and
names are the same, there is one line for each cached address with another number of tags, and then
one for each name that another number of the addresses carries, where some implicit tags of the
entry point may be left out. -/
theorem contents_check_reports_exactly (db : Snapshot) (s : Store) (a : Address) :
    let checked := outcome (verifyContents db a) (.start s none)
    (∀ b, checked.1 = .ok b → (b = true ↔ checked.2.lines = [])) ∧
    ∀ f cached, ComesToRecount db s a f cached →
      let found := Recount.found db f cached
      let tags := Recount.tagsWithout db f (Recount.leftOut db f cached)
      let untagged := cached.addresses.keys.filter fun b => (db.tagsAt b).isEmpty
      (∀ b, found.addresses.contains b = true → cached.addresses.contains b = true) ∧
      (found.addresses.keys ≠ cached.addresses.keys →
        0 < untagged.length ∧ checked.1 = .ok false ∧ checked.2.lines = Finding.lines.tell f [
          "the address cache for " ++ f.text ++ " is desynchronized and "
            ++ ("is missing " ++ Text.decimal untagged.length) ++ " addresses...",
          "...the addresses that are missing are: " ++ joined (untagged.map Address.text)]) ∧
      (found.addresses.keys = cached.addresses.keys → found.names.keys = cached.names.keys →
        checked.1 = .ok checked.2.lines.isEmpty ∧ checked.2.lines = Finding.lines.tell f (
          mismatchTexts (fun b => "address " ++ b.text) cached.addresses (fun b => (tags b).size)
            ++ mismatchTexts (fun k => "tag " ++ Text.quoted k) cached.names
              (fun k => cached.addresses.keys.countP fun b => (tags b).contains k))) := by
  intro checked
  have hsilent : ∀ b, checked.1 = .ok b → (b = true ↔ checked.2.lines = []) := by
    intro b hb
    obtain ⟨failure, hfailure⟩ | ⟨finding, hwrites⟩ := verifyContents_reports db s a
    · cases hfailure.symm.trans hb
    · obtain ⟨hresult, hlines⟩ := hwrites.outcome_start
      cases hresult.symm.trans hb
      rw [← reportLines_eq_nil_iff (a := a), ← hlines]
  refine ⟨hsilent, fun f cached h => ?_⟩
  intro found tags untagged
  obtain ⟨hresult, hlines⟩ := (writes_verifyContents_of_recount h).outcome_start
  refine ⟨fun b hb => ?_, fun haddresses => ?_, fun haddresses hnames => ?_⟩
  · rw [Recount.contains_addresses_found, Bool.and_eq_true] at hb
    exact hb.1
  · have huntagged : Recount.untagged db cached ≠ [] := mt Recount.untagged_eq_nil_iff.1 haddresses
    rw [Recount.compareCounts_found_of_untagged huntagged] at hresult hlines
    rw [reportLines_addressKeys huntagged] at hlines
    exact ⟨List.length_pos_iff.2 huntagged, hresult, hlines⟩
  · have htagged : ∀ b, cached.addresses.contains b = true → (db.tagsAt b).isEmpty = false := by
      intro b hb
      have hin := List.filter_eq_nil_iff.1 (Recount.untagged_eq_nil_iff.2 haddresses) b
      simpa using hin (Table.mem_keys_iff_contains.2 hb)
    obtain ⟨hsizes, hcarriers⟩ := Recount.getD_found_of_tagged (f := f) htagged
    rw [compareCounts_of_keys haddresses hnames] at hresult hlines
    rw [reportLines_recounted hsizes fun k _ => hcarriers k] at hlines
    have haccepts := hsilent _ hresult
    refine ⟨hresult.trans (congrArg Except.ok ?_), hlines⟩
    rw [Bool.eq_iff_iff, haccepts, List.isEmpty_iff]

/-- Counts of the small function with a tag too many. -/
def Counts.inflated : Counts := ⟨.ofList [(20, 3)], .ofList [("x", 2)]⟩

/-- Counts of that function with an address that has no tag. -/
def Counts.padded : Counts := ⟨.ofList [(20, 1), (24, 1)], .ofList [("x", 2)]⟩

/-- The check of the sample comes to the recount of counts within its function. -/
theorem Session.comesToRecount_small {c : Counts} (hc : c.Fits)
    (hin : c.addresses.keys.all (Snapshot.small.functionContains 16) = true) :
    ComesToRecount .small (.holding 16 c) 20 16 c where
  owner := rfl
  entry := ⟨_, Store.readContents_holding hc, Entry.keys_ofCounts _ c, Entry.counts_ofCounts _ c⟩
  inside b hb := List.all_eq_true.1 hin b (Table.mem_keys_iff_contains.2 hb)

/-- Each mismatch of the sample is reported in a line, and so are missing addresses. -/
theorem contents_check_reports_exactly_small :
    (ComesToRecount .small (.holding 16 .inflated) 20 16 .inflated ∧
      (outcome (verifyContents .small 20) (.start (.holding 16 .inflated) none)).2.lines = [
        "[0x10] expected to find 3 references to address 0x14, whereas 1 was found within "
          ++ "the function",
        "[0x10] expected to find 2 references to tag \"x\", whereas 1 was found within "
          ++ "the function"]) ∧
    ComesToRecount .small (.holding 16 .padded) 20 16 .padded ∧
      (outcome (verifyContents .small 20) (.start (.holding 16 .padded) none)).2.lines = [
        "[0x10] the address cache for 0x10 is desynchronized and is missing 1 addresses...",
        "[0x10] ...the addresses that are missing are: 0x18"] := by
  have hinflated := comesToRecount_small (c := .inflated)
    ⟨Table.words_iff.2 (by decide), Table.words_iff.2 (by decide)⟩ rfl
  have hpadded := comesToRecount_small (c := .padded)
    ⟨Table.words_iff.2 (by decide), Table.words_iff.2 (by decide)⟩ rfl
  obtain ⟨-, hreports⟩ := contents_check_reports_exactly .small (.holding 16 .inflated) 20
  obtain ⟨-, -, hcounts⟩ := hreports 16 .inflated hinflated
  obtain ⟨-, hreports'⟩ := contents_check_reports_exactly .small (.holding 16 .padded) 20
  obtain ⟨-, hmissing, -⟩ := hreports' 16 .padded hpadded
  obtain ⟨-, -, hlines⟩ := hmissing (by decide +kernel)
  obtain ⟨-, hlines'⟩ := hcounts (by decide +kernel) (by decide +kernel)
  exact ⟨⟨hinflated, hlines'.trans (by decide +kernel)⟩, hpadded, hlines.trans (by decide +kernel)⟩

end TagCache
