import Mathlib.Data.List.Count
import Mathlib.Tactic.Choose
import TagCache.Proofs.Counts

/-!
# Counting references

Merging adds counts up key by key (`Table.find?_raiseAll`), so it is associative and commutative,
and nothing is gained from no references. A tally of places, repeated or not, has at each address
the names found there as often as the address is listed (`Counts.find?_addresses_tallyAll_map`), and
its order does not matter (`Counts.tallyAll_perm`). A tally of two lists in a row is the merge of
both tallies (`Counts.tallyAll_append`). The calls that a count makes are recorded beside its result
(`countRecorded`), so that they can be told however it ends.
-/

namespace TagCache

/-! ## Merging -/

namespace Table

variable {κ : Type} [Ord κ] [Std.TransOrd κ] [Std.LawfulEqOrd κ]

/-- A table contains a key that was put in, and those from before. -/
theorem contains_insert (t : Table κ Nat) (k k' : κ) (n : Nat) :
    (t.insert k n).contains k' = (compare k' k == .eq || t.contains k') := by
  rw [contains_eq, contains_eq, find?_insert]
  cases compare k' k <;> rfl

/-- Raising keys binds them, and unbinds none. -/
theorem contains_foldl_raise (l : List (κ × Nat)) (t : Table κ Nat) (k : κ) :
    (l.foldl (fun t b => t.raise b.1 b.2) t).contains k
      = (t.contains k || l.any fun b => compare k b.1 == .eq) := by
  induction l generalizing t with
  | nil => simp
  | cons b l ih =>
    rw [List.foldl_cons, ih, raise, contains_insert, List.any_cons, Bool.or_comm _ (t.contains k),
      Bool.or_assoc]

/-- A raised table contains the keys of both. -/
theorem contains_raiseAll (t u : Table κ Nat) (k : κ) :
    (t.raiseAll u).contains k = (t.contains k || u.contains k) := by
  have hkeys : (u.entries.any fun b => compare k b.1 == .eq) = u.contains k := by
    rw [Bool.eq_iff_iff, ← mem_keys_iff_contains, keys, List.any_eq_true, List.mem_map]
    refine exists_congr fun b => and_congr_right fun _ => ?_
    rw [beq_iff_eq, Std.LawfulEqOrd.compare_eq_iff_eq, eq_comm]
  rw [raiseAll, contains_foldl_raise, hkeys]

/-- Counts that both tables have are added up. -/
theorem find?_raiseAll [DecidableEq κ] (t u : Table κ Nat) (k : κ) :
    (t.raiseAll u).find? k = (t.find? k).merge (· + ·) (u.find? k) := by
  have hcontains := contains_raiseAll t u k
  have hcount := getD_raiseAll t u k
  simp only [contains_eq, getD] at hcontains hcount
  cases hr : (t.raiseAll u).find? k <;> cases ht : t.find? k <;> cases hu : u.find? k <;>
    simp_all

end Table

namespace Counts

variable {c d : Counts}

/-- Counts are told apart by the rows of their tables. -/
theorem ext_find? (haddresses : ∀ a, c.addresses.find? a = d.addresses.find? a)
    (hnames : ∀ k, c.names.find? k = d.names.find? k) : c = d := by
  cases c
  cases d
  exact congr (congrArg Counts.mk (Table.ext_find? haddresses)) (Table.ext_find? hnames)

/-- An address that both counts have is merged to the sum. -/
theorem find?_addresses_merge (c d : Counts) (a : Address) : (c.merge d).addresses.find? a
    = (c.addresses.find? a).merge (· + ·) (d.addresses.find? a) :=
  Table.find?_raiseAll _ _ a

/-- A name that both counts have is merged to the sum. -/
theorem find?_names_merge (c d : Counts) (k : String) :
    (c.merge d).names.find? k = (c.names.find? k).merge (· + ·) (d.names.find? k) :=
  Table.find?_raiseAll _ _ k

/-- The order of merged counts does not matter. -/
theorem merge_comm (c d : Counts) : c.merge d = d.merge c := by
  refine ext_find? (fun a => ?_) fun k => ?_
  · rw [find?_addresses_merge, find?_addresses_merge]
    exact Std.Commutative.comm _ _
  · rw [find?_names_merge, find?_names_merge]
    exact Std.Commutative.comm _ _

/-- Nor does it matter which of them are merged first. -/
theorem merge_assoc (c d e : Counts) : (c.merge d).merge e = c.merge (d.merge e) := by
  refine ext_find? (fun a => ?_) fun k => ?_
  · simp only [find?_addresses_merge]
    exact Std.Associative.assoc _ _ _
  · simp only [find?_names_merge]
    exact Std.Associative.assoc _ _ _

/-- Merging no counts adds nothing. -/
@[simp] theorem merge_empty (c : Counts) : c.merge ∅ = c := rfl

/-- Merged into no counts, counts stay. -/
@[simp] theorem empty_merge (c : Counts) : (∅ : Counts).merge c = c := by
  rw [merge_comm, merge_empty]

/-! ## Tallies -/

/-- Counts without a zero are the same if they count the same. -/
theorem Positive.ext (hc : c.Positive) (hd : d.Positive)
    (haddresses : ∀ a, c.addresses.getD a 0 = d.addresses.getD a 0)
    (hnames : ∀ k, c.names.getD k 0 = d.names.getD k 0) : c = d := by
  refine ext_find? (fun a => Option.ext fun n => ?_) fun k => Option.ext fun n => ?_
  · rw [hc.addresses.find?_eq_some_iff, hd.addresses.find?_eq_some_iff, haddresses]
  · rw [hc.names.find?_eq_some_iff, hd.names.find?_eq_some_iff, hnames]

/-- A tally of two lists in a row is the merge of both. -/
theorem tallyAll_append (l l' : List (Address × NameSet)) :
    tallyAll ∅ (l ++ l') = (tallyAll ∅ l).merge (tallyAll ∅ l') := by
  have hsum : tallyAll ∅ (l ++ l') = (tallyAll ∅ l).tallyAll l' := List.foldl_append
  have hzero (a : Address) : (∅ : Counts).addresses.getD a 0 = 0 := rfl
  have hzero' (k : String) : (∅ : Counts).names.getD k 0 = 0 := rfl
  have hl := Positive.empty.tallyAll l
  rw [hsum]
  refine (hl.tallyAll l').ext (hl.merge (Positive.empty.tallyAll l')) (fun a => ?_) fun k => ?_
  · rw [getD_addresses_merge, getD_addresses_tallyAll _ l', getD_addresses_tallyAll ∅ l', hzero,
      Nat.zero_add]
  · rw [getD_names_merge, getD_names_tallyAll _ l', getD_names_tallyAll ∅ l', hzero', Nat.zero_add]

/-- So its order does not matter. -/
theorem tallyAll_perm {l l' : List (Address × NameSet)} (h : l.Perm l') :
    tallyAll ∅ l = tallyAll ∅ l' := by
  induction h with
  | nil => rfl
  | cons b _ ih =>
    rw [← List.singleton_append, tallyAll_append, ih, ← tallyAll_append, List.singleton_append]
  | swap b b' l =>
    rw [← List.singleton_append, tallyAll_append, ← List.singleton_append (l := l),
      tallyAll_append, ← merge_assoc, merge_comm (tallyAll ∅ [b']), merge_assoc, ← tallyAll_append,
      ← tallyAll_append, List.singleton_append, List.singleton_append]
  | trans _ _ ih ih' => exact ih.trans ih'

section
variable {l : List Address} {found : Address → NameSet}

/-- Every time an address stands in a list it adds as many references as it has tags. -/
theorem totalAt_map (l : List Address) (found : Address → NameSet) (a : Address) :
    totalAt (fun b => b.2.toList.length) a (l.map fun a => (a, found a))
      = l.count a * (found a).size := by
  induction l with
  | nil => simp [totalAt]
  | cons b l ih =>
    rw [List.map_cons, totalAt, ih]
    by_cases hab : a = b
    · subst hab
      rw [if_pos rfl, KeySet.length_toList, List.count_cons_self, Nat.add_one_mul, Nat.add_comm]
    · rw [if_neg hab, List.count_cons_of_ne (Ne.symm hab), Nat.zero_add]

/-- Each address counts its names as often as it is listed. -/
theorem find?_addresses_tallyAll_map {a : Address} {n : Nat} :
    (tallyAll ∅ (l.map fun a => (a, found a))).addresses.find? a = some n ↔
      l.count a * (found a).size = n ∧ n ≠ 0 := by
  have hzero : (∅ : Counts).addresses.getD a 0 = 0 := rfl
  rw [(Positive.empty.tallyAll _).addresses.find?_eq_some_iff, getD_addresses_tallyAll, totalAt_map,
    hzero, Nat.zero_add]

/-- Each name counts the listed places that carry it. -/
theorem find?_names_tallyAll_map {k : String} {n : Nat} :
    (tallyAll ∅ (l.map fun a => (a, found a))).names.find? k = some n ↔
      (l.countP fun a => (found a).contains k) = n ∧ n ≠ 0 := by
  rw [find?_names_tallyAll, List.countP_map]
  rfl

end

end Counts

/-! ## Counting in order -/

/-- A call that a count makes: an address is visited, or its tags are asked for. -/
inductive TagQuery where
  | visit (a : Address)
  | tags (a : Address)
deriving DecidableEq, Repr

/-- The calls for one address. -/
def TagQuery.both (a : Address) : List TagQuery := [.visit a, .tags a]

/-- Actions that may fail, under a record of the calls so far. -/
abbrev Recorder (ε : Type) := ExceptT ε (StateM (List TagQuery))

namespace Recorder

variable {ε : Type}

/-- Record a call. -/
def note (query : TagQuery) : Recorder ε Unit := modify (· ++ [query])

/-- Record a call, and give its answer. -/
def answer {α : Type} (query : TagQuery) (r : Except ε α) : Recorder ε α := do
  note query
  liftM r

end Recorder

/-- Count references where the tags, or a failure to give them, are known for each address, and
record the calls. -/
def countRecorded {ε : Type} (tags : Address → Except ε NameSet) (addresses : List Address) :
    Except ε Counts × List TagQuery :=
  countReferences (fun a => Recorder.note (.visit a))
    (fun a => Recorder.answer (.tags a) (tags a)) addresses []

section
variable {ε : Type} {tags : Address → Except ε NameSet} {l : List Address}
  {found : Address → NameSet} {c : Counts} {before : List TagQuery}

/-- The count of further addresses, from counts and calls so far. -/
def countFrom (tags : Address → Except ε NameSet) (l : List Address) (c : Counts) :
    Recorder ε Counts :=
  l.foldlM (fun c a => do
    Recorder.note (.visit a)
    return c.tally a (← Recorder.answer (.tags a) (tags a)).toList) c

/-- An address is visited, and then its tags are asked for; a failure to give them ends the
count. -/
theorem countFrom_cons (a : Address) (l : List Address) (c : Counts) (before : List TagQuery) :
    countFrom tags (a :: l) c before = match tags a with
      | .ok names => countFrom tags l (c.tally a names.toList) (before ++ TagQuery.both a)
      | .error e => (.error e, before ++ TagQuery.both a) := by
  have hboth : before ++ TagQuery.both a = (before ++ [.visit a]) ++ [.tags a] := by
    simp [TagQuery.both]
  unfold countFrom
  rw [List.foldlM_cons, hboth]
  cases tags a <;> rfl

/-- While the tags are given they are tallied. -/
theorem countFrom_append (h : ∀ a ∈ l, tags a = .ok (found a)) (l' : List Address) :
    countFrom tags (l ++ l') c before
      = countFrom tags l' (c.tallyAll (l.map fun a => (a, found a)))
          (before ++ l.flatMap TagQuery.both) := by
  induction l generalizing c before with
  | nil => simp [Counts.tallyAll]
  | cons a l ih =>
    obtain ⟨ha, hl⟩ := List.forall_mem_cons.1 h
    rw [List.cons_append, countFrom_cons, ha]
    simp only
    rw [ih hl, List.append_assoc, List.flatMap_cons]
    rfl

/-- Where all tags can be asked for, the addresses are visited in order and tallied. -/
theorem countRecorded_of_ok (h : ∀ a ∈ l, tags a = .ok (found a)) :
    countRecorded tags l
      = (.ok (.tallyAll ∅ (l.map fun a => (a, found a))), l.flatMap TagQuery.both) := by
  have hrun : countRecorded tags (l ++ []) = _ := countFrom_append h []
  rwa [List.append_nil] at hrun

/-- A failure ends the count with its own error. -/
theorem countRecorded_of_error (h : ∀ a ∈ l, tags a = .ok (found a)) {a : Address} {e : ε}
    (ha : tags a = .error e) (l' : List Address) :
    countRecorded tags (l ++ a :: l') = (.error e, (l ++ [a]).flatMap TagQuery.both) := by
  have hrun : countRecorded tags (l ++ a :: l') = _ := countFrom_append h (a :: l')
  rw [countFrom_cons, ha, List.nil_append] at hrun
  rw [List.flatMap_append, List.flatMap_singleton]
  exact hrun

end

/-- Where all tags are given, the count has each address as often as it is listed, times its tags,
and each name for each listed address that carries it. It has no zero, its totals are the same, the
order of the addresses does not matter, and of two lists in a row it has the merge of both counts,
which is associative and commutative and keeps counts as they are with no references. A failure to
give tags ends the count with its own error. Each address up to there is visited once and then asked
once for its tags, in order. -/
theorem references_add_up {ε : Type} (tags : Address → Except ε NameSet) :
    (∀ (l : List Address) (found : Address → NameSet), (∀ a ∈ l, tags a = .ok (found a)) →
      ∃ c, countRecorded tags l = (.ok c, l.flatMap TagQuery.both) ∧
        (∀ a n, c.addresses.find? a = some n ↔ l.count a * (found a).size = n ∧ n ≠ 0) ∧
        (∀ k n, c.names.find? k = some n ↔
          (l.countP fun a => (found a).contains k) = n ∧ n ≠ 0) ∧
        c.addressTotal = c.nameTotal ∧
        (∀ l', l.Perm l' → (countRecorded tags l').1 = .ok c) ∧
        ∀ l', (∀ a ∈ l', tags a = .ok (found a)) → ∃ d, (countRecorded tags l').1 = .ok d ∧
          (countRecorded tags (l ++ l')).1 = .ok (c.merge d)) ∧
    (∀ c d e : Counts, (c.merge d).merge e = c.merge (d.merge e) ∧ c.merge d = d.merge c ∧
      c.merge ∅ = c ∧ (∅ : Counts).merge c = c) ∧
    ∀ (l : List Address) (a : Address) (l' : List Address) (e : ε),
      (∀ b ∈ l, ∃ names, tags b = .ok names) → tags a = .error e →
      countRecorded tags (l ++ a :: l') = (.error e, (l ++ [a]).flatMap TagQuery.both) := by
  refine ⟨fun l found h => ?_, fun c d e => ?_, fun l a l' e h ha => ?_⟩
  · refine ⟨_, countRecorded_of_ok h, fun a n => Counts.find?_addresses_tallyAll_map,
      fun k n => Counts.find?_names_tallyAll_map, Counts.Balanced.empty.tallyAll _,
      fun l' hperm => ?_, fun l' h' => ⟨_, congrArg Prod.fst (countRecorded_of_ok h'), ?_⟩⟩
    · have h' : ∀ a ∈ l', tags a = .ok (found a) := fun a ha => h a (hperm.mem_iff.2 ha)
      rw [countRecorded_of_ok h', Counts.tallyAll_perm (hperm.map _)]
    · have hboth : ∀ a ∈ l ++ l', tags a = .ok (found a) := fun a ha =>
        (List.mem_append.1 ha).elim (h a) (h' a)
      rw [countRecorded_of_ok hboth, List.map_append, Counts.tallyAll_append]
  · exact ⟨c.merge_assoc d e, c.merge_comm d, c.merge_empty, c.empty_merge⟩
  · choose! found hfound using h
    exact countRecorded_of_error hfound ha l'

/-- Tags at two addresses, and a failure at a third. -/
def tagsOrGone (a : Address) : Except String NameSet :=
  if a = 16 then .ok (KeySet.ofList ["x", "y"])
  else if a = 32 then .error "gone"
  else .ok (KeySet.ofList ["x"])

/-- An address that stands twice is counted twice, and the first failure ends the count. -/
theorem references_add_up_repeated :
    (∃ c, countRecorded tagsOrGone [16, 20, 16]
        = (.ok c, [.visit 16, .tags 16, .visit 20, .tags 20, .visit 16, .tags 16]) ∧
      c.addresses.find? 16 = some 4 ∧ c.names.find? "x" = some 3 ∧
      (countRecorded tagsOrGone [16, 16, 20]).1 = .ok c) ∧
    countRecorded tagsOrGone [20, 32, 16]
      = (.error "gone", [.visit 20, .tags 20, .visit 32, .tags 32]) := by
  obtain ⟨hcounts, -, hfails⟩ := references_add_up tagsOrGone
  constructor
  · let found (a : Address) : NameSet := KeySet.ofList (if a = 16 then ["x", "y"] else ["x"])
    have hfound : ∀ a ∈ [(16 : Address), 20, 16], tagsOrGone a = .ok (found a) := by
      simp [tagsOrGone, found]
    obtain ⟨c, hc, haddresses, hnames, -, hperm, -⟩ := hcounts [16, 20, 16] found hfound
    exact ⟨c, hc, (haddresses 16 4).2 (by decide), (hnames "x" 3).2 (by decide),
      hperm _ (by decide)⟩
  · refine hfails [20] 32 [16] "gone" (fun b hb => ⟨KeySet.ofList ["x"], ?_⟩) rfl
    rw [List.mem_singleton.1 hb]
    rfl

end TagCache
