import TagCache.Host.Disk
import TagCache.Proofs.Path
import TagCache.Proofs.Table

/-!
# Storing databases on a disk

A database that is stored where no directory lies changes one place (`Disk.Stores`). What a path
leads to depends on the directories alone, so all paths lead where they led before
(`Disk.Stores.locate_eq_ok_iff`), and every text that is read afterwards was there before
(`Disk.Stores.read_of_text`), since no database is a text. A path that names a database afterwards
named the same place before (`Disk.Stores.databaseAt?`). The path of a place without needless steps
leads back to the place (`Disk.eq_of_follow_canonical`).
-/

namespace TagCache.Disk

variable {d d' : Disk} {k l r : Location} {p : Path} {steps rest : List String} {s : String}

/-! ## Following paths -/

/-- Where a step from a place goes. -/
def stepFrom (k : Location) (s : String) : Location :=
  if s = "" ∨ s = "." then k else if s = ".." then k.dropLast else k ++ [s]

/-- A name is a step that is neither empty nor one or two dots. -/
theorem isName_eq_true_iff : isName s = true ↔ s ≠ "" ∧ s ≠ "." ∧ s ≠ ".." := by
  simp [isName, and_assoc]

/-- Steps that are no names are empty or dots. -/
theorem isName_eq_false_iff : isName s = false ↔ s = "" ∨ s = "." ∨ s = ".." := by
  rw [← Bool.not_eq_true, isName_eq_true_iff]
  tauto

/-- A step by a name goes down to it. -/
theorem stepFrom_of_isName (h : isName s = true) (k : Location) : stepFrom k s = k ++ [s] := by
  obtain ⟨hempty, hhere, hparent⟩ := isName_eq_true_iff.1 h
  simp [stepFrom, hempty, hhere, hparent]

/-- A step is taken from a directory, and names nothing that is too long. -/
theorem follow_cons_eq_ok_iff : d.follow k (s :: rest) = .ok r ↔ d.node? k = some .directory ∧
    (isName s = true → isLongName s = false) ∧ d.follow (stepFrom k s) rest = .ok r := by
  rw [follow]
  rcases d.node? k with _ | _ | _ | _
  · simp
  · cases hname : isName s with
    | false => rcases isName_eq_false_iff.1 hname with rfl | rfl | rfl <;> simp [stepFrom]
    | true =>
      obtain ⟨hempty, hhere, hparent⟩ := isName_eq_true_iff.1 hname
      cases isLongName s <;> simp [stepFrom, hempty, hhere, hparent]
  · simp
  · simp

/-- A name is settled where nothing lies yet or in a directory, if it is not too long there. -/
theorem settle_cons_eq_some_iff : d.settle k (s :: rest) = some r ↔
    (isName s = true → pathBytes (k ++ [s]) ≤ maxDatabaseBytes ∧
      (d.node? k = none ∨ d.node? k = some .directory ∧ isLongName s = false)) ∧
    d.settle (stepFrom k s) rest = some r := by
  rw [settle]
  cases hname : isName s with
  | false => rcases isName_eq_false_iff.1 hname with rfl | rfl | rfl <;> simp [stepFrom]
  | true =>
    obtain ⟨hempty, hhere, hparent⟩ := isName_eq_true_iff.1 hname
    by_cases hlength : maxDatabaseBytes < pathBytes (k ++ [s])
    · simp [hempty, hhere, hparent, hlength, Nat.not_le.2 hlength]
    · rcases d.node? k with _ | _ | _ | _ <;> cases isLongName s <;>
        simp [stepFrom, hempty, hhere, hparent, hlength, Nat.not_lt.1 hlength]

/-- Steps are followed one group after the other. -/
theorem follow_append (xs ys : List String) :
    d.follow k (xs ++ ys) = .ok r ↔ ∃ m, d.follow k xs = .ok m ∧ d.follow m ys = .ok r := by
  induction xs generalizing k with
  | nil => simp [follow]
  | cons s xs ih =>
    rw [List.cons_append, follow_cons_eq_ok_iff, ih]
    simp only [follow_cons_eq_ok_iff]
    constructor
    · rintro ⟨hk, hname, m, hm, hr⟩
      exact ⟨m, ⟨hk, hname, hm⟩, hr⟩
    · rintro ⟨m, ⟨hk, hname, hm⟩, hr⟩
      exact ⟨hk, hname, m, hm, hr⟩

/-- What holds of all names on the way holds of the names of the place that is reached. -/
theorem forall_mem_of_follow {P : String → Prop} (hk : ∀ s ∈ k, P s)
    (hsteps : ∀ s ∈ steps, isName s = true → P s) (hr : d.follow k steps = .ok r) :
    ∀ s ∈ r, P s := by
  induction steps generalizing k with
  | nil =>
    cases hr
    exact hk
  | cons s steps ih =>
    obtain ⟨hs, hsteps⟩ := List.forall_mem_cons.1 hsteps
    obtain ⟨-, -, hr⟩ := follow_cons_eq_ok_iff.1 hr
    refine ih (fun t ht => ?_) hsteps hr
    cases hname : isName s with
    | true =>
      rw [stepFrom_of_isName hname] at ht
      rcases List.mem_append.1 ht with ht | ht
      · exact hk t ht
      · rw [List.mem_singleton.1 ht]
        exact hs hname
    | false =>
      rcases isName_eq_false_iff.1 hname with rfl | rfl | rfl
      · exact hk t (by simpa [stepFrom] using ht)
      · exact hk t (by simpa [stepFrom] using ht)
      · exact hk t (List.mem_of_mem_dropLast (by simpa [stepFrom] using ht))

/-- Names lead to where they say. -/
theorem eq_of_follow_names {names : List String} (h : ∀ s ∈ names, isName s = true)
    (hr : d.follow k names = .ok r) : r = k ++ names := by
  induction names generalizing k with
  | nil =>
    cases hr
    exact (List.append_nil _).symm
  | cons s names ih =>
    obtain ⟨hs, hnames⟩ := List.forall_mem_cons.1 h
    obtain ⟨-, -, hr⟩ := follow_cons_eq_ok_iff.1 hr
    rw [stepFrom_of_isName hs] at hr
    rw [ih hnames hr, List.append_assoc]
    rfl

/-- A path leads to a place by the texts between its slashes. -/
theorem locate_eq_ok_iff : d.locate p = .ok r ↔ p ≠ "" ∧ allow p = .ok () ∧
    d.follow [] ((Path.pieces p.toList).map String.ofList) = .ok r := by
  unfold locate
  by_cases hp : p = ""
  · simp [hp, bind, Except.bind, throw, throwThe, MonadExceptOf.throw]
  · cases hallow : allow p <;> simp [hp, bind, Except.bind]

/-- A path is looked up at the place that it leads to. -/
theorem lookup_eq_ok_iff {n : Node} :
    d.lookup p = .ok n ↔ ∃ r, d.locate p = .ok r ∧ d.node? r = some n := by
  unfold lookup
  cases d.locate p with
  | error e => simp [bind, Except.bind]
  | ok r =>
    cases hr : d.node? r with
    | none => simp [hr, bind, Except.bind, throw, throwThe, MonadExceptOf.throw]
    | some m => simp [hr, bind, Except.bind, pure, Except.pure]

/-- A file is read at the place that its path leads to. -/
theorem read_eq_ok_iff {bytes : ByteArray} :
    d.read p = .ok bytes ↔ ∃ n, d.lookup p = .ok n ∧ n.bytes? = some bytes := by
  unfold read
  cases d.lookup p with
  | error e => simp [bind, Except.bind]
  | ok n =>
    cases hn : n.bytes? with
    | none => simp [hn, bind, Except.bind, throw, throwThe, MonadExceptOf.throw]
    | some b => simp [hn, bind, Except.bind, pure, Except.pure]

/-! ## Paths of places -/

/-- No character of a piece is the one that the text was cut at. -/
theorem notMem_of_mem_pieces {sep : Char} {cs piece : List Char}
    (h : piece ∈ Text.pieces sep cs) : sep ∉ piece := by
  induction cs generalizing piece with
  | nil =>
    rw [List.mem_singleton.1 h]
    exact List.not_mem_nil
  | cons c cs ih =>
    obtain ⟨first, rest, hpieces⟩ := List.exists_cons_of_ne_nil (Text.pieces_ne_nil sep cs)
    rw [Text.pieces, hpieces] at h
    simp only [hpieces] at ih
    dsimp only at h
    split at h
    · rcases List.mem_cons.1 h with rfl | h
      · exact List.not_mem_nil
      · exact ih h
    · next hc =>
      rcases List.mem_cons.1 h with rfl | h
      · rw [List.mem_cons, not_or]
        exact ⟨Ne.symm hc, ih List.mem_cons_self⟩
      · exact ih (List.mem_cons_of_mem _ h)

/-- A text that is put together from pieces is cut into them again. -/
theorem pieces_intercalate {names : List String} (hne : names ≠ [])
    (h : ∀ s ∈ names, '/' ∉ s.toList) :
    (Path.pieces ("/".intercalate names).toList).map String.ofList = names := by
  induction names with
  | nil => exact absurd rfl hne
  | cons s names ih =>
    obtain ⟨hs, hnames⟩ := List.forall_mem_cons.1 h
    cases names with
    | nil =>
      rw [String.intercalate_singleton, Path.pieces, Text.pieces_of_not_mem hs]
      simp
    | cons t names =>
      have htext : ("/".intercalate (s :: t :: names)).toList
          = s.toList ++ '/' :: ("/".intercalate (t :: names)).toList := by
        rw [String.intercalate_cons_cons]
        simp
      have hrest := ih (by simp) hnames
      rw [Path.pieces] at hrest ⊢
      rw [htext, Text.pieces_append, Text.pieces_of_not_mem hs, List.map_append, hrest]
      simp

/-- The names of a place that a path leads to are steps of the path. -/
theorem names_of_locate (h : d.locate p = .ok r) : ∀ s ∈ r, isName s = true ∧ '/' ∉ s.toList := by
  obtain ⟨-, -, hr⟩ := locate_eq_ok_iff.1 h
  refine forall_mem_of_follow (by simp) (fun s hs hname => ⟨hname, ?_⟩) hr
  obtain ⟨piece, hpiece, rfl⟩ := List.mem_map.1 hs
  rw [String.toList_ofList]
  exact notMem_of_mem_pieces hpiece

/-- The path of a place without needless steps leads nowhere but to the place. -/
theorem eq_of_follow_canonical (hne : l ≠ []) (hl : ∀ s ∈ l, isName s = true ∧ '/' ∉ s.toList)
    (h : d.follow [] ((Path.pieces ("/" ++ "/".intercalate l).toList).map String.ofList) = .ok r) :
    r = l := by
  have htext : ("/" ++ "/".intercalate l).toList = [] ++ '/' :: ("/".intercalate l).toList := by
    simp
  have hpieces := pieces_intercalate hne fun s hs => (hl s hs).2
  rw [Path.pieces] at h hpieces
  rw [htext, Text.pieces_append, List.map_append, hpieces] at h
  obtain ⟨-, -, h⟩ := follow_cons_eq_ok_iff.1 h
  exact eq_of_follow_names (fun s hs => (hl s hs).1) h

/-- What a path leads to that goes on from a directory lies in a directory that is there. -/
theorem exists_follow_of_locate_join {q : Path} (hp : p ≠ "") (hq : q.isAbsolute = false)
    (h : d.locate (p.join q) = .ok r) :
    ∃ m, d.follow [] ((Path.pieces p.toList).map String.ofList) = .ok m ∧
      d.node? m = some .directory := by
  obtain ⟨-, -, hr⟩ := locate_eq_ok_iff.1 h
  have hparts (front : List Char) (htext : (p.join q).toList = front ++ '/' :: q.toList) :
      ∃ m, d.follow [] ((Path.pieces front).map String.ofList) = .ok m ∧
        d.node? m = some .directory := by
    rw [Path.pieces, htext, Text.pieces_append, List.map_append] at hr
    obtain ⟨m, hm, hrest⟩ := (follow_append _ _).1 hr
    obtain ⟨first, rest, hpieces⟩ := List.exists_cons_of_ne_nil (Text.pieces_ne_nil '/' q.toList)
    rw [hpieces] at hrest
    exact ⟨m, hm, (follow_cons_eq_ok_iff.1 hrest).1⟩
  by_cases hslash : p.toList.getLast? = some '/'
  · obtain ⟨front, hfront⟩ := List.getLast?_eq_some_iff.1 hslash
    obtain ⟨m, hm, hdirectory⟩ := hparts front (by rw [Path.join_of_slash hslash hq]; simp [hfront])
    refine ⟨m, ?_, hdirectory⟩
    -- the slash at the end is one more step, which stays
    rw [hfront, Path.pieces, Text.pieces_append, List.map_append]
    refine (follow_append _ _).2 ⟨m, hm, ?_⟩
    exact follow_cons_eq_ok_iff.2 ⟨hdirectory, by simp [isName], rfl⟩
  · exact hparts p.toList (by rw [Path.join_of_not_slash hp hslash hq]; simp)

/-- What can be read below the path of a place lies in a directory at the place. -/
theorem node?_of_read_below {q : Path} {bytes : ByteArray} (hne : l ≠ []) (hp : d.locate p = .ok l)
    (hq : q.isAbsolute = false)
    (hread : d.read (Path.join ("/" ++ "/".intercalate l) q) = .ok bytes) :
    d.node? l = some .directory := by
  have hroot : "/" ++ "/".intercalate l ≠ "" := by simp
  obtain ⟨n, hn, -⟩ := read_eq_ok_iff.1 hread
  obtain ⟨r, hr, -⟩ := lookup_eq_ok_iff.1 hn
  obtain ⟨m, hm, hdirectory⟩ := exists_follow_of_locate_join hroot hq hr
  rw [← eq_of_follow_canonical hne (names_of_locate hp) hm]
  exact hdirectory

/-! ## Storing a database -/

/-- The mark in front of a database stands at the start of no text. -/
theorem fromUTF8?_bytes (s : Store) : String.fromUTF8? s.bytes = none := by
  unfold String.fromUTF8?
  rw [dif_neg]
  intro hvalid
  have hsize : 0 < s.bytes.size := by
    rw [Store.bytes, ByteArray.size_append]
    exact Nat.add_pos_left Nat.one_pos _
  have hfirst := hvalid.isUTF8FirstByte_getElem_zero hsize
  have hmark : s.bytes[0] = Store.mark := rfl
  rw [hmark] at hfirst
  exact absurd hfirst (by decide)

/-- The second disk has a database at a place, where the first has no directory, and is the same
elsewhere. -/
structure Stores (d d' : Disk) (l : Location) : Prop where
  free : d.node? l ≠ some .directory
  stored : ∃ s, d'.node? l = some (.database s)
  elsewhere : ∀ k, k ≠ l → d'.node? k = d.node? k

/-- A database that can be loaded can be stored. -/
theorem stores_saveStore {s : Store} (h : d.loadStore l = .ok s) (s' : Store) :
    d.Stores (d.saveStore l s') l := by
  have hne : l ≠ [] := by
    rintro rfl
    cases h
  have hnode (d : Disk) {k : Location} (hk : k ≠ []) : d.node? k = d.nodes.find? k := by
    simp [node?, hk]
  refine ⟨fun hdirectory => ?_, ⟨s', ?_⟩, fun k hk => ?_⟩
  · unfold loadStore at h
    rw [hdirectory] at h
    cases h
  · rw [hnode _ hne]
    exact Table.find?_insert_self _ _ _
  · by_cases hroot : k = []
    · rw [hroot]
      rfl
    · rw [hnode _ hroot, hnode _ hroot]
      exact Table.find?_insert_of_ne _ _ hk

namespace Stores

variable (h : d.Stores d' l)
include h

/-- Storing a database makes and removes no directory. -/
theorem node?_eq_directory_iff : d'.node? k = some .directory ↔ d.node? k = some .directory := by
  by_cases hk : k = l
  · subst hk
    obtain ⟨s, hs⟩ := h.stored
    rw [hs]
    exact iff_of_false nofun h.free
  · rw [h.elsewhere k hk]

/-- Paths lead to the same places as before. -/
theorem follow_eq_ok_iff : d'.follow k steps = .ok r ↔ d.follow k steps = .ok r := by
  induction steps generalizing k with
  | nil => rfl
  | cons s steps ih =>
    rw [follow_cons_eq_ok_iff, follow_cons_eq_ok_iff, h.node?_eq_directory_iff, ih]

/-- A path leads where it led before. -/
theorem locate_eq_ok_iff : d'.locate p = .ok r ↔ d.locate p = .ok r := by
  rw [Disk.locate_eq_ok_iff, Disk.locate_eq_ok_iff, h.follow_eq_ok_iff]

/-- A text that is read was there before. -/
theorem read_of_text {bytes : ByteArray} {text : String} (hread : d'.read p = .ok bytes)
    (htext : String.fromUTF8? bytes = some text) : d.read p = .ok bytes := by
  obtain ⟨n, hn, hbytes⟩ := read_eq_ok_iff.1 hread
  obtain ⟨r, hr, hnode⟩ := lookup_eq_ok_iff.1 hn
  have hne : r ≠ l := by
    rintro rfl
    obtain ⟨s, hs⟩ := h.stored
    rw [hs] at hnode
    cases hnode
    cases hbytes
    rw [fromUTF8?_bytes] at htext
    cases htext
  rw [h.elsewhere r hne] at hnode
  exact read_eq_ok_iff.2 ⟨n, lookup_eq_ok_iff.2 ⟨r, h.locate_eq_ok_iff.1 hr, hnode⟩, hbytes⟩

/-- The path without needless steps is the same, unless it is that of the database. -/
theorem canonical?_cases : d'.canonical? p = d.canonical? p ∨
    (d'.locate p = .ok l ∧ d'.canonical? p = some ("/" ++ "/".intercalate l)) := by
  cases hp : d'.locate p with
  | ok r =>
    have hbefore := h.locate_eq_ok_iff.1 hp
    by_cases hr : r = l
    · subst hr
      obtain ⟨s, hs⟩ := h.stored
      refine .inr ⟨rfl, ?_⟩
      simp [canonical?, hp, hs]
    · exact .inl (by simp [canonical?, hp, hbefore, h.elsewhere r hr])
  | error e =>
    have hbefore : ∃ e, d.locate p = .error e := by
      cases hlocate : d.locate p with
      | error e => exact ⟨e, rfl⟩
      | ok r =>
        rw [h.locate_eq_ok_iff.2 hlocate] at hp
        cases hp
    obtain ⟨e', he'⟩ := hbefore
    exact .inl (by simp [canonical?, hp, he'])

/-- Steps that settle on the later disk settle at the same place on the earlier one. -/
theorem settle (hr : d'.settle k steps = some r) : d.settle k steps = some r := by
  induction steps generalizing k with
  | nil => exact hr
  | cons s steps ih =>
    obtain ⟨hname, hrest⟩ := settle_cons_eq_some_iff.1 hr
    refine settle_cons_eq_some_iff.2 ⟨fun hs => ?_, ih hrest⟩
    obtain ⟨hlength, hnode⟩ := hname hs
    have hk : k ≠ l := by
      -- nothing is settled below the database
      rintro rfl
      obtain ⟨t, ht⟩ := h.stored
      rw [ht] at hnode
      rcases hnode with hnode | ⟨hnode, -⟩ <;> cases hnode
    rw [h.elsewhere k hk] at hnode
    exact ⟨hlength, hnode⟩

/-- A path that names a database named the same place before. -/
theorem databaseAt? (hr : d'.databaseAt? p = some r) : d.databaseAt? p = some r := by
  unfold Disk.databaseAt? at hr ⊢
  split at hr
  · cases hr
  · next hnul =>
    rw [if_neg hnul]
    obtain ⟨hsettle, hlength⟩ := Option.filter_eq_some_iff.1 hr
    exact Option.filter_eq_some_iff.2 ⟨h.settle hsettle, hlength⟩

end Stores

end TagCache.Disk
