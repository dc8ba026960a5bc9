import Mathlib.Data.List.Infix
import TagCache.Path

/-!
# Laws of paths

Joining works on the text of a path, and the way from a directory is found by steps. Both fit
together: the steps of a joined path are those of its parts (`Path.components_join`), so a path that
is joined to a directory is found again below it (`Path.relativeTo?_join`), however the directory is
spelled. Joining is associative (`Path.join_assoc`).
-/

namespace TagCache

/-- A text is cut at each place where the character stands. -/
theorem Text.pieces_append (sep : Char) (cs ds : List Char) :
    pieces sep (cs ++ sep :: ds) = pieces sep cs ++ pieces sep ds := by
  induction cs with
  | nil =>
    obtain ⟨p, ps, hps⟩ := List.exists_cons_of_ne_nil (pieces_ne_nil sep ds)
    simp [pieces, hps]
  | cons c cs ih =>
    obtain ⟨p, ps, hps⟩ := List.exists_cons_of_ne_nil (pieces_ne_nil sep cs)
    rw [List.cons_append, pieces, ih, pieces, hps]
    simp only [List.cons_append]
    split <;> rfl

namespace Path

variable {base p q : Path}

/-! ## Joining -/

/-- An absolute path is not joined to anything. -/
theorem join_of_isAbsolute (base : Path) (h : p.isAbsolute = true) : base.join p = p := by
  simp [join, h]

/-- Nothing stands in front of a path that is joined to the empty one. -/
theorem empty_join (p : Path) : join "" p = p := by
  simp [join]

/-- A directory that ends in a slash is written in front. -/
theorem join_of_slash (h : base.toList.getLast? = some '/') (hp : p.isAbsolute = false) :
    base.join p = base ++ p := by
  simp [join, hp, h]

/-- Any other is written in front with a slash. -/
theorem join_of_not_slash (hne : base ≠ "") (h : base.toList.getLast? ≠ some '/')
    (hp : p.isAbsolute = false) : base.join p = base ++ "/" ++ p := by
  unfold join
  rw [hp]
  cases hlast : base.toList.getLast? with
  | none => exact absurd (String.toList_eq_nil_iff.1 (List.getLast?_eq_none_iff.1 hlast)) hne
  | some c =>
    have hc : c ≠ '/' := by
      rintro rfl
      exact h hlast
    simp only [Bool.false_eq_true, if_false]

/-- What follows a text leaves it absolute or relative. -/
theorem isAbsolute_append (hne : base ≠ "") (p : Path) :
    isAbsolute (base ++ p) = base.isAbsolute := by
  obtain ⟨c, cs, hcs⟩ := List.exists_cons_of_ne_nil (mt String.toList_eq_nil_iff.1 hne)
  simp [isAbsolute, hcs]

/-- The last character of a text that is not empty. -/
theorem getLast?_append (hne : p ≠ "") (base : Path) :
    (base ++ p).toList.getLast? = p.toList.getLast? := by
  obtain ⟨c, cs, hcs⟩ := List.exists_cons_of_ne_nil (mt String.toList_eq_nil_iff.1 hne)
  rw [String.toList_append, hcs, List.getLast?_append]
  rfl

/-- A directory is written in front of all relative paths in one way. -/
theorem exists_join_eq_append (hne : base ≠ "") : ∃ front : Path, front ≠ "" ∧
    front.isAbsolute = base.isAbsolute ∧ ∀ p : Path, p.isAbsolute = false →
      base.join p = front ++ p := by
  by_cases hslash : base.toList.getLast? = some '/'
  · exact ⟨base, hne, rfl, fun p hp => join_of_slash hslash hp⟩
  · exact ⟨base ++ "/", by simp, isAbsolute_append hne "/",
      fun p hp => join_of_not_slash hne hslash hp⟩

/-- A joined path is absolute if the first one is. -/
theorem isAbsolute_join_of_ne (hne : base ≠ "") (hp : p.isAbsolute = false) :
    (base.join p).isAbsolute = base.isAbsolute := by
  obtain ⟨front, hfront, habs, hjoin⟩ := exists_join_eq_append hne
  rw [hjoin p hp, isAbsolute_append hfront, habs]

/-- A path that goes on from an absolute one is absolute. -/
theorem isAbsolute_join (hp : p.isAbsolute = true) (q : Path) : (p.join q).isAbsolute = true := by
  cases hq : q.isAbsolute with
  | true => rw [join_of_isAbsolute _ hq, hq]
  | false =>
    have hne : p ≠ "" := by
      rintro rfl
      cases hp
    rw [isAbsolute_join_of_ne hne hq, hp]

/-- A path that goes on from a relative one by a relative one is relative. -/
theorem isAbsolute_join_of_relative (hp : p.isAbsolute = false) (hq : q.isAbsolute = false) :
    (p.join q).isAbsolute = false := by
  by_cases hne : p = ""
  · rw [hne, empty_join, hq]
  · rw [isAbsolute_join_of_ne hne hq, hp]

/-- To go on from a directory and then from there is to go on by both paths at once. -/
theorem join_assoc (base p q : Path) : (base.join p).join q = base.join (p.join q) := by
  cases hq : q.isAbsolute with
  | true => rw [join_of_isAbsolute _ hq, join_of_isAbsolute _ hq, join_of_isAbsolute _ hq]
  | false =>
  cases hp : p.isAbsolute with
  | true => rw [join_of_isAbsolute _ hp, join_of_isAbsolute _ (isAbsolute_join hp q)]
  | false =>
  have hpq := isAbsolute_join_of_relative hp hq
  by_cases hbase : base = ""
  · rw [hbase, empty_join, empty_join]
  by_cases hempty : p = ""
  · -- the directory then ends in a slash
    subst hempty
    rw [empty_join]
    by_cases hslash : base.toList.getLast? = some '/'
    · rw [join_of_slash hslash rfl, String.append_empty]
    · have hend : (base ++ "/" ++ "").toList.getLast? = some '/' := by simp
      rw [join_of_not_slash hbase hslash rfl, join_of_slash hend hq, String.append_empty,
        join_of_not_slash hbase hslash hq]
  · -- it ends in the last character of the first path
    obtain ⟨front, -, -, hjoin⟩ := exists_join_eq_append hbase
    have hne : front ++ p ≠ "" := fun h => hempty (String.append_eq_empty_iff.1 h).2
    rw [hjoin p hp, hjoin _ hpq]
    by_cases hslash : p.toList.getLast? = some '/'
    · rw [join_of_slash ((getLast?_append hempty front).trans hslash) hq, join_of_slash hslash hq,
        String.append_assoc]
    · rw [join_of_not_slash hne (by rwa [getLast?_append hempty]) hq,
        join_of_not_slash hempty hslash hq]
      simp only [String.append_assoc]

/-! ## Steps -/

/-- The steps of a path in terms of its first piece and the others. -/
theorem components_eq {first : List Char} {rest : List (List Char)}
    (h : pieces p.toList = first :: rest) : p.components
      = (if p.isAbsolute then [.root] else if first = ['.'] then [.here]
          else (component? first).toList) ++ rest.filterMap component? := by
  unfold components
  rw [h]

/-- A text between slashes is no step from the root and none that stays. -/
theorem component?_ne {cs : List Char} {c : Component} (h : component? cs = some c) :
    c ≠ .here ∧ c ≠ .root := by
  unfold component? at h
  split at h <;> cases h <;> simp

/-- The steps of a path from where it goes on. A dot in front is no step there. -/
def further (p : Path) : List Component := p.components.filter (· ≠ .here)

/-- The steps from where a relative path goes on are those of its pieces. -/
theorem further_eq (hp : p.isAbsolute = false) :
    p.further = (pieces p.toList).filterMap component? := by
  have hsteps (l : List (List Char)) :
      (l.filterMap component?).filter (· ≠ .here) = l.filterMap component? := by
    refine List.filter_eq_self.2 fun c hc => ?_
    obtain ⟨cs, -, hcs⟩ := List.mem_filterMap.1 hc
    simpa using (component?_ne hcs).1
  obtain ⟨first, rest, hpieces⟩ := List.exists_cons_of_ne_nil (Text.pieces_ne_nil '/' p.toList)
  rw [further, components_eq hpieces, hp, pieces, hpieces, List.filter_append, hsteps,
    List.filterMap_cons]
  by_cases hdot : first = ['.']
  · simp [hdot, component?]
  · cases hfirst : component? first with
    | none => simp [hdot]
    | some c => simp [hdot, (component?_ne hfirst).1]

/-- Behind a slash, the steps of a relative path follow those in front of it. -/
theorem components_slash (hne : base ≠ "") (hp : p.isAbsolute = false) :
    components (base ++ "/" ++ p) = base.components ++ p.further := by
  have habs : isAbsolute (base ++ "/" ++ p) = base.isAbsolute := by
    rw [String.append_assoc]
    exact isAbsolute_append hne _
  obtain ⟨first, rest, hbase⟩ := List.exists_cons_of_ne_nil
    (Text.pieces_ne_nil '/' base.toList)
  have hpieces : pieces (base ++ "/" ++ p).toList = first :: (rest ++ pieces p.toList) := by
    have htext : (base ++ "/" ++ p).toList = base.toList ++ '/' :: p.toList := by simp
    rw [htext, pieces, Text.pieces_append, hbase]
    rfl
  rw [components_eq hpieces, components_eq hbase, habs, List.filterMap_append, further_eq hp,
    List.append_assoc]

/-- Behind the root, the steps of a relative path follow that. -/
theorem components_root (hp : p.isAbsolute = false) :
    components ("/" ++ p) = .root :: p.further := by
  have hpieces : pieces ("/" ++ p).toList = [] :: pieces p.toList := by
    have htext : ("/" ++ p).toList = [] ++ '/' :: p.toList := by simp
    rw [htext, pieces, Text.pieces_append]
    rfl
  have habs : isAbsolute ("/" ++ p) = true := by simp [isAbsolute]
  rw [components_eq hpieces, habs, further_eq hp]
  rfl

/-- The steps of a joined path are those of the directory and then those of the other path. -/
theorem components_join (hne : base ≠ "") (hp : p.isAbsolute = false) :
    (base.join p).components = base.components ++ p.further := by
  by_cases hslash : base.toList.getLast? = some '/'
  · rw [join_of_slash hslash hp]
    obtain ⟨front, hfront⟩ : ∃ front, base = front ++ "/" := by
      obtain ⟨cs, hcs⟩ := List.getLast?_eq_some_iff.1 hslash
      exact ⟨String.ofList cs, String.toList_inj.1 (by simp [hcs])⟩
    subst hfront
    by_cases hfront : front = ""
    · subst hfront
      have hroot := components_root rfl (p := "")
      rw [String.append_empty] at hroot
      rw [String.empty_append, components_root hp, hroot]
      rfl
    · have hbase := components_slash hfront (p := "") rfl
      have hempty : further "" = [] := rfl
      rw [String.append_empty, hempty, List.append_nil] at hbase
      rw [components_slash hfront hp, hbase]
  · rw [join_of_not_slash hne hslash hp, components_slash hne hp]

/-- A path that is joined to a directory is found below it. -/
theorem relativeTo?_join (hne : base ≠ "") (hp : p.isAbsolute = false) :
    (base.join p).relativeTo? base = some (ofComponents p.further) := by
  have hprefix : base.components.isPrefixOf? (base.components ++ p.further) = some p.further :=
    List.isPrefixOf?_eq_some_iff_append_eq.2 rfl
  rw [relativeTo?, components_join hne hp, hprefix]
  rfl

/-- Seen from the empty path, a path is that of its steps. -/
theorem relativeTo?_empty (p : Path) : p.relativeTo? "" = some (ofComponents p.components) :=
  rfl

end Path

end TagCache
