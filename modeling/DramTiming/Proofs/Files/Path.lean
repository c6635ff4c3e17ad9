import DramTiming.Files.Path

/-!
# Names at the end of paths

A name without a slash that a path ends in is its last segment, whatever comes before; so is a name
that is joined to a path.  It is the name of a file, and what stands before its last point is the
stem.  The names that paths end in have no slash, and neither have their stems.
-/

namespace DramTiming.Path

variable {xs ys piece : List Char} {p : Path} {name name' : String}

/-! ### Splitting at slashes -/

theorem splitSlashes_ne_nil (cs : List Char) : splitSlashes cs ≠ [] := by
  induction cs with
  | nil => exact nofun
  | cons c cs ih =>
    rw [splitSlashes]
    split
    · exact nofun
    · split <;> exact nofun

theorem splitSlashes_append_slash (xs ys : List Char) :
    splitSlashes (xs ++ '/' :: ys) = splitSlashes xs ++ splitSlashes ys := by
  induction xs with
  | nil => simp [splitSlashes]
  | cons c xs ih =>
    rw [List.cons_append, splitSlashes, splitSlashes, ih]
    split
    · rfl
    · cases hxs : splitSlashes xs with
      | nil => exact absurd hxs (splitSlashes_ne_nil xs)
      | cons piece pieces => rfl

theorem splitSlashes_of_not_mem (h : '/' ∉ xs) : splitSlashes xs = [xs] := by
  induction xs with
  | nil => rfl
  | cons c xs ih =>
    rw [List.mem_cons, not_or] at h
    rw [splitSlashes, if_neg (Ne.symm h.1), ih h.2]

theorem slash_not_mem_of_mem_splitSlashes (h : piece ∈ splitSlashes xs) : '/' ∉ piece := by
  induction xs generalizing piece with
  | nil => simp_all [splitSlashes]
  | cons c xs ih =>
    rw [splitSlashes] at h
    split at h
    · rcases List.mem_cons.mp h with rfl | h
      · exact List.not_mem_nil
      · exact ih h
    · next hc =>
      cases hxs : splitSlashes xs with
      | nil => exact absurd hxs (splitSlashes_ne_nil xs)
      | cons first pieces =>
        rw [hxs] at h ih
        rcases List.mem_cons.mp h with rfl | h
        · rw [List.mem_cons, not_or]
          exact ⟨Ne.symm hc, ih List.mem_cons_self⟩
        · exact ih (List.mem_cons_of_mem _ h)

/-! ### Names at the end -/

/-- A path is a name, or ends in that name after a slash. -/
def EndsIn (p : Path) (name : String) : Prop :=
  p.text.toList = name.toList ∨ ∃ xs, p.text.toList = xs ++ '/' :: name.toList

theorem endsIn_join (p : Path) (name : String) : (p.join name).EndsIn name := by
  unfold EndsIn join
  split
  · next h =>
    rw [Bool.or_eq_true] at h
    rcases h with hempty | hslash
    · rw [String.isEmpty_iff.mp hempty]
      exact .inl (by simp)
    · obtain ⟨xs, hxs⟩ := List.getLast?_eq_some_iff.mp (beq_iff_eq.mp hslash)
      exact .inr ⟨xs, by simp [hxs]⟩
  · exact .inr ⟨p.text.toList, by simp⟩

theorem join_inj : p.join name = p.join name' ↔ name = name' := by
  refine ⟨fun h => ?_, fun h => h ▸ rfl⟩
  have htext := congrArg (·.text.toList) h
  unfold join at htext
  rw [← String.toList_inj]
  split at htext
  · simpa using htext
  · simpa using htext

theorem join_append_inj {stem stem' ending : String} :
    p.join (stem ++ ending) = p.join (stem' ++ ending) ↔ stem = stem' := by
  rw [join_inj, ← String.toList_inj, String.toList_append, String.toList_append,
    List.append_cancel_right_eq, String.toList_inj]

/-- Such a name is the last segment, if it has no slash. -/
theorem EndsIn.exists_segments (h : p.EndsIn name) (hne : name ≠ "") (hslash : '/' ∉ name.toList) :
    ∃ before, p.segments = before ++ [name] := by
  have hpiece : (splitSlashes name.toList).filter (!·.isEmpty) = [name.toList] := by
    rw [splitSlashes_of_not_mem hslash]
    simpa using hne
  unfold segments
  obtain h | ⟨xs, h⟩ := h
  · exact ⟨[], by simp [h, hpiece]⟩
  · refine ⟨((splitSlashes xs).filter (!·.isEmpty)).map String.ofList, ?_⟩
    simp [h, splitSlashes_append_slash, hpiece]

theorem EndsIn.fileName?_eq (h : p.EndsIn name) (hne : name ≠ "") (hslash : '/' ∉ name.toList)
    (hdot : name ≠ ".") (hdots : name ≠ "..") : p.fileName? = some name := by
  have hcomponents : p.components.getLast? = some name := by
    obtain ⟨before, hsegments⟩ := h.exists_segments hne hslash
    unfold components
    rw [hsegments]
    cases before with
    | nil => simp [hdot]
    | cons first before =>
      cases hfirst : first == "." && p.isAbsolute <;> simp [hdot, hfirst, List.getLast?_cons]
  unfold fileName?
  rw [hcomponents]
  split <;> simp_all

/-! ### Stems -/

theorem slash_not_mem_of_mem_components {segment : String} (h : segment ∈ p.components) :
    '/' ∉ segment.toList := by
  have hsegment : segment ∈ p.segments := by
    unfold components at h
    split at h
    · cases h
    · next first rest hsegments =>
      rw [hsegments]
      dsimp only at h
      split at h
      · exact List.mem_cons_of_mem _ (List.mem_filter.mp h).1
      · rcases List.mem_cons.mp h with rfl | h
        · exact List.mem_cons_self
        · exact List.mem_cons_of_mem _ (List.mem_filter.mp h).1
  obtain ⟨piece, hpiece, rfl⟩ := List.mem_map.mp hsegment
  rw [String.toList_ofList]
  exact slash_not_mem_of_mem_splitSlashes (List.mem_filter.mp hpiece).1

theorem mem_of_mem_stemOf {c : Char} {cs : List Char} (h : c ∈ stemOf cs) : c ∈ cs := by
  unfold stemOf at h
  split at h
  · exact h
  · next stem hstem =>
    have hsub := (List.drop_sublist 1 _).trans (List.dropWhile_sublist (· ≠ '.') (l := cs.reverse))
    exact List.mem_reverse.mp (hsub.mem (List.mem_reverse.mp h))

/-- What stands before the last point is the stem. -/
theorem stemOf_append {stem extension : List Char} (hne : stem ≠ []) (hdot : '.' ∉ extension) :
    stemOf (stem ++ '.' :: extension) = stem := by
  have hextension : ∀ c ∈ extension.reverse, decide (c ≠ '.') = true := by
    intro c hc
    rw [decide_eq_true_eq]
    rintro rfl
    exact hdot (List.mem_reverse.mp hc)
  have hdrop : ((stem ++ '.' :: extension).reverse.dropWhile (· ≠ '.')).drop 1 = stem.reverse := by
    rw [List.reverse_append, List.reverse_cons, List.append_assoc,
      List.dropWhile_append_of_pos hextension]
    simp
  unfold stemOf
  rw [hdrop]
  split
  · next hnil => exact absurd (List.reverse_eq_nil_iff.mp hnil) hne
  · rw [List.reverse_reverse]

/-- A file name without its extension is the stem of a path that ends in it. -/
theorem EndsIn.fileStem?_eq {stem extension : String} (h : p.EndsIn (stem ++ "." ++ extension))
    (hne : stem ≠ "") (hpoint : stem ≠ ".") (hslash : '/' ∉ stem.toList)
    (hslash' : '/' ∉ extension.toList) (hdot : '.' ∉ extension.toList) :
    p.fileStem? = some stem := by
  have hlist : (stem ++ "." ++ extension).toList = stem.toList ++ '.' :: extension.toList := by simp
  have hne' : stem.toList ≠ [] := by simpa using hne
  have hname : p.fileName? = some (stem ++ "." ++ extension) := by
    apply h.fileName?_eq
    · simp
    · rw [hlist]
      simp [hslash, hslash']
    · intro heq
      rw [← String.toList_inj, hlist] at heq
      cases hstem : stem.toList with
      | nil => exact hne' hstem
      | cons c rest => simp [hstem] at heq
    · intro heq
      rw [← String.toList_inj, hlist] at heq
      rcases hstem : stem.toList with _ | ⟨c, _ | ⟨c', rest⟩⟩
      · exact hne' hstem
      · rw [hstem] at heq
        obtain rfl : c = '.' := (List.cons.inj heq).1
        exact hpoint (String.toList_inj.mp hstem)
      · simp [hstem] at heq
  rw [fileStem?, hname, Option.map_some, hlist, stemOf_append hne' hdot, String.ofList_toList]

theorem slash_not_mem_fileStem {stem : String} (h : p.fileStem? = some stem) :
    '/' ∉ stem.toList := by
  unfold fileStem? at h
  obtain ⟨name, hname, rfl⟩ := Option.map_eq_some_iff.mp h
  have hmem : name ∈ p.components := by
    unfold fileName? at hname
    split at hname
    · cases hname
    · cases hname
    · exact List.mem_of_getLast? hname
  intro hslash
  rw [String.toList_ofList] at hslash
  exact slash_not_mem_of_mem_components hmem (mem_of_mem_stemOf hslash)

end DramTiming.Path
