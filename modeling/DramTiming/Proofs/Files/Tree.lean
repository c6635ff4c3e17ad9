import DramTiming.Files.Tree
import DramTiming.Proofs.Files.Path

/-!
# Writing files

A file that is written changes what stands in one place.  It makes no directory and takes none away,
so all paths lead where they led before (`SameDirectories`); what is found there is the same except
in that place.
-/

namespace DramTiming.FileTree

variable {t t' t'' : FileTree} {l l' : Location} {p : Path} {node : Node} {content : Content}

/-! ### Places -/

theorem lookup_nil (t : FileTree) : t.lookup [] = some .directory := if_pos rfl

theorem ne_nil_of_lookup_ne (h : t.lookup l ≠ some .directory) : l ≠ [] := by
  rintro rfl
  exact h t.lookup_nil

theorem lookup_filter_of_ne {nodes : List (Location × Node)} (hne : l' ≠ l) :
    List.lookup l' (nodes.filter (·.1 != l)) = List.lookup l' nodes := by
  induction nodes with
  | nil => rfl
  | cons entry nodes ih =>
    obtain ⟨place, node⟩ := entry
    rw [List.filter_cons]
    by_cases hplace : place = l
    · subst hplace
      simp [List.lookup_cons, ih, beq_eq_false_iff_ne.mpr hne]
    · simp [List.lookup_cons, ih, hplace]

theorem lookup_put_self (t : FileTree) (hl : l ≠ []) (node : Node) :
    (t.put l node).lookup l = some node := by
  simp [lookup, put, hl]

theorem lookup_put_of_ne (t : FileTree) (hne : l' ≠ l) (node : Node) :
    (t.put l node).lookup l' = t.lookup l' := by
  unfold lookup put
  split
  · rfl
  · simp [List.lookup_cons, beq_eq_false_iff_ne.mpr hne, lookup_filter_of_ne hne]

/-! ### Directories -/

/-- Two trees have the same directories; the files in them may be different. -/
structure SameDirectories (t t' : FileTree) : Prop where
  here : t.here = t'.here
  directory : ∀ l, t.lookup l = some .directory ↔ t'.lookup l = some .directory

theorem SameDirectories.refl (t : FileTree) : t.SameDirectories t := ⟨rfl, fun _ => Iff.rfl⟩

theorem SameDirectories.symm (h : t.SameDirectories t') : t'.SameDirectories t :=
  ⟨h.here.symm, fun l => (h.directory l).symm⟩

theorem SameDirectories.trans (h : t.SameDirectories t') (h' : t'.SameDirectories t'') :
    t.SameDirectories t'' :=
  ⟨h.here.trans h'.here, fun l => (h.directory l).trans (h'.directory l)⟩

theorem sameDirectories_put_file (h : t.lookup l ≠ some .directory) (content : Content) :
    t.SameDirectories (t.put l (.file content)) := by
  refine ⟨rfl, fun l' => ?_⟩
  by_cases hl : l' = l
  · subst hl
    rw [lookup_put_self t (ne_nil_of_lookup_ne h)]
    simp [h]
  · rw [lookup_put_of_ne t hl]

/-! ### Same files -/

/-- Two trees have the same files; their directories may be different. -/
def SameFiles (t t' : FileTree) : Prop :=
  ∀ l content, t.lookup l = some (.file content) ↔ t'.lookup l = some (.file content)

theorem SameFiles.refl (t : FileTree) : t.SameFiles t := fun _ _ => Iff.rfl

theorem SameFiles.trans (h : t.SameFiles t') (h' : t'.SameFiles t'') : t.SameFiles t'' :=
  fun l content => (h l content).trans (h' l content)

theorem sameFiles_put_directory (h : t.lookup l = none) : t.SameFiles (t.put l .directory) := by
  have hl : l ≠ [] := by
    rintro rfl
    rw [lookup_nil] at h
    cases h
  intro l' content
  by_cases hne : l' = l
  · subst hne
    simp [lookup_put_self t hl, h]
  · rw [lookup_put_of_ne t hne]

/-- A directory is made where nothing is. -/
theorem sameFiles_of_makeDirectory (h : t.makeDirectory p = .ok t') : t.SameFiles t' := by
  unfold makeDirectory at h
  cases hp : t.locate p with
  | error cause => simp [hp, bind, Except.bind] at h
  | ok place =>
    simp only [hp, bind, Except.bind] at h
    cases hplace : t.lookup place with
    | some node => simp [hplace] at h
    | none =>
      simp only [hplace] at h
      cases h
      exact sameFiles_put_directory hplace

/-! ### Following paths -/

/-- Only directories lead on. -/
theorem follow_cons_eq_ok_iff {segment : String} {rest : List String} :
    t.follow l (segment :: rest) = .ok l' ↔
      t.lookup l = some .directory ∧
        (if segment = "." then t.follow l rest
          else if segment = ".." then t.follow l.dropLast rest
          else if maxNameBytes < segment.utf8ByteSize then .error .nameTooLong
          else t.follow (l ++ [segment]) rest) = .ok l' := by
  rw [follow]
  cases t.lookup l with
  | none => simp
  | some node => cases node <;> simp

theorem SameDirectories.follow_eq_ok_iff (h : t.SameDirectories t') (segments : List String) :
    t.follow l segments = .ok l' ↔ t'.follow l segments = .ok l' := by
  induction segments generalizing l with
  | nil => exact Iff.rfl
  | cons segment rest ih =>
    rw [follow_cons_eq_ok_iff, follow_cons_eq_ok_iff, h.directory]
    split
    · rw [ih]
    · split
      · rw [ih]
      · split
        · exact Iff.rfl
        · rw [ih]

theorem SameDirectories.locate_eq_ok_iff (h : t.SameDirectories t') :
    t.locate p = .ok l ↔ t'.locate p = .ok l := by
  unfold locate
  split
  · exact Iff.rfl
  · split
    · exact Iff.rfl
    · split
      · exact Iff.rfl
      · rw [h.here]
        exact h.follow_eq_ok_iff _

/-- Two paths do not lead to the same place. -/
def Apart (t : FileTree) (p q : Path) : Prop :=
  ∀ l, t.locate p = .ok l → t.locate q ≠ .ok l

theorem SameDirectories.apart_iff {q : Path} (h : t.SameDirectories t') :
    t.Apart p q ↔ t'.Apart p q := by
  unfold Apart
  simp only [ne_eq, h.locate_eq_ok_iff]

/-- A name at the end of a path is the name of the place that it leads to. -/
theorem getLast?_of_follow {before : List String} {name : String} (hdot : name ≠ ".")
    (hdots : name ≠ "..") (h : t.follow l (before ++ [name]) = .ok l') :
    l'.getLast? = some name := by
  induction before generalizing l with
  | nil =>
    rw [List.nil_append, follow_cons_eq_ok_iff, if_neg hdot, if_neg hdots] at h
    split at h
    · cases h.2
    · cases h.2
      exact List.getLast?_concat
  | cons segment before ih =>
    rw [List.cons_append, follow_cons_eq_ok_iff] at h
    obtain ⟨-, h⟩ := h
    split at h
    · exact ih h
    · split at h
      · exact ih h
      · split at h
        · cases h
        · exact ih h

theorem getLast?_of_locate_join {name : String} (hne : name ≠ "") (hslash : '/' ∉ name.toList)
    (hdot : name ≠ ".") (hdots : name ≠ "..") (h : t.locate (p.join name) = .ok l) :
    l.getLast? = some name := by
  obtain ⟨before, hsegments⟩ := (p.endsIn_join name).exists_segments hne hslash
  unfold locate at h
  split at h
  · cases h
  · split at h
    · cases h
    · split at h
      · cases h
      · rw [hsegments] at h
        exact getLast?_of_follow hdot hdots h

/-- A path that a stem and an ending are joined to leads to a place of that name. -/
theorem getLast?_of_locate_join_append {stem ending : String} (hslash : '/' ∉ stem.toList)
    (hslash' : '/' ∉ ending.toList) (hlong : 2 < ending.length)
    (h : t.locate (p.join (stem ++ ending)) = .ok l) : l.getLast? = some (stem ++ ending) := by
  have hshort (short : String) (hshort : short.length ≤ 2) : stem ++ ending ≠ short := by
    intro heq
    have hlength := congrArg String.length heq
    rw [String.length_append] at hlength
    omega
  apply getLast?_of_locate_join (hshort "" (by decide)) _ (hshort "." (by decide))
    (hshort ".." (by decide)) h
  simp [hslash, hslash']

/-- Files that different stems and one ending name in a directory are in different places. -/
theorem apart_join_append {stem stem' ending : String} (hne : stem ≠ stem')
    (hslash : '/' ∉ stem.toList) (hslash' : '/' ∉ stem'.toList) (hending : '/' ∉ ending.toList)
    (hlong : 2 < ending.length) : t.Apart (p.join (stem ++ ending)) (p.join (stem' ++ ending)) := by
  intro l h h'
  have hname := (getLast?_of_locate_join_append hslash hending hlong h).symm.trans
    (getLast?_of_locate_join_append hslash' hending hlong h')
  have hlist := congrArg String.toList (Option.some.inj hname)
  rw [String.toList_append, String.toList_append, List.append_cancel_right_eq] at hlist
  exact hne (String.toList_inj.mp hlist)

/-! ### Files -/

theorem find_eq_ok_iff :
    t.find p = .ok (l, node) ↔
      t.locate p = .ok l ∧ t.lookup l = some node ∧
        (node = .directory ∨ p.endsWithSlash = false) := by
  unfold find
  cases hp : t.locate p with
  | error cause => simp [bind, Except.bind]
  | ok place =>
    simp only [bind, Except.bind]
    constructor
    · intro h
      split at h
      · cases h
      · next hplace => cases h; exact ⟨rfl, hplace, .inl rfl⟩
      · next hplace =>
        split at h
        · cases h
        · next hslash => cases h; exact ⟨rfl, hplace, .inr (Bool.eq_false_iff.mpr hslash)⟩
    · rintro ⟨hl, hnode, hslash⟩
      cases hl
      rw [hnode]
      cases node with
      | directory => rfl
      | file content =>
        have hfile : p.endsWithSlash = false := hslash.resolve_left nofun
        simp [hfile, pure, Except.pure]

/-- Where the same stands in two trees, the same is found. -/
theorem SameDirectories.find_eq (h : t.SameDirectories t') (hl : t.locate p = .ok l)
    (hlookup : t'.lookup l = t.lookup l) : t'.find p = t.find p := by
  unfold find
  rw [hl, h.locate_eq_ok_iff.mp hl]
  simp only [bind, Except.bind, hlookup]

theorem SameDirectories.readFile_eq (h : t.SameDirectories t') (hl : t.locate p = .ok l)
    (hlookup : t'.lookup l = t.lookup l) : t'.readFile p = t.readFile p := by
  rw [readFile, readFile, h.find_eq hl hlookup]

theorem exists_locate_of_readFile {bytes : List UInt8} (h : t.readFile p = .ok bytes) :
    ∃ l, t.locate p = .ok l := by
  unfold readFile find at h
  cases hp : t.locate p with
  | error cause => rw [hp] at h; cases h
  | ok l => exact ⟨l, rfl⟩

theorem pathExists_of_readFile {bytes : List UInt8} (h : t.readFile p = .ok bytes) :
    t.pathExists p = true := by
  unfold readFile at h
  unfold pathExists
  cases hp : t.find p with
  | error cause => rw [hp] at h; cases h
  | ok found => rfl

/-- A path leads to a place where a file may be written. -/
def Accepts (t : FileTree) (p : Path) (l : Location) : Prop :=
  t.locate p = .ok l ∧ t.lookup l ≠ some .directory ∧ p.endsWithSlash = false

theorem writeFile_eq_ok_iff :
    t.writeFile p content = .ok t' ↔ ∃ l, t.Accepts p l ∧ t' = t.put l (.file content) := by
  unfold writeFile Accepts
  cases t.locate p with
  | error cause => simp [bind, Except.bind]
  | ok place =>
    simp only [bind, Except.bind, Except.ok.injEq, and_assoc, exists_eq_left']
    cases t.lookup place with
    | none => cases p.endsWithSlash <;> simp [pure, Except.pure, eq_comm]
    | some node =>
      cases node with
      | directory => simp
      | file old => cases p.endsWithSlash <;> simp [pure, Except.pure, eq_comm]

theorem SameDirectories.accepts_iff (h : t.SameDirectories t') : t.Accepts p l ↔ t'.Accepts p l := by
  unfold Accepts
  rw [h.locate_eq_ok_iff, Ne, Ne, h.directory]

namespace Accepts

/-- The written file is found. -/
theorem find_put (h : t.Accepts p l) (content : Content) :
    (t.put l (.file content)).find p = .ok (l, .file content) := by
  obtain ⟨hlocate, hlookup, hslash⟩ := h
  refine find_eq_ok_iff.mpr ⟨?_, ?_, .inr hslash⟩
  · exact (sameDirectories_put_file hlookup content).locate_eq_ok_iff.mp hlocate
  · exact lookup_put_self t (ne_nil_of_lookup_ne hlookup) _

theorem sameDirectories_put (h : t.Accepts p l) (content : Content) :
    t.SameDirectories (t.put l (.file content)) :=
  sameDirectories_put_file h.2.1 content

end Accepts

end DramTiming.FileTree
