import Mathlib.Data.List.Basic
import Mathlib.Data.List.Induction
import Mathlib.Data.List.Nodup
import DramTiming.Session.Run

/-!
# Groups of correlations

Correlations are added to groups one by one.  What comes of it is a group for each manufacturer, in
the order in which they come up, that has all the correlations of this manufacturer, in their order
(`groupByManufacturer_eq`).  So every correlation is in one of the groups only
(`isGrouping_groupByManufacturer`).
-/

namespace DramTiming

variable {c : Correlation} {cs : List Correlation} {manufacturer : String} {ms : List String}

/-! ### Manufacturers -/

/-- The manufacturers of correlations, in the order in which they come up. -/
def manufacturers (cs : List Correlation) : List String :=
  (cs.map fun c => c.label.manufacturer).eraseDups

theorem mem_manufacturers_iff :
    manufacturer ∈ manufacturers cs ↔ ∃ c ∈ cs, c.label.manufacturer = manufacturer := by
  simp [manufacturers]

theorem eraseDups_concat (names : List String) (name : String) :
    (names ++ [name]).eraseDups =
      if name ∈ names then names.eraseDups else names.eraseDups ++ [name] := by
  rw [List.eraseDups_append]
  split
  · next h => simp [List.removeAll, h]
  · next h => simp [List.removeAll, List.eraseDups_cons, h]

theorem manufacturers_concat (cs : List Correlation) (c : Correlation) :
    manufacturers (cs ++ [c]) =
      if c.label.manufacturer ∈ manufacturers cs then manufacturers cs
      else manufacturers cs ++ [c.label.manufacturer] := by
  simp only [manufacturers, List.map_append, List.map_singleton, eraseDups_concat,
    List.mem_eraseDups]

theorem nodup_manufacturers (cs : List Correlation) : (manufacturers cs).Nodup := by
  induction cs using List.reverseRecOn with
  | nil => exact List.nodup_nil
  | append_singleton cs c ih =>
    rw [manufacturers_concat]
    split
    · exact ih
    · next h => exact List.nodup_append_comm.mp (List.nodup_cons.mpr ⟨h, ih⟩)

/-! ### Groups -/

/-- The correlations of a manufacturer, in their order. -/
def groupOf (cs : List Correlation) (manufacturer : String) : Group :=
  ⟨manufacturer, cs.filter fun c => c.label.manufacturer = manufacturer⟩

@[simp] theorem manufacturer_groupOf (cs : List Correlation) (manufacturer : String) :
    (groupOf cs manufacturer).manufacturer = manufacturer := rfl

theorem groupOf_concat_self (cs : List Correlation) (c : Correlation) :
    groupOf (cs ++ [c]) c.label.manufacturer =
      ⟨c.label.manufacturer, (groupOf cs c.label.manufacturer).members ++ [c]⟩ := by
  simp [groupOf]

theorem groupOf_concat_of_ne (cs : List Correlation) (h : c.label.manufacturer ≠ manufacturer) :
    groupOf (cs ++ [c]) manufacturer = groupOf cs manufacturer := by
  simp [groupOf, h]

theorem map_groupOf_concat (cs : List Correlation) (h : c.label.manufacturer ∉ ms) :
    ms.map (groupOf (cs ++ [c])) = ms.map (groupOf cs) := by
  apply List.map_congr_left
  intro m hm
  apply groupOf_concat_of_ne
  rintro rfl
  exact h hm

/-- A correlation is added to the group of its manufacturer. -/
theorem addToGroups_of_mem (cs : List Correlation) (hnodup : ms.Nodup)
    (h : c.label.manufacturer ∈ ms) :
    addToGroups c (ms.map (groupOf cs)) = ms.map (groupOf (cs ++ [c])) := by
  induction ms with
  | nil => cases h
  | cons m ms ih =>
    obtain ⟨hm, hms⟩ := List.nodup_cons.mp hnodup
    rw [List.map_cons, List.map_cons, addToGroups, manufacturer_groupOf]
    by_cases hsame : m = c.label.manufacturer
    · subst hsame
      rw [if_pos rfl, groupOf_concat_self, map_groupOf_concat cs hm]
    · have hrest := (List.mem_cons.mp h).resolve_left (Ne.symm hsame)
      rw [if_neg hsame, ih hms hrest, groupOf_concat_of_ne cs (Ne.symm hsame)]

/-- A correlation of a new manufacturer opens a group. -/
theorem addToGroups_of_not_mem (cs : List Correlation) (h : c.label.manufacturer ∉ ms) :
    addToGroups c (ms.map (groupOf cs)) =
      ms.map (groupOf cs) ++ [⟨c.label.manufacturer, [c]⟩] := by
  induction ms with
  | nil => rfl
  | cons m ms ih =>
    obtain ⟨hm, hms⟩ := not_or.mp (List.mem_cons.not.mp h)
    rw [List.map_cons, addToGroups, manufacturer_groupOf, if_neg (Ne.symm hm), ih hms]
    rfl

/-- There is a group for each manufacturer. -/
theorem groupByManufacturer_eq (cs : List Correlation) :
    groupByManufacturer cs = (manufacturers cs).map (groupOf cs) := by
  induction cs using List.reverseRecOn with
  | nil => rfl
  | append_singleton cs c ih =>
    have hstep : groupByManufacturer (cs ++ [c]) = addToGroups c (groupByManufacturer cs) := by
      simp [groupByManufacturer]
    rw [hstep, ih, manufacturers_concat]
    split
    · next h => exact addToGroups_of_mem cs (nodup_manufacturers cs) h
    · next h =>
      have hnone : (groupOf cs c.label.manufacturer).members = [] := by
        apply List.filter_eq_nil_iff.mpr
        intro c' hc'
        simpa using fun hsame => h (mem_manufacturers_iff.mpr ⟨c', hc', hsame⟩)
      rw [addToGroups_of_not_mem cs h, List.map_append, map_groupOf_concat cs h,
        List.map_singleton, groupOf_concat_self, hnone]
      rfl

/-- The members of the groups are the correlations, in another order. -/
theorem perm_flatMap_groupOf (hnodup : ms.Nodup) (h : ∀ c ∈ cs, c.label.manufacturer ∈ ms) :
    (ms.flatMap fun m => (groupOf cs m).members).Perm cs := by
  induction ms generalizing cs with
  | nil =>
    obtain rfl : cs = [] := List.eq_nil_iff_forall_not_mem.mpr fun c hc => nomatch h c hc
    exact .refl _
  | cons m ms ih =>
    obtain ⟨hm, hms⟩ := List.nodup_cons.mp hnodup
    -- The other groups are those of the correlations that are not of this manufacturer.
    let others := cs.filter fun c => !decide (c.label.manufacturer = m)
    have hothers : ∀ c ∈ others, c.label.manufacturer ∈ ms := by
      intro c hc
      obtain ⟨hc, hne⟩ := List.mem_filter.mp hc
      exact (List.mem_cons.mp (h c hc)).resolve_left (by simpa using hne)
    have hsame : ∀ m' ∈ ms, (groupOf cs m').members = (groupOf others m').members := by
      intro m' hm'
      have hne : m' ≠ m := by
        rintro rfl
        exact hm hm'
      simp only [groupOf, others, List.filter_filter]
      apply List.filter_congr
      intro c _
      by_cases hc : c.label.manufacturer = m'
      · simp [hc, hne]
      · simp [hc]
    rw [List.flatMap_cons, List.flatMap_congr hsame]
    have hperm : ((groupOf cs m).members ++ ms.flatMap fun m' => (groupOf others m').members).Perm
        ((groupOf cs m).members ++ others) := (ih hms hothers).append_left _
    exact hperm.trans (List.filter_append_perm _ cs)

/-- These are the groups of correlations by manufacturer. -/
structure IsGrouping (groups : List Group) (cs : List Correlation) : Prop where
  /-- There is a group for each manufacturer, in the order in which they come up. -/
  order : groups.map Group.manufacturer = manufacturers cs
  nodup : (groups.map Group.manufacturer).Nodup
  /-- The members of a group stand in the order of the correlations. -/
  members : ∀ g ∈ groups, g.members = cs.filter fun c => c.label.manufacturer = g.manufacturer
  /-- A correlation is in one group only, that of its manufacturer. -/
  unique : ∀ c ∈ cs, ∃ g ∈ groups, g.manufacturer = c.label.manufacturer ∧
    ∀ g' ∈ groups, c ∈ g'.members ↔ g' = g
  perm : (groups.flatMap Group.members).Perm cs

theorem isGrouping_groupByManufacturer (cs : List Correlation) :
    IsGrouping (groupByManufacturer cs) cs := by
  rw [groupByManufacturer_eq]
  have horder : ((manufacturers cs).map (groupOf cs)).map Group.manufacturer =
      manufacturers cs := by
    rw [List.map_map]
    exact List.map_id _
  refine ⟨horder, ?_, ?_, ?_, ?_⟩
  · rw [horder]
    exact nodup_manufacturers cs
  · intro g hg
    obtain ⟨m, -, rfl⟩ := List.mem_map.mp hg
    rfl
  · intro c hc
    have hm : c.label.manufacturer ∈ manufacturers cs := mem_manufacturers_iff.mpr ⟨c, hc, rfl⟩
    refine ⟨groupOf cs c.label.manufacturer, List.mem_map_of_mem hm, rfl, ?_⟩
    intro g hg
    obtain ⟨m, -, rfl⟩ := List.mem_map.mp hg
    constructor
    · intro hmem
      obtain ⟨-, hsame⟩ := List.mem_filter.mp hmem
      rw [of_decide_eq_true hsame]
    · intro heq
      rw [heq]
      exact List.mem_filter.mpr ⟨hc, decide_eq_true rfl⟩
  · rw [List.flatMap_map]
    exact perm_flatMap_groupOf (nodup_manufacturers cs) fun c hc =>
      mem_manufacturers_iff.mpr ⟨c, hc, rfl⟩

/-- The manufacturers of the groups are those of the correlations. -/
theorem exists_mem_groupByManufacturer_iff :
    (∃ g ∈ groupByManufacturer cs, g.manufacturer = manufacturer) ↔
      ∃ c ∈ cs, c.label.manufacturer = manufacturer := by
  rw [groupByManufacturer_eq, ← mem_manufacturers_iff]
  simp

end DramTiming
