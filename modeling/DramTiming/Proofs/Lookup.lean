import Mathlib.Data.List.Nodup

/-!
# Values by key

Looking up a key gives its first value.  Where keys are distinct, that is any value it has.
-/

namespace DramTiming

variable {κ α : Type} [BEq κ] [LawfulBEq κ] {entries : List (κ × α)} {key : κ} {a : α}

theorem lookup_eq_none_iff_not_mem :
    entries.lookup key = none ↔ key ∉ entries.map Prod.fst := by
  rw [List.lookup_eq_none_iff, List.mem_map]
  constructor
  · rintro h ⟨entry, hentry, rfl⟩
    exact bne_iff_ne.mp (h entry hentry) rfl
  · exact fun h entry hentry => bne_iff_ne.mpr fun heq => h ⟨entry, hentry, heq.symm⟩

theorem mem_of_lookup_eq_some (h : entries.lookup key = some a) : (key, a) ∈ entries := by
  obtain ⟨before, after, rfl, -⟩ := List.lookup_eq_some_iff.mp h
  exact List.mem_append_right _ List.mem_cons_self

theorem lookup_eq_some_iff_mem (hnodup : (entries.map Prod.fst).Nodup) :
    entries.lookup key = some a ↔ (key, a) ∈ entries := by
  refine ⟨mem_of_lookup_eq_some, fun hmem => ?_⟩
  obtain ⟨before, after, rfl⟩ := List.append_of_mem hmem
  rw [List.map_append, List.map_cons, List.nodup_append] at hnodup
  have hbefore : before.lookup key = none := lookup_eq_none_iff_not_mem.mpr fun hkey =>
    hnodup.2.2 key hkey key List.mem_cons_self rfl
  rw [List.lookup_append, hbefore, List.lookup_cons_self]
  rfl

end DramTiming
