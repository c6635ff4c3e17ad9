import Mathlib.Data.Option.Basic
import DramTiming.Proofs.Lookup
import DramTiming.Toml.Document

/-!
# Distinct keys

In the entries of a document, and in each table within them, no key comes up twice
(`parse?_distinct`).  Reading goes through values, changes of entries, and lines; each of them keeps
the keys distinct, because a key is only added where it is missing.
-/

namespace DramTiming.Toml

/-- In no table of the value a key comes up twice. -/
inductive Value.Distinct : Value → Prop
  | string (text : String) : Distinct (.string text)
  | integer (n : Int) : Distinct (.integer n)
  | float (x : Binary64) : Distinct (.float x)
  | boolean (b : Bool) : Distinct (.boolean b)
  | datetime : Distinct .datetime
  | array {byHeaders elements} : (∀ v ∈ elements, Distinct v) →
      Distinct (.array byHeaders elements)
  | table {origin entries} : (entries.map Prod.fst).Nodup →
      (∀ entry ∈ entries, Distinct entry.2) → Distinct (.table origin entries)

/-- No key comes up twice, neither here nor in a table of the values. -/
structure Entries.Distinct (entries : Entries) : Prop where
  nodup : (entries.map Prod.fst).Nodup
  values : ∀ entry ∈ entries, entry.2.Distinct

theorem Value.distinct_table_iff {origin : Origin} {entries : Entries} :
    (Value.table origin entries).Distinct ↔ entries.Distinct := by
  constructor
  · rintro (_ | _ | _ | _ | _ | _ | ⟨hnodup, hvalues⟩)
    exact ⟨hnodup, hvalues⟩
  · exact fun h => .table h.nodup h.values

theorem Value.distinct_array_iff {byHeaders : Bool} {elements : List Value} :
    (Value.array byHeaders elements).Distinct ↔ ∀ v ∈ elements, v.Distinct := by
  constructor
  · rintro (_ | _ | _ | _ | _ | h)
    exact h
  · exact .array

namespace Entries

variable {entries entries' : Entries} {key : String} {value : Value} {origin origin' : Origin}

/-! ### Changes of entries -/

namespace Distinct

theorem nil : Distinct [] := ⟨.nil, nofun⟩

theorem append (h : entries.Distinct) (hfree : entries.lookup key = none)
    (hvalue : value.Distinct) : Distinct (entries ++ [(key, value)]) := by
  have hkey := lookup_eq_none_iff_not_mem.mp hfree
  constructor
  · rw [List.map_append, List.map_singleton, ← List.concat_eq_append]
    exact h.nodup.concat hkey
  · intro entry hentry
    rcases List.mem_append.mp hentry with hentry | hentry
    · exact h.values entry hentry
    · obtain rfl := List.mem_singleton.mp hentry
      exact hvalue

theorem lookup (h : entries.Distinct) (hlookup : entries.lookup key = some value) :
    value.Distinct :=
  h.values _ (mem_of_lookup_eq_some hlookup)

theorem replace (h : entries.Distinct) (hvalue : value.Distinct) :
    Distinct (entries.replace key value) := by
  have hkeys : (entries.replace key value).map Prod.fst = entries.map Prod.fst := by
    rw [Entries.replace, List.map_map]
    refine List.map_congr_left fun entry _ => ?_
    show (if entry.1 = key then (key, value) else entry).1 = entry.1
    split
    · next hsame => exact hsame.symm
    · rfl
  refine ⟨hkeys ▸ h.nodup, fun entry hentry => ?_⟩
  obtain ⟨before, hbefore, rfl⟩ := List.mem_map.mp hentry
  split
  · exact hvalue
  · exact h.values before hbefore

end Distinct

/-- A step of reading keeps keys distinct. -/
def KeepsDistinct (step : Origin → Entries → Option (Origin × Entries)) : Prop :=
  ∀ ⦃origin entries origin' entries'⦄, Distinct entries →
    step origin entries = some (origin', entries') → Distinct entries'

theorem keepsDistinct_add (dotted : Bool) (key : String) (hvalue : value.Distinct) :
    KeepsDistinct (add dotted key value) := by
  intro origin entries origin' entries' h hstep
  simp only [add, Option.bind_eq_bind, Option.bind_eq_some_iff, Option.guard_eq_some',
    Option.isNone_iff_eq_none] at hstep
  obtain ⟨-, -, -, hfree, ⟨⟩⟩ := hstep
  exact h.append hfree hvalue

theorem keepsDistinct_openTable (key : String) : KeepsDistinct (openTable key) := by
  intro origin entries origin' entries' h hstep
  unfold openTable at hstep
  split at hstep
  · next hfree =>
    cases hstep
    exact h.append hfree (.table .nil nofun)
  · next inner hinner =>
    cases hstep
    exact h.replace (Value.distinct_table_iff.mpr
      (Value.distinct_table_iff.mp (h.lookup hinner)))
  · cases hstep

theorem keepsDistinct_openElement (key : String) : KeepsDistinct (openElement key) := by
  intro origin entries origin' entries' h hstep
  have hnew : (Value.table .header []).Distinct := .table .nil nofun
  unfold openElement at hstep
  split at hstep
  · next hfree =>
    cases hstep
    exact h.append hfree (.array (List.forall_mem_singleton.mpr hnew))
  · next elements helements =>
    cases hstep
    have hold := Value.distinct_array_iff.mp (h.lookup helements)
    exact h.replace (.array (List.forall_mem_append.mpr
      ⟨hold, List.forall_mem_singleton.mpr hnew⟩))
  · cases hstep

/-- What keeps keys distinct does so at the end of any path. -/
theorem KeepsDistinct.change {step : Origin → Entries → Option (Origin × Entries)}
    (hstep : KeepsDistinct step) (onKeys : Bool) (path : List String) :
    KeepsDistinct (change onKeys step path) := by
  induction path with
  | nil => exact hstep
  | cons key path ih =>
    intro origin entries origin' entries' h hchange
    rw [Entries.change] at hchange
    split at hchange
    · -- A table is made on the way.
      next hfree =>
      obtain ⟨⟨made, inner⟩, hinner, ⟨⟩⟩ := Option.bind_eq_some_iff.mp hchange
      exact h.append hfree (Value.distinct_table_iff.mpr (ih .nil hinner))
    · cases hchange
    · next below inner _ htable =>
      simp only [Option.bind_eq_bind, Option.bind_eq_some_iff] at hchange
      obtain ⟨-, -, ⟨below', inner'⟩, hinner, ⟨⟩⟩ := hchange
      have hbelow := Value.distinct_table_iff.mp (h.lookup htable)
      exact h.replace (Value.distinct_table_iff.mpr (ih hbelow hinner))
    · next elements harray =>
      have helements := Value.distinct_array_iff.mp (h.lookup harray)
      split at hchange
      · next below inner hlast =>
        obtain ⟨⟨below', inner'⟩, hinner, ⟨⟩⟩ := Option.bind_eq_some_iff.mp hchange
        have hbelow := Value.distinct_table_iff.mp (helements _ (List.mem_of_getLast? hlast))
        refine h.replace (.array (List.forall_mem_append.mpr ⟨fun v hv => ?_, ?_⟩))
        · exact helements v (List.dropLast_subset elements hv)
        · exact List.forall_mem_singleton.mpr (Value.distinct_table_iff.mpr (ih hbelow hinner))
      · cases hchange
    · cases hchange

theorem keepsDistinct_addAt (path : List String) (key : String) (hvalue : value.Distinct) :
    KeepsDistinct (addAt path key value) :=
  (keepsDistinct_add (!path.isEmpty) key hvalue).change true path

end Entries

/-! ### Values -/

/-- A reader of values gives values with distinct keys. -/
def ValueReader.GivesDistinct (value? : ValueReader) : Prop :=
  ∀ ⦃cs value rest⦄, value? cs = some (value, rest) → value.Distinct

theorem givesDistinct_number? : ValueReader.GivesDistinct number? := by
  intro cs value rest h
  have hbased (base : Nat) (cs : List Char) (h : basedInteger? base cs = some (value, rest)) :
      value.Distinct := by
    simp only [basedInteger?, Option.bind_eq_bind, Option.bind_eq_some_iff] at h
    obtain ⟨-, -, -, -, ⟨⟩⟩ := h
    exact .integer _
  unfold number? at h
  split at h
  · exact hbased 16 _ h
  · exact hbased 8 _ h
  · exact hbased 2 _ h
  · dsimp only at h
    split at h
    · unfold specialFloat? at h
      split at h
      · cases h
        exact .float _
      · cases h
        exact .float _
      · cases h
    · split at h
      · obtain ⟨x, hfloat, ⟨⟩⟩ := Option.map_eq_some_iff.mp h
        obtain ⟨y, -, hvalue⟩ := Option.bind_eq_some_iff.mp hfloat
        split at hvalue
        · cases hvalue
        · cases hvalue
          exact .float y
      · obtain ⟨n, -, ⟨⟩⟩ := Option.map_eq_some_iff.mp h
        exact .integer n

theorem givesDistinct_datetime? : ValueReader.GivesDistinct datetime? := by
  intro cs value rest h
  unfold datetime? at h
  split at h
  · split at h
    · split at h
      · cases h
        exact .datetime
      · cases h
        exact .datetime
    · cases h
      exact .datetime
  · cases h
    exact .datetime
  · obtain ⟨rest', -, ⟨⟩⟩ := Option.map_eq_some_iff.mp h
    exact .datetime

theorem givesDistinct_scalar? : ValueReader.GivesDistinct scalar? := by
  intro cs value rest h
  unfold scalar? at h
  split at h
  · cases h
    exact .boolean true
  · cases h
    exact .boolean false
  · split at h
    · cases h
      exact .string _
    · rcases Option.or_eq_some_iff.mp h with hdate | ⟨-, hnumber⟩
      · exact givesDistinct_datetime? hdate
      · exact givesDistinct_number? hnumber

section

variable {value? : ValueReader} {fuel : Nat} {cs rest : List Char}

theorem distinct_of_elements? (hvalue : ValueReader.GivesDistinct value?) {elements : List Value}
    (h : elements? value? fuel cs = some (elements, rest)) : ∀ v ∈ elements, v.Distinct := by
  induction fuel generalizing cs elements with
  | zero => cases h
  | succ fuel ih =>
    rw [elements?] at h
    split at h
    · cases h
      exact nofun
    · obtain ⟨⟨first, afterFirst⟩, hfirst, h⟩ := Option.bind_eq_some_iff.mp h
      dsimp only at h
      split at h
      · cases h
        exact List.forall_mem_singleton.mpr (hvalue hfirst)
      · obtain ⟨⟨others, rest'⟩, hothers, ⟨⟩⟩ := Option.bind_eq_some_iff.mp h
        exact List.forall_mem_cons.mpr ⟨hvalue hfirst, ih hothers⟩
      · cases h

theorem distinct_of_pair? (hvalue : ValueReader.GivesDistinct value?) {path : List String}
    {key : String} {value : Value} (h : pair? value? cs = some (path, key, value, rest)) :
    value.Distinct := by
  simp only [pair?, Option.bind_eq_bind, Option.bind_eq_some_iff] at h
  obtain ⟨_, -, _, -, ⟨value', rest'⟩, hread, _, -, ⟨⟩⟩ := h
  exact hvalue hread

theorem distinct_of_bracedPairs? (hvalue : ValueReader.GivesDistinct value?)
    {entries entries' : Entries} (hentries : entries.Distinct)
    (h : bracedPairs? value? fuel entries cs = some (entries', rest)) : entries'.Distinct := by
  induction fuel generalizing cs entries with
  | zero => cases h
  | succ fuel ih =>
    simp only [bracedPairs?, Option.bind_eq_bind, Option.bind_eq_some_iff] at h
    obtain ⟨⟨path, key, value, afterPair⟩, hpair, ⟨origin, more⟩, hadd, h⟩ := h
    have hmore : more.Distinct :=
      Entries.keepsDistinct_addAt path key (distinct_of_pair? hvalue hpair) hentries hadd
    dsimp only at h
    split at h
    · cases h
      exact hmore
    · exact ih hmore h
    · cases h

theorem givesDistinct_valueTo? (depth : Nat) : ValueReader.GivesDistinct (valueTo? depth) := by
  induction depth with
  | zero =>
    intro cs value rest h
    unfold valueTo? at h
    split at h
    · cases h
    · cases h
    · exact givesDistinct_scalar? h
  | succ depth ih =>
    intro cs value rest h
    unfold valueTo? at h
    split at h
    · obtain ⟨⟨elements, rest'⟩, helements, ⟨⟩⟩ := Option.map_eq_some_iff.mp h
      exact .array (distinct_of_elements? ih helements)
    · split at h
      · cases h
        exact .table .nil nofun
      · obtain ⟨⟨entries, rest'⟩, hentries, ⟨⟩⟩ := Option.map_eq_some_iff.mp h
        exact Value.distinct_table_iff.mpr (distinct_of_bracedPairs? ih .nil hentries)
    · exact givesDistinct_scalar? h

end

/-! ### Lines -/

namespace Draft

variable {d d' : Draft}

theorem distinct_of_update {step : Origin → Entries → Option (Origin × Entries)}
    (hstep : Entries.KeepsDistinct step) (hd : d.entries.Distinct)
    (h : d.update step = some d') : d'.entries.Distinct := by
  obtain ⟨⟨origin, entries⟩, hentries, ⟨⟩⟩ := Option.map_eq_some_iff.mp h
  exact hstep hd hentries

theorem distinct_of_addPair {path : List String} {key : String} {value : Value}
    (hvalue : value.Distinct) (hd : d.entries.Distinct)
    (h : d.addPair path key value = some d') : d'.entries.Distinct :=
  distinct_of_update ((Entries.keepsDistinct_addAt path key hvalue).change false d.here) hd h

theorem distinct_of_enter {path : List String}
    {openWith : String → Origin → Entries → Option (Origin × Entries)}
    (hopen : ∀ key, Entries.KeepsDistinct (openWith key)) (hd : d.entries.Distinct)
    (h : d.enter path openWith = some d') : d'.entries.Distinct := by
  simp only [enter, Option.bind_eq_bind, Option.bind_eq_some_iff] at h
  obtain ⟨key, -, d₁, hupdate, ⟨⟩⟩ := h
  have hstep := (hopen key).change false path.dropLast
  exact (distinct_of_update hstep hd hupdate : d₁.entries.Distinct)

end Draft

theorem distinct_of_header? {d d' : Draft} {cs rest : List Char} (hd : d.entries.Distinct)
    (h : header? d cs = some (d', rest)) : d'.entries.Distinct := by
  unfold header? at h
  split at h
  · simp only [Option.bind_eq_bind, Option.bind_eq_some_iff] at h
    obtain ⟨_, -, _, -, _, -, d₁, henter, _, -, ⟨⟩⟩ := h
    exact Draft.distinct_of_enter Entries.keepsDistinct_openElement hd henter
  · simp only [Option.bind_eq_bind, Option.bind_eq_some_iff] at h
    obtain ⟨_, -, _, -, d₁, henter, _, -, ⟨⟩⟩ := h
    exact Draft.distinct_of_enter Entries.keepsDistinct_openTable hd henter

theorem distinct_of_lines? {fuel : Nat} {d : Draft} {cs : List Char} {entries : Entries}
    (hd : d.entries.Distinct) (h : lines? fuel d cs = some entries) : entries.Distinct := by
  induction fuel generalizing d cs with
  | zero => cases h
  | succ fuel ih =>
    rw [lines?] at h
    split at h
    · cases h
      exact hd
    · obtain ⟨⟨d₁, rest⟩, hheader, h⟩ := Option.bind_eq_some_iff.mp h
      exact ih (distinct_of_header? hd hheader) h
    · split at h
      · obtain ⟨rest, -, h⟩ := Option.bind_eq_some_iff.mp h
        exact ih hd h
      · simp only [Option.bind_eq_bind, Option.bind_eq_some_iff] at h
        obtain ⟨⟨path, key, value, afterPair⟩, hpair, d₁, hadd, rest, -, h⟩ := h
        have hvalue := distinct_of_pair? (givesDistinct_valueTo? _) hpair
        exact ih (Draft.distinct_of_addPair hvalue hd hadd) h

/-- In the entries of a document no key comes up twice. -/
theorem parse?_distinct {text : List Char} {entries : Entries} (h : parse? text = some entries) :
    entries.Distinct :=
  distinct_of_lines? .nil h

end DramTiming.Toml
