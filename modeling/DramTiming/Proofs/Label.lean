import Mathlib.Data.List.DropRight
import Mathlib.Data.List.TakeDrop
import Mathlib.Data.Option.Basic
import DramTiming.Label
import DramTiming.Proofs.Decimal.Integer
import DramTiming.Proofs.Files.Path
import DramTiming.Proofs.Text.Utf8

/-!
# Which names are read

`IsStem m digits pattern t p` says that the name made of a manufacturer `m`, some `digits`, an `x`
and a `pattern` tells the temperature `t` and the data pattern `p`.  Main statements: these are the
names from which both are read (`readStem?_eq_some_iff`), and a name that is read can be written
again from what is read (`names_read_back`).
-/

namespace DramTiming.Label

open Decimal (AreDigits IsWhole max32)

variable {cs m digits pattern before after : List Char} {t p : Nat}

/-! ### Splitting names -/

theorem splitAtLastX?_append (h : 'x' ∉ after) :
    splitAtLastX? (before ++ 'x' :: after) = some (before, after) := by
  have hafter : ∀ c ∈ after.reverse, decide (c ≠ 'x') = true := by
    intro c hc
    rw [decide_eq_true_eq]
    rintro rfl
    exact h (List.mem_reverse.mp hc)
  have hspan : (before ++ 'x' :: after).reverse.span (· ≠ 'x') =
      (after.reverse, 'x' :: before.reverse) := by
    rw [List.span_eq_takeWhile_dropWhile, List.reverse_append, List.reverse_cons,
      List.append_assoc, List.takeWhile_append_of_pos hafter, List.dropWhile_append_of_pos hafter]
    simp
  unfold splitAtLastX?
  rw [hspan]
  simp

theorem splitAtLastX?_of_not_mem (h : 'x' ∉ cs) : splitAtLastX? cs = none := by
  have hspan : cs.reverse.span (· ≠ 'x') = (cs.reverse, []) := by
    rw [List.span_eq_takeWhile_dropWhile, Prod.mk.injEq, List.takeWhile_eq_self_iff,
      List.dropWhile_eq_nil_iff]
    simp only [List.mem_reverse, decide_eq_true_eq]
    exact ⟨fun c hc heq => h (heq ▸ hc), fun c hc heq => h (heq ▸ hc)⟩
  unfold splitAtLastX?
  rw [hspan]

theorem splitAtLastX?_eq_some_iff :
    splitAtLastX? cs = some (before, after) ↔ cs = before ++ 'x' :: after ∧ 'x' ∉ after := by
  constructor
  · intro h
    by_cases hx : 'x' ∈ cs
    · -- The last `x` is the first one from behind.
      obtain ⟨after', before', hcs, hafter⟩ := List.eq_append_cons_of_mem (List.mem_reverse.mpr hx)
      obtain rfl : cs = before'.reverse ++ 'x' :: after'.reverse := by
        rw [← List.reverse_inj, hcs]
        simp
      rw [← List.mem_reverse] at hafter
      rw [splitAtLastX?_append hafter] at h
      cases h
      exact ⟨rfl, hafter⟩
    · rw [splitAtLastX?_of_not_mem hx] at h
      cases h
  · rintro ⟨rfl, h⟩
    exact splitAtLastX?_append h

theorem splitBeforeDigits_eq_iff :
    splitBeforeDigits cs = (m, digits) ↔
      cs = m ++ digits ∧ (∀ c ∈ digits, c.isDigit) ∧ ∀ c ∈ m.getLast?, c.isDigit = false := by
  have hsplit : splitBeforeDigits cs =
      (cs.rdropWhile Char.isDigit, cs.rtakeWhile Char.isDigit) := by
    unfold splitBeforeDigits
    rw [List.span_eq_takeWhile_dropWhile]
    rfl
  rw [hsplit, Prod.mk.injEq]
  constructor
  · rintro ⟨rfl, rfl⟩
    refine ⟨List.rdropWhile_append_rtakeWhile.symm, fun _ => List.mem_rtakeWhile_imp, ?_⟩
    intro c hc
    obtain ⟨hne, rfl⟩ := List.mem_getLast?_eq_getLast hc
    exact Bool.eq_false_iff.mpr (List.rdropWhile_last_not _ _ hne)
  · rintro ⟨rfl, hdigits, hm⟩
    have hname : (m ++ digits).rdropWhile Char.isDigit = m := by
      have hself : m.rdropWhile Char.isDigit = m := by
        rw [List.rdropWhile_eq_self_iff]
        intro hne
        simp [hm _ (List.getLast?_eq_some_getLast hne)]
      have hreverse : ∀ c ∈ digits.reverse, c.isDigit := by simpa using hdigits
      rw [List.rdropWhile, List.reverse_append, List.dropWhile_append_of_pos hreverse]
      exact hself
    refine ⟨hname, ?_⟩
    -- What is left beside the name are the digits.
    have happend : (m ++ digits).rdropWhile Char.isDigit ++ (m ++ digits).rtakeWhile Char.isDigit =
        m ++ digits := List.rdropWhile_append_rtakeWhile
    rw [hname] at happend
    exact List.append_cancel_left happend

/-! ### Names that are read -/

/-- A name of a manufacturer, digits, an `x` and a pattern tells a temperature and a data pattern.
-/
structure IsStem (m digits pattern : List Char) (t p : Nat) : Prop where
  m_ne_nil : m ≠ []
  separate : ∀ c ∈ m.getLast?, c.isDigit = false
  digits_ne_nil : digits ≠ []
  temperature : AreDigits 10 digits t
  temperature_le : t ≤ max32
  short : Text.byteLength pattern ≤ 2
  dataPattern : IsWhole 16 pattern p
  dataPattern_le : p ≤ 255

theorem not_mem_of_areDigits {base n : Nat} {c : Char} (h : AreDigits base cs n)
    (hc : c.toNat < 0x30 ∨ 0x66 < c.toNat) : c ∉ cs := by
  intro hmem
  obtain ⟨hlo, hhi⟩ := h.toNat_bounds c hmem
  omega

theorem x_not_mem_of_isWhole {base n : Nat} (h : IsWhole base cs n) : 'x' ∉ cs := by
  cases h with
  | unsigned _ hdigits => exact not_mem_of_areDigits hdigits (by decide)
  | plus _ hdigits => simpa using not_mem_of_areDigits hdigits (by decide)

theorem toOption_eq_some_iff {ε α : Type} {x : Except ε α} {a : α} :
    x.toOption = some a ↔ x = .ok a := by
  cases x <;> simp [Except.toOption]

/-- Temperature and data pattern are read from exactly these names. -/
theorem readStem?_eq_some_iff :
    readStem? cs = some (m, t, p) ↔
      ∃ digits pattern, cs = m ++ digits ++ 'x' :: pattern ∧ IsStem m digits pattern t p := by
  unfold readStem?
  simp only [bind, Option.bind_eq_some_iff, Prod.exists, splitAtLastX?_eq_some_iff,
    Option.guard_eq_some', toOption_eq_some_iff, Bool.and_eq_true, Bool.not_eq_true',
    List.isEmpty_eq_false_iff, decide_eq_true_eq, exists_const, pure, Option.some.injEq,
    Prod.mk.injEq, Decimal.readNat_eq_ok_iff (show 1 ≤ 16 by decide),
    Decimal.readNat_eq_ok_iff (show 1 ≤ 10 by decide)]
  constructor
  · rintro ⟨head, pattern, ⟨rfl, -⟩, ⟨-, hshort⟩, _, ⟨hpattern, hp⟩, ⟨hm, hdigits⟩, _,
      ⟨htemperature, ht⟩, rfl, rfl, rfl⟩
    obtain ⟨hhead, hall, hseparate⟩ :=
      splitBeforeDigits_eq_iff.mp (Prod.eta (splitBeforeDigits head)).symm
    have hplus : '+' ∉ (splitBeforeDigits head).2 := by
      intro hmem
      exact absurd (hall _ hmem) (by decide)
    refine ⟨(splitBeforeDigits head).2, pattern, by rw [← hhead], ?_⟩
    exact ⟨hm, hseparate, hdigits, htemperature.areDigits hplus, ht, hshort, hpattern, hp⟩
  · rintro ⟨digits, pattern, rfl, h⟩
    have hsplit : splitBeforeDigits (m ++ digits) = (m, digits) :=
      splitBeforeDigits_eq_iff.mpr ⟨rfl, h.temperature.isDigit, h.separate⟩
    refine ⟨m ++ digits, pattern, ⟨rfl, x_not_mem_of_isWhole h.dataPattern⟩,
      ⟨h.dataPattern.ne_nil, h.short⟩, p, ⟨h.dataPattern, h.dataPattern_le⟩, ?_⟩
    rw [hsplit]
    have htemperature : IsWhole 10 digits t := .unsigned h.digits_ne_nil h.temperature
    exact ⟨⟨h.m_ne_nil, h.digits_ne_nil⟩, t, ⟨htemperature, h.temperature_le⟩, rfl, rfl, rfl⟩

theorem ofStem_eq_of_isStem {m stem : String}
    (hstem : stem.toList = m.toList ++ digits ++ 'x' :: pattern)
    (h : IsStem m.toList digits pattern t p) : ofStem stem = ⟨m, some p, some t, none⟩ := by
  have hread : readStem? stem.toList = some (m.toList, t, p) :=
    readStem?_eq_some_iff.mpr ⟨digits, pattern, hstem, h⟩
  rw [ofStem, hread]
  simp

/-! ### Written names -/

/-- The two hexadecimal digits that a data pattern is written in. -/
def hexPair (p : Nat) : List Char := (patternText p).toList.drop 2

theorem hexPair_eq (p : Nat) :
    hexPair p = List.replicate (2 - (Nat.toDigits 16 p).length) '0' ++ Nat.toDigits 16 p := by
  simp [hexPair, patternText]

theorem areDigits_hexPair (p : Nat) : AreDigits 16 (hexPair p) p := by
  rw [hexPair_eq]
  exact (Decimal.areDigits_toDigits (by decide) (by decide) p).replicate_append (by decide) _

theorem length_hexPair (hp : p ≤ 255) : (hexPair p).length = 2 := by
  have hlength : (Nat.toDigits 16 p).length ≤ 2 :=
    (Nat.length_toDigits_le_iff (by decide) (by decide)).mpr (by omega)
  rw [hexPair_eq, List.length_append, List.length_replicate]
  omega

/-- The name of a file for a manufacturer, a temperature and a data pattern. -/
def stemOf (manufacturer : String) (t p : Nat) : String :=
  manufacturer ++ toString t ++ "x" ++ String.ofList (hexPair p)

/-- A name that can be told from a temperature after it. -/
structure IsManufacturer (m : String) : Prop where
  ne_empty : m ≠ ""
  separate : ∀ c ∈ m.toList.getLast?, c.isDigit = false

/-- One or two hexadecimal digits make a data pattern. -/
theorem IsManufacturer.isStem {m : String} (hm : IsManufacturer m) (ht : t ≤ max32)
    (hpattern : AreDigits 16 pattern p) (hne : pattern ≠ []) (hlength : pattern.length ≤ 2) :
    IsStem m.toList (Nat.toDigits 10 t) pattern t p where
  m_ne_nil := by simpa using hm.ne_empty
  separate := hm.separate
  digits_ne_nil := Nat.toDigits_ne_nil
  temperature := Decimal.areDigits_toDigits (by decide) (by decide) t
  temperature_le := ht
  short := by
    rw [Text.byteLength_eq_length]
    · exact hlength
    · intro c hc
      exact Nat.lt_of_le_of_lt (hpattern.toNat_bounds c hc).2 (by decide)
  dataPattern := .unsigned hne hpattern
  dataPattern_le := by
    have hlt : p < 16 ^ 2 :=
      Nat.lt_of_lt_of_le hpattern.lt_pow (Nat.pow_le_pow_right (by decide) hlength)
    omega

theorem ofStem_stemOf {m : String} (hm : IsManufacturer m) (ht : t ≤ max32) (hp : p ≤ 255) :
    ofStem (stemOf m t p) = ⟨m, some p, some t, none⟩ := by
  have hlength := length_hexPair hp
  have hne : hexPair p ≠ [] := List.ne_nil_of_length_pos (by omega)
  refine ofStem_eq_of_isStem ?_ (hm.isStem ht (areDigits_hexPair p) hne (by omega))
  simp [stemOf]

theorem exists_of_readStem? {stem : String} (h : readStem? stem.toList = some (m, t, p)) :
    IsManufacturer (String.ofList m) ∧ m <+: stem.toList ∧ t ≤ max32 ∧ p ≤ 255 := by
  obtain ⟨digits, pattern, hstem, h⟩ := readStem?_eq_some_iff.mp h
  refine ⟨⟨?_, ?_⟩, ?_, h.temperature_le, h.dataPattern_le⟩
  · simpa using h.m_ne_nil
  · simpa using h.separate
  · rw [hstem, List.append_assoc]
    exact List.prefix_append _ _

/-- The label of a file is read whatever directory it is in and whatever its extension is. -/
theorem IsManufacturer.labelOf_eq {m pattern extension : String} {path : Path}
    (hm : IsManufacturer m) (hslash : '/' ∉ m.toList) (ht : t ≤ max32)
    (hpattern : AreDigits 16 pattern.toList p) (hlength : pattern.length = 1 ∨ pattern.length = 2)
    (hdot : '.' ∉ extension.toList) (hslash' : '/' ∉ extension.toList)
    (hpath : path.EndsIn (m ++ toString t ++ "x" ++ pattern ++ "." ++ extension))
    (custom : Option String) :
    Dataset.labelOf ⟨path, custom⟩ = ⟨m, some p, some t, custom⟩ := by
  rw [← String.length_toList] at hlength
  have hne : pattern.toList ≠ [] := List.ne_nil_of_length_pos (by omega)
  have hstem := hm.isStem ht hpattern hne (by omega)
  have htext : (m ++ toString t ++ "x" ++ pattern).toList =
      m.toList ++ Nat.toDigits 10 t ++ 'x' :: pattern.toList := by simp
  have hx : 'x' ∈ (m ++ toString t ++ "x" ++ pattern).toList := by simp
  have hother (name : String) (hname : 'x' ∉ name.toList) :
      m ++ toString t ++ "x" ++ pattern ≠ name := by
    rintro rfl
    exact hname hx
  have hfile : path.fileStem? = some (m ++ toString t ++ "x" ++ pattern) := by
    refine hpath.fileStem?_eq (hother "" (by decide)) (hother "." (by decide)) ?_ hslash' hdot
    rw [htext]
    simp [hslash, not_mem_of_areDigits hstem.temperature, not_mem_of_areDigits hpattern]
  rw [Dataset.labelOf, hfile, Option.getD_some, ofStem_eq_of_isStem htext hstem]

/-- Whatever a label is read from begins with its manufacturer. -/
theorem prefix_manufacturer (stem : String) :
    (ofStem stem).manufacturer.toList <+: stem.toList := by
  unfold ofStem
  cases hread : readStem? stem.toList with
  | none => exact List.prefix_refl _
  | some result => simpa using (exists_of_readStem? hread).2.1

/-- A manufacturer is part of the name of a file. -/
theorem slash_not_mem_manufacturer (d : Dataset) :
    '/' ∉ d.labelOf.manufacturer.toList := by
  intro hmem
  unfold Dataset.labelOf at hmem
  dsimp only at hmem
  have hstem := (prefix_manufacturer _).subset hmem
  cases hfile : d.path.fileStem? with
  | none =>
    rw [hfile] at hstem
    exact absurd hstem (by decide)
  | some stem =>
    rw [hfile] at hstem
    exact Path.slash_not_mem_fileStem hfile hstem

/-- A measurement file that is named after a manufacturer, a temperature and a data pattern in one
or two hexadecimal digits has a label of these, in whatever directory it is and whatever its
extension is.

The name of any file gives a label of this kind, which can be written again as such a name, or else
it is taken as that of the manufacturer as a whole. -/
theorem names_read_back :
    (∀ (m pattern extension : String) (t p : Nat) (custom : Option String) (path : Path),
      IsManufacturer m → '/' ∉ m.toList → t ≤ max32 →
      AreDigits 16 pattern.toList p → (pattern.length = 1 ∨ pattern.length = 2) →
      '.' ∉ extension.toList → '/' ∉ extension.toList →
      path.EndsIn (m ++ toString t ++ "x" ++ pattern ++ "." ++ extension) →
        Dataset.labelOf ⟨path, custom⟩ = ⟨m, some p, some t, custom⟩) ∧
    ∀ stem : String,
      (∃ m t p, ofStem stem = ⟨m, some p, some t, none⟩ ∧ IsManufacturer m ∧
        m.toList <+: stem.toList ∧ t ≤ max32 ∧ p ≤ 255 ∧
        ofStem (stemOf m t p) = ofStem stem) ∨
      ofStem stem = ⟨stem, none, none, none⟩ := by
  constructor
  · intro m pattern extension t p custom path hm hslash ht hpattern hlength hdot hslash' hpath
    exact hm.labelOf_eq hslash ht hpattern hlength hdot hslash' hpath custom
  · intro stem
    cases hread : readStem? stem.toList with
    | none =>
      right
      rw [ofStem, hread]
    | some result =>
      obtain ⟨m, t, p⟩ := result
      left
      obtain ⟨hm, hprefix, ht, hp⟩ := exists_of_readStem? hread
      have hlabel : ofStem stem = ⟨String.ofList m, some p, some t, none⟩ := by rw [ofStem, hread]
      refine ⟨String.ofList m, t, p, hlabel, hm, by simpa using hprefix, ht, hp, ?_⟩
      rw [hlabel]
      exact ofStem_stemOf hm ht hp

/-- A manufacturer with an `x`, digits, a point and a letter of two bytes, and a data pattern in
digits of both cases. -/
theorem names_read_back_sample :
    IsManufacturer "Chip2x.β" ∧ AreDigits 16 "fF".toList 255 ∧
      Dataset.labelOf (.ofPath ⟨"runs/1.5V/Chip2x.β40xfF.csv"⟩) =
        ⟨"Chip2x.β", some 255, some 40, none⟩ ∧
      ofStem (stemOf "Chip2x.β" 40 255) = ofStem "Chip2x.β40xfF" := by
  have hlast : "Chip2x.β".toList.getLast? = some 'β' := by decide +kernel
  have hm : IsManufacturer "Chip2x.β" := by
    refine ⟨by decide, ?_⟩
    intro c hc
    cases hlast.symm.trans hc
    decide
  have hpattern : AreDigits 16 "fF".toList 255 := ⟨[15, 15], by decide +kernel, rfl⟩
  obtain ⟨hfiles, hnames⟩ := names_read_back
  refine ⟨hm, hpattern, ?_, ?_⟩
  · exact hfiles "Chip2x.β" "fF" "csv" 40 255 none _ hm (by decide) (by decide) hpattern
      (.inr (by decide)) (by decide) (by decide) (.inr ⟨"runs/1.5V".toList, by decide +kernel⟩)
  · obtain ⟨m, t, p, hread, -, -, -, -, hwritten⟩ | hread := hnames "Chip2x.β40xfF"
    · have hlabel : ofStem "Chip2x.β40xfF" = ⟨"Chip2x.β", some 255, some 40, none⟩ := by
        decide +kernel
      cases hlabel.symm.trans hread
      exact hwritten
    · exact absurd hread (by decide +kernel)

end DramTiming.Label
