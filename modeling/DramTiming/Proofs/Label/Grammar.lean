import DramTiming.Proofs.Label

/-!
# The form of file names

A file is named after its run by a manufacturer, a temperature, an `x` and a data pattern
(`IsRunName`).  Where the data pattern is one or two hexadecimal digits the name is that of a run,
as documented.  Reading accepts exactly these names and those with a plus before a single digit
(`ofStem_readsAs`).
-/

namespace DramTiming.Label

open Decimal (AreDigits IsWhole digitInBase? max32)

variable {pattern : List Char} {p : Nat}

/-! ### Data patterns -/

/-- One or two hexadecimal digits, in either case. -/
def IsHexPattern (pattern : List Char) (p : Nat) : Prop :=
  (pattern.length = 1 ∨ pattern.length = 2) ∧ AreDigits 16 pattern p

/-- A plus and one hexadecimal digit. -/
def IsSignedPattern (pattern : List Char) (p : Nat) : Prop :=
  ∃ c, pattern = ['+', c] ∧ digitInBase? 16 c = some p

theorem areDigits_singleton_iff {base n : Nat} {c : Char} :
    AreDigits base [c] n ↔ digitInBase? base c = some n := by
  simp only [AreDigits, List.forall₂_cons_left_iff, List.forall₂_nil_left_iff]
  constructor
  · rintro ⟨_, ⟨d, _, hd, rfl, rfl⟩, rfl⟩
    simpa [Decimal.appendDigits] using hd
  · intro h
    exact ⟨[n], ⟨n, [], h, rfl, rfl⟩, by simp [Decimal.appendDigits]⟩

theorem byteLength_of_isWhole (h : IsWhole 16 pattern p) :
    Text.byteLength pattern = pattern.length := by
  have hascii {cs : List Char} (hdigits : AreDigits 16 cs p) : ∀ c ∈ cs, c.toNat < 0x80 :=
    fun c hc => Nat.lt_of_le_of_lt (hdigits.toNat_bounds c hc).2 (by decide)
  refine Text.byteLength_eq_length ?_
  cases h with
  | unsigned _ hdigits => exact hascii hdigits
  | plus _ hdigits => exact List.forall_mem_cons.mpr ⟨by decide, hascii hdigits⟩

/-- Numbers that are written in at most two bytes. -/
theorem isWhole_and_short_iff :
    IsWhole 16 pattern p ∧ Text.byteLength pattern ≤ 2 ↔
      IsHexPattern pattern p ∨ IsSignedPattern pattern p := by
  constructor
  · rintro ⟨hwhole, hshort⟩
    rw [byteLength_of_isWhole hwhole] at hshort
    cases hwhole with
    | unsigned hne hdigits =>
      have hpos := List.length_pos_of_ne_nil hne
      exact .inl ⟨by omega, hdigits⟩
    | @plus cs _ hne hdigits =>
      have hpos := List.length_pos_of_ne_nil hne
      rw [List.length_cons] at hshort
      obtain ⟨c, rfl⟩ : ∃ c, cs = [c] := List.length_eq_one_iff.mp (by omega)
      exact .inr ⟨c, rfl, areDigits_singleton_iff.mp hdigits⟩
  · intro h
    have hwhole : IsWhole 16 pattern p ∧ pattern.length ≤ 2 := by
      rcases h with ⟨hlength, hdigits⟩ | ⟨c, rfl, hc⟩
      · exact ⟨.unsigned (List.ne_nil_of_length_pos (by omega)) hdigits, by omega⟩
      · exact ⟨.plus (List.cons_ne_nil _ _) (areDigits_singleton_iff.mpr hc), le_rfl⟩
    exact ⟨hwhole.1, by rw [byteLength_of_isWhole hwhole.1]; exact hwhole.2⟩

/-- A pattern of at most two digits is a byte. -/
theorem le_of_isPattern (h : IsHexPattern pattern p ∨ IsSignedPattern pattern p) : p ≤ 255 := by
  rcases h with ⟨hlength, hdigits⟩ | ⟨c, rfl, hc⟩
  · have hpow : 16 ^ pattern.length ≤ 16 ^ 2 := Nat.pow_le_pow_right (by decide) (by omega)
    have hlt := hdigits.lt_pow
    omega
  · have hlt := (areDigits_singleton_iff.mpr hc).lt_pow
    rw [List.length_singleton] at hlt
    omega

/-! ### Names -/

/-- The name of a file for a manufacturer, a temperature and a data pattern that is written in the
given way. -/
def IsRunName (IsPattern : List Char → Nat → Prop) (stem m : String) (t p : Nat) : Prop :=
  ∃ digits pattern, stem.toList = m.toList ++ digits ++ 'x' :: pattern ∧ IsManufacturer m ∧
    digits ≠ [] ∧ AreDigits 10 digits t ∧ t ≤ max32 ∧ IsPattern pattern p

/-- Manufacturer, temperature and data pattern are read from a name that has a form, and from it
only; any other name is taken as that of the manufacturer. -/
structure ReadsAs (IsName : String → Nat → Nat → Prop) (stem : String) : Prop where
  read_iff : ∀ m t p, ofStem stem = ⟨m, some p, some t, none⟩ ↔ IsName m t p
  bare : (∀ m t p, ¬ IsName m t p) → ofStem stem = ⟨stem, none, none, none⟩

theorem isStem_iff {m : String} {digits : List Char} {t : Nat} :
    IsStem m.toList digits pattern t p ↔
      IsManufacturer m ∧ digits ≠ [] ∧ AreDigits 10 digits t ∧ t ≤ max32 ∧
        (IsHexPattern pattern p ∨ IsSignedPattern pattern p) := by
  constructor
  · intro h
    refine ⟨⟨by simpa using h.m_ne_nil, h.separate⟩, h.digits_ne_nil, h.temperature,
      h.temperature_le, ?_⟩
    exact isWhole_and_short_iff.mp ⟨h.dataPattern, h.short⟩
  · rintro ⟨hm, hne, hdigits, ht, hpattern⟩
    obtain ⟨hwhole, hshort⟩ := isWhole_and_short_iff.mpr hpattern
    exact {
      m_ne_nil := by simpa using hm.ne_empty
      separate := hm.separate
      digits_ne_nil := hne
      temperature := hdigits
      temperature_le := ht
      short := hshort
      dataPattern := hwhole
      dataPattern_le := le_of_isPattern hpattern }

theorem readStem?_eq_some_iff_isRunName {stem m : String} {t p : Nat} :
    readStem? stem.toList = some (m.toList, t, p) ↔
      IsRunName IsHexPattern stem m t p ∨ IsRunName IsSignedPattern stem m t p := by
  simp only [readStem?_eq_some_iff, isStem_iff, IsRunName, and_or_left, exists_or]

/-- Temperature and data pattern are read together, or neither is. -/
theorem ofStem_cases (stem : String) :
    (∃ m t p, ofStem stem = ⟨m, some p, some t, none⟩) ∨
      ofStem stem = ⟨stem, none, none, none⟩ := by
  unfold ofStem
  cases readStem? stem.toList with
  | none => exact .inr rfl
  | some result => exact .inl ⟨_, _, _, rfl⟩

theorem ofStem_eq_iff {stem m : String} {t p : Nat} :
    ofStem stem = ⟨m, some p, some t, none⟩ ↔ readStem? stem.toList = some (m.toList, t, p) := by
  unfold ofStem
  cases hread : readStem? stem.toList with
  | none => simp
  | some result => simp [Prod.ext_iff, String.ext_iff, and_comm]

theorem x_not_mem_of_isPattern (h : IsHexPattern pattern p ∨ IsSignedPattern pattern p) :
    'x' ∉ pattern :=
  x_not_mem_of_isWhole (isWhole_and_short_iff.mpr h).1

/-- A name is not of both forms. -/
theorem IsRunName.not_signed {stem m m' : String} {t t' p p' : Nat}
    (h : IsRunName IsHexPattern stem m t p) : ¬ IsRunName IsSignedPattern stem m' t' p' := by
  rintro ⟨digits', pattern', hstem', -, -, -, -, hsigned⟩
  obtain ⟨digits, pattern, hstem, -, -, -, -, hhex⟩ := h
  -- Both data patterns are what stands after the last `x`.
  have hsplit : splitAtLastX? (m.toList ++ digits ++ 'x' :: pattern) = _ :=
    splitAtLastX?_append (x_not_mem_of_isPattern (.inl hhex))
  rw [← hstem, hstem', splitAtLastX?_append (x_not_mem_of_isPattern (.inr hsigned))] at hsplit
  obtain ⟨-, rfl⟩ := Prod.mk.inj (Option.some.inj hsplit)
  obtain ⟨c, rfl, -⟩ := hsigned
  exact Decimal.not_areDigits_plus hhex.2

/-- Names are read as documented, but for one form besides: a plus may stand before a data pattern
of one digit.  So all is as documented exactly for the names that are not of this form. -/
theorem ofStem_readsAs (stem : String) :
    ReadsAs (fun m t p => IsRunName IsHexPattern stem m t p ∨ IsRunName IsSignedPattern stem m t p)
      stem ∧
    (ReadsAs (IsRunName IsHexPattern stem) stem ↔
      ∀ m t p, ¬ IsRunName IsSignedPattern stem m t p) := by
  have hread (m : String) (t p : Nat) : ofStem stem = ⟨m, some p, some t, none⟩ ↔
      IsRunName IsHexPattern stem m t p ∨ IsRunName IsSignedPattern stem m t p :=
    ofStem_eq_iff.trans readStem?_eq_some_iff_isRunName
  have hall : ReadsAs
      (fun m t p => IsRunName IsHexPattern stem m t p ∨ IsRunName IsSignedPattern stem m t p)
      stem := by
    refine ⟨hread, fun hnone => ?_⟩
    rcases ofStem_cases stem with ⟨m, t, p, heq⟩ | hbare
    · exact absurd ((hread m t p).mp heq) (hnone m t p)
    · exact hbare
  refine ⟨hall, fun hhex m t p hsigned => ?_, fun hnone => ?_⟩
  · have hname := (hhex.read_iff m t p).mp ((hread m t p).mpr (.inr hsigned))
    exact hname.not_signed hsigned
  · simpa only [hnone, or_false] using hall

/-- A plus before a hexadecimal digit is no data pattern, as documented, but is read as one. -/
theorem ofStem_plus :
    ofStem "Micron24x+f" = ⟨"Micron", some 15, some 24, none⟩ ∧
      (∀ m t p, ¬ IsRunName IsHexPattern "Micron24x+f" m t p) ∧
      ¬ ReadsAs (IsRunName IsHexPattern "Micron24x+f") "Micron24x+f" := by
  have hread : ofStem "Micron24x+f" = ⟨"Micron", some 15, some 24, none⟩ := by decide +kernel
  have hsigned : IsRunName IsSignedPattern "Micron24x+f" "Micron" 24 15 := by
    have hlast : "Micron".toList.getLast? = some 'n' := by decide +kernel
    refine ⟨['2', '4'], ['+', 'f'], by decide +kernel, ⟨by decide, ?_⟩, by decide, ?_, by decide,
      ?_⟩
    · intro c hc
      cases hlast.symm.trans hc
      decide
    · exact ⟨[2, 4], by decide +kernel, rfl⟩
    · exact ⟨'f', rfl, by decide +kernel⟩
  have hnone (m : String) (t p : Nat) : ¬ IsRunName IsHexPattern "Micron24x+f" m t p :=
    fun hhex => hhex.not_signed hsigned
  refine ⟨hread, hnone, fun hreads => ?_⟩
  rw [hreads.bare hnone] at hread
  exact absurd (congrArg Label.dataPattern hread) nofun

end DramTiming.Label
