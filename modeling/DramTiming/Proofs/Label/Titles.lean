import DramTiming.Proofs.Label

/-!
# What labels tell

The title of a run ends in its data pattern and its temperature, and its name in a legend consists
of them.  Both can be read again from the end of the text, whatever stands before: the temperature
is all digits there are, and the data pattern all that follows the last `x`.  So different runs have
different titles (`title_eq_iff`), and different names in the legend if they differ in data pattern
or temperature (`display_eq_iff`).
-/

namespace DramTiming.Label

variable {l l' : Label} {before before' : List Char} {m m' : String} {t t' p p' : Nat}

/-! ### Numbers at the end of a text -/

theorem toList_patternText (p : Nat) : (patternText p).toList = '0' :: 'x' :: hexPair p := by
  simp [patternText, hexPair_eq]

theorem hexPair_inj : hexPair p = hexPair p' ↔ p = p' := by
  constructor
  · intro h
    have hdigits := areDigits_hexPair p
    rw [h] at hdigits
    exact hdigits.unique (by decide) (areDigits_hexPair p')
  · rintro rfl
    rfl

theorem toDigits_inj : Nat.toDigits 10 t = Nat.toDigits 10 t' ↔ t = t' := by
  constructor
  · intro h
    have hdigits : Decimal.AreDigits 10 (Nat.toDigits 10 t) t :=
      Decimal.areDigits_toDigits (by decide) (by decide) t
    rw [h] at hdigits
    exact hdigits.unique (by decide) (Decimal.areDigits_toDigits (by decide) (by decide) t')
  · rintro rfl
    rfl

/-- A data pattern begins after the last `x`. -/
theorem append_patternText_inj :
    before ++ (patternText p).toList = before' ++ (patternText p').toList ↔
      before = before' ∧ p = p' := by
  have hsplit (before : List Char) (p : Nat) :
      splitAtLastX? (before ++ (patternText p).toList) = some (before ++ ['0'], hexPair p) := by
    have hx : 'x' ∉ hexPair p := not_mem_of_areDigits (areDigits_hexPair p) (by decide)
    have happend : before ++ '0' :: 'x' :: hexPair p = (before ++ ['0']) ++ 'x' :: hexPair p := by
      simp
    rw [toList_patternText, happend]
    exact splitAtLastX?_append hx
  constructor
  · intro h
    have heq := congrArg splitAtLastX? h
    rw [hsplit, hsplit, Option.some.injEq, Prod.mk.injEq, List.append_cancel_right_eq,
      hexPair_inj] at heq
    exact heq
  · rintro ⟨rfl, rfl⟩
    rfl

/-- A temperature begins where digits do. -/
theorem append_toDigits_inj (h : ∀ c ∈ before.getLast?, c.isDigit = false)
    (h' : ∀ c ∈ before'.getLast?, c.isDigit = false) :
    before ++ Nat.toDigits 10 t = before' ++ Nat.toDigits 10 t' ↔ before = before' ∧ t = t' := by
  have hsplit {before : List Char} (hbefore : ∀ c ∈ before.getLast?, c.isDigit = false) (t : Nat) :
      splitBeforeDigits (before ++ Nat.toDigits 10 t) = (before, Nat.toDigits 10 t) :=
    splitBeforeDigits_eq_iff.mpr ⟨rfl, Decimal.isDigit_of_mem_toDigits t, hbefore⟩
  constructor
  · intro heq
    have heq' := congrArg splitBeforeDigits heq
    rw [hsplit h, hsplit h', Prod.mk.injEq, toDigits_inj] at heq'
    exact heq'
  · rintro ⟨rfl, rfl⟩
    rfl

/-! ### Runs -/

/-- A label that tells data pattern and temperature, and has no text of its own. -/
structure IsRun (l : Label) : Prop where
  custom : l.custom = none
  dataPattern : l.dataPattern.isSome = true
  temperature : l.temperature.isSome = true

theorem IsRun.exists_eq (h : l.IsRun) : ∃ m p t, l = ⟨m, some p, some t, none⟩ := by
  obtain ⟨m, dataPattern, temperature, custom⟩ := l
  obtain ⟨p, rfl⟩ := Option.isSome_iff_exists.mp h.dataPattern
  obtain ⟨t, rfl⟩ := Option.isSome_iff_exists.mp h.temperature
  obtain rfl : custom = none := h.custom
  exact ⟨m, p, t, rfl⟩

theorem IsRun.eq_iff (h : l.IsRun) (h' : l'.IsRun) :
    l = l' ↔ l.manufacturer = l'.manufacturer ∧ l.dataPattern = l'.dataPattern ∧
      l.temperature = l'.temperature := by
  obtain ⟨m, p, t, rfl⟩ := h.exists_eq
  obtain ⟨m', p', t', rfl⟩ := h'.exists_eq
  simp

theorem toList_title (m : String) (p t : Nat) :
    (title ⟨m, some p, some t, none⟩).toList =
      (m.toList ++ " with data pattern ".toList ++ (patternText p).toList ++ " at ".toList) ++
        Nat.toDigits 10 t ++ "°C".toList := by
  have htitle : title ⟨m, some p, some t, none⟩ =
      m ++ " with data pattern " ++ patternText p ++ (" at " ++ toString t ++ "°C") := rfl
  rw [htitle]
  simp only [String.toList_append, List.append_assoc, Nat.toString_eq_repr, Nat.toList_repr]

theorem toList_display (m : String) (p t : Nat) :
    (display ⟨m, some p, some t, none⟩).toList =
      Nat.toDigits 10 t ++ "°C, ".toList ++ (patternText p).toList := by
  have hdisplay : display ⟨m, some p, some t, none⟩ =
      toString t ++ "°C, " ++ patternText p := rfl
  rw [hdisplay]
  simp only [String.toList_append, List.append_assoc, Nat.toString_eq_repr, Nat.toList_repr]

/-- Runs with the same title are the same. -/
theorem title_eq_iff (h : l.IsRun) (h' : l'.IsRun) : l.title = l'.title ↔ l = l' := by
  obtain ⟨m, p, t, rfl⟩ := h.exists_eq
  obtain ⟨m', p', t', rfl⟩ := h'.exists_eq
  have hlast (cs : List Char) : ∀ c ∈ (cs ++ " at ".toList).getLast?, c.isDigit = false := by
    intro c hc
    have hspace : (cs ++ " at ".toList).getLast? = some ' ' := by simp
    cases hspace.symm.trans hc
    decide
  rw [← String.toList_inj, toList_title, toList_title, List.append_cancel_right_eq,
    append_toDigits_inj (hlast _) (hlast _), List.append_cancel_right_eq, append_patternText_inj,
    List.append_cancel_right_eq, String.toList_inj]
  simp [and_assoc]

/-- Runs with the same name in a legend have the same data pattern and temperature. -/
theorem display_eq_iff (h : l.IsRun) (h' : l'.IsRun) :
    l.display = l'.display ↔ l.dataPattern = l'.dataPattern ∧ l.temperature = l'.temperature := by
  obtain ⟨m, p, t, rfl⟩ := h.exists_eq
  obtain ⟨m', p', t', rfl⟩ := h'.exists_eq
  rw [← String.toList_inj, toList_display, toList_display, append_patternText_inj,
    List.append_cancel_right_eq, toDigits_inj]
  simp [and_comm]

end DramTiming.Label
