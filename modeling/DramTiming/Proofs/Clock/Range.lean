import DramTiming.Proofs.Clock.Sweep

/-!
# The form of multiplier ranges

`Writes sep cs r` says that `cs` is the range `r` with the separator `sep`: two whole numbers of 32
bits in ascending order, with white space on either side of each.  Reading accepts exactly these
texts.  None of them has both separators in it, so whichever is looked for first, no text is read in
two ways (`parse_reads_grammar`).
-/

namespace DramTiming.MultRange

open Decimal (IsWhole max32)
open Text (isBlank)

variable {cs before after : List Char} {n : Nat} {r r' : MultRange}

/-! ### The grammar -/

/-- What may stand between the two ends of a range. -/
inductive Separator where
  | dots
  | dash
deriving DecidableEq, Repr

/-- How a separator is written. -/
def Separator.text : Separator → List Char
  | .dots => ['.', '.', '=']
  | .dash => ['-']

/-- `cs` is a whole number of 32 bits between two rows of white space. -/
def WritesEnd (cs : List Char) (n : Nat) : Prop :=
  ∃ before number after, cs = before ++ number ++ after ∧ (∀ c ∈ before, isBlank c) ∧
    (∀ c ∈ after, isBlank c) ∧ IsWhole 10 number n ∧ n ≤ max32

/-- `cs` is the range `r`, with the given separator. -/
def Writes (sep : Separator) (cs : List Char) (r : MultRange) : Prop :=
  ∃ before after, cs = before ++ sep.text ++ after ∧ WritesEnd before r.lo ∧
    WritesEnd after r.hi ∧ r.lo ≤ r.hi

/-! ### Ends -/

/-- The end of a range is accepted if it is a number after its white space is taken away. -/
theorem readEnd_eq_ok_iff : readEnd cs = .ok n ↔ WritesEnd cs n := by
  rw [readEnd, Decimal.readNat_eq_ok_iff (by decide), Text.trim]
  constructor
  · rintro ⟨hwhole, hle⟩
    obtain ⟨before, after, hbefore, hafter, hcs⟩ := Text.exists_eq_append_trimBoth isBlank cs
    exact ⟨before, _, after, hcs, hbefore, hafter, hwhole, hle⟩
  · rintro ⟨before, number, after, rfl, hbefore, hafter, hwhole, hle⟩
    rw [Text.trimBoth_append_append hbefore hafter, Text.trimBoth_eq_self hwhole.not_isBlank]
    exact ⟨hwhole, hle⟩

/-- A number consists of digits, but for the plus before them. -/
theorem isDigit_of_mem_isWhole {number : List Char} (h : IsWhole 10 number n) :
    ∀ c ∈ number, c = '+' ∨ c.isDigit := by
  intro c hc
  cases h with
  | unsigned _ hdigits => exact .inr (hdigits.isDigit c hc)
  | plus _ hdigits =>
    rcases List.mem_cons.mp hc with rfl | hc
    · exact .inl rfl
    · exact .inr (hdigits.isDigit c hc)

/-- A character that is neither blank nor part of a number does not occur in an end. -/
theorem WritesEnd.not_mem (h : WritesEnd cs n) {c : Char} (hblank : isBlank c = false)
    (hplus : c ≠ '+') (hdigit : c.isDigit = false) : c ∉ cs := by
  obtain ⟨before, number, after, rfl, hbefore, hafter, hwhole, -⟩ := h
  intro hc
  rcases List.mem_append.mp hc with hc | hc
  · rcases List.mem_append.mp hc with hc | hc
    · simp [hbefore c hc] at hblank
    · rcases isDigit_of_mem_isWhole hwhole c hc with heq | hisDigit
      · exact hplus heq
      · simp [hisDigit] at hdigit
  · simp [hafter c hc] at hblank

theorem WritesEnd.dot_not_mem (h : WritesEnd cs n) : '.' ∉ cs :=
  h.not_mem (by decide) (by decide) (by decide)

theorem WritesEnd.dash_not_mem (h : WritesEnd cs n) : '-' ∉ cs :=
  h.not_mem (by decide) (by decide) (by decide)

/-! ### Splitting at a separator -/

theorem eq_append_of_splitAtDots? (h : splitAtDots? cs = some (before, after)) :
    cs = before ++ Separator.dots.text ++ after := by
  induction cs using splitAtDots?.induct generalizing before with
  | case1 rest =>
    cases h
    rfl
  | case2 => cases h
  | case3 c cs hdots ih =>
    rw [splitAtDots?, Option.map_eq_some_iff] at h
    · obtain ⟨⟨before', after'⟩, hrest, heq⟩ := h
      cases heq
      simp [ih hrest]
    · exact hdots

theorem splitAtDots?_of_not_mem (h : '.' ∉ cs) : splitAtDots? cs = none := by
  cases hsplit : splitAtDots? cs with
  | none => rfl
  | some ends =>
    rw [eq_append_of_splitAtDots? hsplit] at h
    simp [Separator.text] at h

theorem eq_append_of_splitAtDash? (h : splitAtDash? cs = some (before, after)) :
    cs = before ++ Separator.dash.text ++ after := by
  induction cs generalizing before with
  | nil => cases h
  | cons c cs ih =>
    rw [splitAtDash?] at h
    split at h
    · next hdash =>
      cases h
      rw [hdash]
      rfl
    · rw [Option.map_eq_some_iff] at h
      obtain ⟨⟨before', after'⟩, hrest, heq⟩ := h
      cases heq
      simp [ih hrest]

theorem splitAtDash?_append (h : '-' ∉ before) :
    splitAtDash? (before ++ '-' :: after) = some (before, after) := by
  induction before with
  | nil => rfl
  | cons c cs ih =>
    simp only [List.mem_cons, not_or] at h
    simp [splitAtDash?, Ne.symm h.1, ih h.2]

/-! ### Ranges -/

/-- A range has the characters of its separator, but not those of the other one. -/
theorem Writes.dash_not_mem (h : Writes .dots cs r) : '-' ∉ cs := by
  obtain ⟨before, after, rfl, hlo, hhi, -⟩ := h
  simp [Separator.text, hlo.dash_not_mem, hhi.dash_not_mem]

theorem Writes.dot_not_mem (h : Writes .dash cs r) : '.' ∉ cs := by
  obtain ⟨before, after, rfl, hlo, hhi, -⟩ := h
  simp [Separator.text, hlo.dot_not_mem, hhi.dot_not_mem]

/-- Both splits find the ends of a range, each in the texts with its separator. -/
theorem split_eq_of_writesEnd (sep : Separator) (hlo : WritesEnd before n) {m : Nat}
    (hhi : WritesEnd after m) :
    (splitAtDots? (before ++ sep.text ++ after)).or
      (splitAtDash? (before ++ sep.text ++ after)) = some (before, after) := by
  cases sep with
  | dots =>
    have hsplit := splitAtDots?_append hlo.dot_not_mem after
    simp only [Separator.text, List.append_assoc, List.cons_append, List.nil_append]
    rw [hsplit, Option.some_or]
  | dash =>
    have hnone : '.' ∉ before ++ Separator.dash.text ++ after := by
      simp [Separator.text, hlo.dot_not_mem, hhi.dot_not_mem]
    rw [splitAtDots?_of_not_mem hnone, Option.none_or]
    simp only [Separator.text, List.append_assoc, List.cons_append, List.nil_append]
    exact splitAtDash?_append hlo.dash_not_mem

theorem exists_eq_append_of_split
    (h : (splitAtDots? cs).or (splitAtDash? cs) = some (before, after)) :
    ∃ sep : Separator, cs = before ++ sep.text ++ after := by
  rcases Option.or_eq_some_iff.mp h with hdots | ⟨-, hdash⟩
  · exact ⟨.dots, eq_append_of_splitAtDots? hdots⟩
  · exact ⟨.dash, eq_append_of_splitAtDash? hdash⟩

/-- A text is accepted if it splits into two ends in ascending order. -/
theorem parse_eq_ok_iff_split {text : String} :
    parse text = .ok r ↔ ∃ before after,
      (splitAtDots? text.toList).or (splitAtDash? text.toList) = some (before, after) ∧
        WritesEnd before r.lo ∧ WritesEnd after r.hi ∧ r.lo ≤ r.hi := by
  unfold parse
  cases hsplit : (splitAtDots? text.toList).or (splitAtDash? text.toList) with
  | none => simp [bind, Except.bind, throw, throwThe, MonadExceptOf.throw]
  | some ends =>
    obtain ⟨before, after⟩ := ends
    have hends : (∃ before' after', some (before, after) = some (before', after') ∧
        WritesEnd before' r.lo ∧ WritesEnd after' r.hi ∧ r.lo ≤ r.hi) ↔
          readEnd before = .ok r.lo ∧ readEnd after = .ok r.hi ∧ r.lo ≤ r.hi := by
      simp [readEnd_eq_ok_iff]
    rw [hends]
    simp only [pure_bind]
    cases readEnd before with
    | error cause => simp [Except.mapError, bind, Except.bind]
    | ok lo =>
      cases readEnd after with
      | error cause => simp [Except.mapError, bind, Except.bind]
      | ok hi =>
        show (if hi < lo then .error (RangeError.empty lo hi) else .ok ⟨lo, hi⟩) = Except.ok r ↔ _
        split
        · next hlt =>
          refine iff_of_false nofun ?_
          rintro ⟨hlo, hhi, hle⟩
          cases hlo
          cases hhi
          omega
        · next hle =>
          constructor
          · intro h
            cases h
            exact ⟨rfl, rfl, Nat.not_lt.mp hle⟩
          · rintro ⟨hlo, hhi, -⟩
            cases hlo
            cases hhi
            rfl

/-- The texts of ranges are read, and no others. -/
theorem parse_eq_ok_iff {text : String} :
    parse text = .ok r ↔ ∃ sep, Writes sep text.toList r := by
  rw [parse_eq_ok_iff_split]
  constructor
  · rintro ⟨before, after, hsplit, hlo, hhi, hle⟩
    obtain ⟨sep, hcs⟩ := exists_eq_append_of_split hsplit
    exact ⟨sep, before, after, hcs, hlo, hhi, hle⟩
  · rintro ⟨sep, before, after, hcs, hlo, hhi, hle⟩
    rw [hcs]
    exact ⟨before, after, split_eq_of_writesEnd sep hlo hhi, hlo, hhi, hle⟩

theorem exists_parse_eq_error_iff {text : String} :
    (∃ e, parse text = .error e) ↔ ∀ sep r, ¬ Writes sep text.toList r := by
  constructor
  · rintro ⟨e, he⟩ sep r hwrites
    rw [parse_eq_ok_iff.mpr ⟨sep, hwrites⟩] at he
    cases he
  · intro hnone
    cases hparse : parse text with
    | error e => exact ⟨e, rfl⟩
    | ok r =>
      obtain ⟨sep, hwrites⟩ := parse_eq_ok_iff.mp hparse
      exact absurd hwrites (hnone sep r)

/-- A range is written with the separator that occurs in its text. -/
theorem Writes.separator_iff {sep : Separator} (h : Writes sep cs r) (sep' : Separator) :
    sep'.text <:+: cs ↔ sep' = sep := by
  constructor
  · intro hoccurs
    cases sep <;> cases sep'
    · rfl
    · exact absurd (hoccurs.subset List.mem_cons_self) h.dash_not_mem
    · exact absurd (hoccurs.subset List.mem_cons_self) h.dot_not_mem
    · rfl
  · rintro rfl
    obtain ⟨before, after, rfl, -⟩ := h
    exact ⟨before, after, rfl⟩

/-- Reading accepts a text as a range exactly if the text is one, and refuses all others.  No range
that is read is empty, and no text is that of two ranges or has two separators: one in which both
occur is refused. -/
theorem parse_reads_grammar (text : String) :
    (∀ r, parse text = .ok r ↔ ∃ sep, Writes sep text.toList r) ∧
    ((∃ e, parse text = .error e) ↔ ∀ sep r, ¬ Writes sep text.toList r) ∧
    (∀ r, parse text = .ok r → 0 < r.size) ∧
    (∀ sep sep' r r', Writes sep text.toList r → Writes sep' text.toList r' →
      sep = sep' ∧ r = r') ∧
    (Separator.dots.text <:+: text.toList → Separator.dash.text <:+: text.toList →
      ∃ e, parse text = .error e) := by
  refine ⟨fun r => parse_eq_ok_iff, exists_parse_eq_error_iff, fun r hparse => ?_,
    fun sep sep' r r' h h' => ⟨?_, ?_⟩, fun hdots hdash => ?_⟩
  · obtain ⟨-, -, -, -, -, -, hle⟩ := parse_eq_ok_iff.mp hparse
    unfold size
    omega
  · exact (h'.separator_iff sep).mp ((h.separator_iff sep).mpr rfl)
  · have heq := (parse_eq_ok_iff.mpr ⟨sep, h⟩).symm.trans (parse_eq_ok_iff.mpr ⟨sep', h'⟩)
    cases heq
    rfl
  · refine exists_parse_eq_error_iff.mpr fun sep r h => ?_
    have hsame := ((h.separator_iff .dots).mp hdots).trans ((h.separator_iff .dash).mp hdash).symm
    cases hsame

/-- White space of both kinds, a plus and leading zeros; and a minus sign in a range with dots. -/
theorem parse_reads_grammar_sample :
    Writes .dots "\u3000+006 ..=10".toList ⟨6, 10⟩ ∧
      parse "\u3000+006 ..=10" = .ok ⟨6, 10⟩ ∧
      Separator.dots.text <:+: "6..=-8".toList ∧ Separator.dash.text <:+: "6..=-8".toList ∧
      ∃ e, parse "6..=-8" = .error e := by
  have hblank {c : Char} (hc : isBlank c = true) : ∀ d ∈ [c], isBlank d :=
    List.forall_mem_singleton.mpr hc
  have hlo : WritesEnd ['\u3000', '+', '0', '0', '6', ' '] 6 := by
    refine ⟨['\u3000'], ['+', '0', '0', '6'], [' '], rfl, hblank (by decide),
      hblank (by decide), .plus (List.cons_ne_nil _ _) ⟨[0, 0, 6], by decide +kernel, rfl⟩,
      by decide⟩
  have hhi : WritesEnd ['1', '0'] 10 :=
    ⟨[], ['1', '0'], [], rfl, nofun, nofun, Decimal.isWhole_toDigits 10, by decide⟩
  have hwrites : Writes .dots "\u3000+006 ..=10".toList ⟨6, 10⟩ :=
    ⟨_, _, by decide +kernel, hlo, hhi, by decide⟩
  have hdots : Separator.dots.text <:+: "6..=-8".toList := ⟨['6'], ['-', '8'], by decide +kernel⟩
  have hdash : Separator.dash.text <:+: "6..=-8".toList :=
    ⟨['6', '.', '.', '='], ['8'], by decide +kernel⟩
  obtain ⟨haccepts, -⟩ := parse_reads_grammar "\u3000+006 ..=10"
  obtain ⟨-, -, -, -, hrefuses⟩ := parse_reads_grammar "6..=-8"
  exact ⟨hwrites, (haccepts _).mpr ⟨.dots, hwrites⟩, hdots, hdash, hrefuses hdots hdash⟩

end DramTiming.MultRange
