import DramTiming.Proofs.Decimal.Integer
import DramTiming.Decimal.Literal
import Mathlib.Data.List.TakeWhile

/-!
# Which texts are finite numbers

`Binary64.IsLiteral cs x` says that `cs` is a decimal literal (a sign, digits with a point, an
exponent) and that `x` is the number nearest to its exact value.  Main statement: a text reads as a
finite number exactly if it is such a literal for it (`Binary64.parse_eq_ok_iff`).  The words for
infinities and for not-a-number values are read too, but never as a finite number.
-/

namespace DramTiming

namespace Decimal

/-! ### The grammar of literals -/

/-- A sign that need not be there; the flag tells a minus. -/
inductive IsSign : List Char → Bool → Prop
  | absent : IsSign [] false
  | plus : IsSign ['+'] false
  | minus : IsSign ['-'] true

/-- At least one digit, with at most one point before, among or after them: the number without its
point, and how many digits follow the point. -/
inductive IsMantissa : List Char → Nat → Nat → Prop
  | whole {ds} : (∀ c ∈ ds, c.isDigit) → ds ≠ [] → IsMantissa ds (digitsValue ds) 0
  | point {ds es} : (∀ c ∈ ds, c.isDigit) → (∀ c ∈ es, c.isDigit) → ds ++ es ≠ [] →
      IsMantissa (ds ++ '.' :: es) (digitsValue (ds ++ es)) es.length

/-- Nothing, or a letter `e` and a whole number with or without a sign. -/
inductive IsExponent : List Char → Int → Prop
  | absent : IsExponent [] 0
  | present {e sign ds negative} : e = 'e' ∨ e = 'E' → IsSign sign negative →
      (∀ c ∈ ds, c.isDigit) → ds ≠ [] →
      IsExponent (e :: (sign ++ ds)) (if negative then -digitsValue ds else digitsValue ds)

/-! ### Digits -/

theorem isDigit_bounds {c : Char} (h : c.isDigit) : 0x30 ≤ c.toNat ∧ c.toNat ≤ 0x39 := by
  simp only [Char.isDigit, Bool.and_eq_true, decide_eq_true_eq] at h
  exact h

theorem ne_of_isDigit {c d : Char} (h : c.isDigit) (hd : d.isDigit = false) : c ≠ d := by
  rintro rfl
  rw [h] at hd
  cases hd

/-- Digits stop at the first character that is none. -/
theorem leadingDigits_append {ds rest : List Char} (hds : ∀ c ∈ ds, c.isDigit)
    (hrest : ∀ c, rest.head? = some c → c.isDigit = false) :
    leadingDigits (ds ++ rest) = ds ∧ afterDigits (ds ++ rest) = rest := by
  rw [leadingDigits, afterDigits, List.takeWhile_append_of_pos hds,
    List.dropWhile_append_of_pos hds]
  cases rest with
  | nil => simp
  | cons c rest => simp [hrest c rfl]

theorem isDigit_of_mem_leadingDigits {cs : List Char} : ∀ c ∈ leadingDigits cs, c.isDigit :=
  fun _ h => List.mem_takeWhile_imp h

theorem leadingDigits_append_afterDigits (cs : List Char) :
    leadingDigits cs ++ afterDigits cs = cs :=
  List.takeWhile_append_dropWhile

/-! ### The parts of a literal -/

theorem isSign_signAndRest (cs : List Char) :
    ∃ sign, IsSign sign (signAndRest cs).1 ∧ cs = sign ++ (signAndRest cs).2 := by
  unfold signAndRest
  split
  · exact ⟨_, .minus, rfl⟩
  · exact ⟨_, .plus, rfl⟩
  · exact ⟨_, .absent, rfl⟩

theorem signAndRest_append {sign rest : List Char} {negative : Bool} (h : IsSign sign negative)
    (hrest : ∀ c, rest.head? = some c → c ≠ '+' ∧ c ≠ '-') :
    signAndRest (sign ++ rest) = (negative, rest) := by
  cases h with
  | absent =>
    rw [List.nil_append]
    unfold signAndRest
    split
    · exact absurd rfl (hrest _ rfl).2
    · exact absurd rfl (hrest _ rfl).1
    · rfl
  | plus => rfl
  | minus => rfl

theorem isMantissa_of_mantissa? {cs rest : List Char} {digits decimals : Nat}
    (h : mantissa? cs = some (digits, decimals, rest)) :
    ∃ mantissa, IsMantissa mantissa digits decimals ∧ cs = mantissa ++ rest := by
  have hcs := leadingDigits_append_afterDigits cs
  unfold mantissa? at h
  dsimp only at h
  split at h
  · next rest' hafter =>
    split at h
    · cases h
    · next hne =>
      cases h
      refine ⟨leadingDigits cs ++ '.' :: leadingDigits rest',
        .point isDigit_of_mem_leadingDigits isDigit_of_mem_leadingDigits ?_, ?_⟩
      · simpa [List.isEmpty_iff] using hne
      · rw [List.append_assoc, List.cons_append, leadingDigits_append_afterDigits, ← hafter, hcs]
  · split at h
    · cases h
    · next hne =>
      cases h
      exact ⟨leadingDigits cs, .whole isDigit_of_mem_leadingDigits
        (by simpa [List.isEmpty_iff] using hne), hcs.symm⟩

theorem mantissa?_append {mantissa rest : List Char} {digits decimals : Nat}
    (h : IsMantissa mantissa digits decimals)
    (hrest : ∀ c, rest.head? = some c → c.isDigit = false ∧ c ≠ '.') :
    mantissa? (mantissa ++ rest) = some (digits, decimals, rest) := by
  cases h with
  | whole hds hne =>
    obtain ⟨hlead, hafter⟩ := leadingDigits_append hds fun c hc => (hrest c hc).1
    unfold mantissa?
    rw [hlead, hafter]
    split
    · exact absurd rfl (hrest _ rfl).2
    · simp [hne]
  | @point ds es hds hes hne =>
    have hpoint : ∀ c, ('.' :: (es ++ rest)).head? = some c → c.isDigit = false := by
      rintro c ⟨⟩
      rfl
    obtain ⟨hlead, hafter⟩ := leadingDigits_append hds hpoint
    obtain ⟨hlead', hafter'⟩ := leadingDigits_append hes fun c hc => (hrest c hc).1
    have hne' : ¬ (ds.isEmpty && es.isEmpty) = true := by simpa [List.isEmpty_iff] using hne
    rw [List.append_assoc, List.cons_append, mantissa?, hlead, hafter]
    simp only [hlead', hafter']
    rw [if_neg hne']

theorem isExponent_of_exponent? {cs : List Char} {n : Int} (h : exponent? cs = some n) :
    IsExponent cs n := by
  unfold exponent? at h
  split at h
  · cases h
    exact .absent
  · next e cs =>
    split at h
    · next he =>
      obtain ⟨sign, hsign, hcs⟩ := isSign_signAndRest cs
      dsimp only at h
      split at h
      · cases h
      · next hdigits =>
        simp only [Bool.or_eq_true, List.isEmpty_iff, Bool.not_eq_true', not_or,
          Bool.not_eq_false, List.all_eq_true] at hdigits
        have hpresent := IsExponent.present (e := e) (by simpa using he) hsign hdigits.2 hdigits.1
        rw [← hcs] at hpresent
        cases h
        exact hpresent
    · cases h

theorem exponent?_of_isExponent {cs : List Char} {n : Int} (h : IsExponent cs n) :
    exponent? cs = some n := by
  cases h with
  | absent => rfl
  | @present e sign ds negative he hsign hds hne =>
    have hhead : ∀ c, ds.head? = some c → c ≠ '+' ∧ c ≠ '-' := by
      intro c hc
      have hdigit := hds c (List.mem_of_mem_head? hc)
      exact ⟨ne_of_isDigit hdigit rfl, ne_of_isDigit hdigit rfl⟩
    have hall : (ds.isEmpty || !ds.all Char.isDigit) = false := by
      simpa [List.isEmpty_iff, hne] using hds
    rw [exponent?, if_pos (by simpa using he), signAndRest_append hsign hhead]
    simp only [hall]
    rfl

/-! ### What stands where -/

/-- A mantissa begins with a digit or with the point. -/
theorem IsMantissa.head?_append {mantissa rest : List Char} {digits decimals : Nat}
    (h : IsMantissa mantissa digits decimals) {c : Char} (hc : (mantissa ++ rest).head? = some c) :
    c.isDigit ∨ c = '.' := by
  cases h with
  | whole hds hne =>
    obtain ⟨d, ds, rfl⟩ := List.exists_cons_of_ne_nil hne
    cases hc
    exact .inl (hds _ (by simp))
  | @point ds es hds _ _ =>
    cases ds with
    | nil => cases hc; exact .inr rfl
    | cons d ds => cases hc; exact .inl (hds _ (by simp))

theorem not_isBlank_of_isDigit {c : Char} (h : c.isDigit) : Text.isBlank c = false := by
  obtain ⟨hlo, hhi⟩ := isDigit_bounds h
  exact not_isBlank_of_toNat (by omega) (by omega)

theorem IsSign.not_isBlank {sign : List Char} {negative : Bool} (h : IsSign sign negative) :
    ∀ c ∈ sign, Text.isBlank c = false := by
  cases h <;> simp <;> decide

theorem IsMantissa.not_isBlank {mantissa : List Char} {digits decimals : Nat}
    (h : IsMantissa mantissa digits decimals) : ∀ c ∈ mantissa, Text.isBlank c = false := by
  cases h with
  | whole hds _ => exact fun c hc => not_isBlank_of_isDigit (hds c hc)
  | point hds hes _ =>
    intro c hc
    rcases List.mem_append.mp hc with hc | hc
    · exact not_isBlank_of_isDigit (hds c hc)
    rcases List.mem_cons.mp hc with rfl | hc
    · decide
    · exact not_isBlank_of_isDigit (hes c hc)

theorem IsExponent.not_isBlank {exponent : List Char} {power : Int}
    (h : IsExponent exponent power) : ∀ c ∈ exponent, Text.isBlank c = false := by
  cases h with
  | absent => simp
  | present he hsign hds _ =>
    intro c hc
    rcases List.mem_cons.mp hc with rfl | hc
    · rcases he with rfl | rfl <;> decide
    rcases List.mem_append.mp hc with hc | hc
    · exact hsign.not_isBlank c hc
    · exact not_isBlank_of_isDigit (hds c hc)

end Decimal

namespace Binary64

open Decimal

/-- `cs` is a decimal literal, and `x` is the number nearest to its value. -/
inductive IsLiteral : List Char → Binary64 → Prop
  | mk {sign mantissa exponent negative digits decimals power} :
      IsSign sign negative → IsMantissa mantissa digits decimals → IsExponent exponent power →
      IsLiteral (sign ++ mantissa ++ exponent) (ofDecimal negative digits (power - decimals))

/-- A word stands for an infinity or for no number at all. -/
theorem isFinite_of_word? {negative : Bool} {cs : List Char} {x : Binary64}
    (h : word? negative cs = some x) : x.isFinite = false := by
  unfold word? at h
  split at h
  · cases h; rfl
  · cases h; rfl
  · cases h; rfl
  · cases h

theorem isLiteral_of_ofChars? {cs : List Char} {x : Binary64} (h : ofChars? cs = some x)
    (hx : x.isFinite) : IsLiteral cs x := by
  obtain ⟨sign, hsign, hcs⟩ := isSign_signAndRest cs
  unfold ofChars? at h
  dsimp only at h
  split at h
  · next digits decimals rest hmantissa =>
    obtain ⟨power, hpower, rfl⟩ := Option.map_eq_some_iff.mp h
    obtain ⟨mantissa, hmantissa, hbody⟩ := isMantissa_of_mantissa? hmantissa
    have hliteral := IsLiteral.mk hsign hmantissa (isExponent_of_exponent? hpower)
    rwa [List.append_assoc, ← hbody, ← hcs] at hliteral
  · rw [isFinite_of_word? h] at hx
    cases hx

theorem ofChars?_of_isLiteral {cs : List Char} {x : Binary64} (h : IsLiteral cs x) :
    ofChars? cs = some x := by
  cases h with
  | @mk sign mantissa exponent negative digits decimals power hsign hmantissa hexponent =>
    -- No part can be taken for the end of the one before it.
    have hstop : ∀ c, exponent.head? = some c → c.isDigit = false ∧ c ≠ '.' := by
      intro c hc
      cases hexponent with
      | absent => cases hc
      | present he => cases hc; rcases he with rfl | rfl <;> exact ⟨rfl, by decide⟩
    have hhead : ∀ c, (mantissa ++ exponent).head? = some c → c ≠ '+' ∧ c ≠ '-' := by
      intro c hc
      rcases hmantissa.head?_append hc with hdigit | rfl
      · exact ⟨ne_of_isDigit hdigit rfl, ne_of_isDigit hdigit rfl⟩
      · decide
    unfold ofChars?
    rw [List.append_assoc, signAndRest_append hsign hhead]
    dsimp only
    rw [mantissa?_append hmantissa hstop]
    dsimp only
    rw [exponent?_of_isExponent hexponent]
    rfl

/-- A text reads as a finite number exactly if it is a decimal literal for it. -/
theorem parse_eq_ok_iff {text : String} {x : Binary64} (hx : x.isFinite) :
    parse text = .ok x ↔ IsLiteral text.toList x := by
  unfold parse
  constructor
  · intro h
    split at h
    · next hread =>
      cases h
      exact isLiteral_of_ofChars? hread hx
    · cases h
  · intro h
    rw [ofChars?_of_isLiteral h]

/-- A literal has no white space in it. -/
theorem IsLiteral.not_isBlank {cs : List Char} {x : Binary64} (h : IsLiteral cs x) :
    ∀ c ∈ cs, Text.isBlank c = false := by
  cases h with
  | mk hsign hmantissa hexponent =>
    intro c hc
    rcases List.mem_append.mp hc with hc | hc
    · rcases List.mem_append.mp hc with hc | hc
      · exact hsign.not_isBlank c hc
      · exact hmantissa.not_isBlank c hc
    · exact hexponent.not_isBlank c hc

theorem ofDecimal_zero_exponent (n : Nat) : ofDecimal false n 0 = ofNat n := by
  unfold ofDecimal
  split
  · next h => rw [h, ofNat, Nat.zero_mul]; rfl
  · show ofUnits false (n * tenTo 0 * unitsPerOne) 1 = ofNat n
    rw [show tenTo 0 = 1 from rfl, Nat.mul_one, ofNat]

/-- A natural number that is written in digits is read as the number nearest to it. -/
theorem parse_toString (n : Nat) : parse (toString n) = .ok (ofNat n) := by
  have htext : (toString n).toList = Nat.toDigits 10 n := Nat.toList_repr
  have hvalue : digitsValue (Nat.toDigits 10 n) = n := Nat.ofDigitChars_ten_toDigits
  have hliteral := IsLiteral.mk .absent
    (.whole (isDigit_of_mem_toDigits n) Nat.toDigits_ne_nil) .absent
  rw [hvalue, List.nil_append, List.append_nil] at hliteral
  rw [parse, htext, ofChars?_of_isLiteral hliteral]
  exact congrArg Except.ok (ofDecimal_zero_exponent n)

end Binary64

end DramTiming
