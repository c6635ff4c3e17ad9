import Mathlib.Algebra.Group.Nat.Defs
import Mathlib.Data.List.Forall2
import DramTiming.Decimal.Integer
import DramTiming.Text.Blank

/-!
# Which texts are whole numbers

`IsWhole base cs n` says that `cs` is an optional plus and at least one digit of the base, which
together stand for `n`.  Main statement: within a bound, reading accepts exactly these texts
(`readNat_eq_ok_iff`).
-/

namespace DramTiming.Decimal

/-- The number that stands before more digits, of which the first is the most significant. -/
def appendDigits (base sofar : Nat) (ds : List Nat) : Nat :=
  ds.foldl (fun n d => n * base + d) sofar

/-- `cs` is a row of digits in a base, and their values make `n`. -/
def AreDigits (base : Nat) (cs : List Char) (n : Nat) : Prop :=
  ∃ ds, List.Forall₂ (fun c d => digitInBase? base c = some d) cs ds ∧ n = appendDigits base 0 ds

/-- `cs` is an optional plus and at least one digit of a base, and stands for `n`. -/
inductive IsWhole (base : Nat) : List Char → Nat → Prop
  | unsigned {cs n} : cs ≠ [] → AreDigits base cs n → IsWhole base cs n
  | plus {cs n} : cs ≠ [] → AreDigits base cs n → IsWhole base ('+' :: cs) n

/-! ### Digits -/

theorem le_appendDigits {base : Nat} (hbase : 1 ≤ base) (ds : List Nat) (sofar : Nat) :
    sofar ≤ appendDigits base sofar ds := by
  induction ds generalizing sofar with
  | nil => exact Nat.le_refl _
  | cons d ds ih =>
    calc sofar ≤ sofar * base := Nat.le_mul_of_pos_right _ hbase
      _ ≤ sofar * base + d := Nat.le_add_right _ _
      _ ≤ appendDigits base sofar (d :: ds) := ih _

/-- What reading has found so far only grows, so a number that leaves the bound on the way never
comes back into it. -/
theorem readDigits_eq_ok_iff {base bound sofar n : Nat} {cs : List Char} (hbase : 1 ≤ base)
    (hsofar : sofar ≤ bound) :
    readDigits base bound sofar cs = .ok n ↔
      ∃ ds, List.Forall₂ (fun c d => digitInBase? base c = some d) cs ds ∧
        n = appendDigits base sofar ds ∧ n ≤ bound := by
  induction cs generalizing sofar with
  | nil =>
    simp only [readDigits, Except.ok.injEq, List.forall₂_nil_left_iff, exists_eq_left,
      appendDigits, List.foldl_nil]
    constructor
    · rintro rfl
      exact ⟨rfl, hsofar⟩
    · exact fun h => h.1.symm
  | cons c cs ih =>
    simp only [readDigits, List.forall₂_cons_left_iff]
    cases hc : digitInBase? base c with
    | none => simp
    | some d =>
      dsimp only
      split
      · next hle =>
        rw [ih hle]
        constructor
        · rintro ⟨ds, hds, hn⟩
          exact ⟨d :: ds, ⟨d, ds, rfl, hds, rfl⟩, hn⟩
        · rintro ⟨_, ⟨d', ds, hd, hds, rfl⟩, hn⟩
          cases hd
          exact ⟨ds, hds, hn⟩
      · next hlt =>
        constructor
        · intro h
          cases h
        · rintro ⟨_, ⟨d', ds, hd, hds, rfl⟩, rfl, hle⟩
          cases hd
          exact absurd (Nat.le_trans (le_appendDigits hbase ds _) hle) hlt

/-! ### Whole numbers -/

theorem digitInBase?_plus (base : Nat) : digitInBase? base '+' = none := by
  simp [digitInBase?]

theorem not_areDigits_plus {base n : Nat} {cs : List Char} : ¬ AreDigits base ('+' :: cs) n := by
  rintro ⟨ds, hds, -⟩
  cases hds with
  | cons hd _ => rw [digitInBase?_plus] at hd; cases hd

theorem readDigits_zero_eq_ok_iff {base bound n : Nat} {cs : List Char} (hbase : 1 ≤ base) :
    readDigits base bound 0 cs = .ok n ↔ AreDigits base cs n ∧ n ≤ bound := by
  rw [readDigits_eq_ok_iff hbase (Nat.zero_le _)]
  constructor
  · rintro ⟨ds, hds, hn, hle⟩
    exact ⟨⟨ds, hds, hn⟩, hle⟩
  · rintro ⟨⟨ds, hds, hn⟩, hle⟩
    exact ⟨ds, hds, hn, hle⟩

/-- A row of digits stands for one number. -/
theorem AreDigits.unique {base n n' : Nat} {cs : List Char} (hbase : 1 ≤ base)
    (h : AreDigits base cs n) (h' : AreDigits base cs n') : n = n' := by
  have hread : readDigits base (n + n') 0 cs = .ok n :=
    (readDigits_zero_eq_ok_iff hbase).mpr ⟨h, Nat.le_add_right _ _⟩
  have hread' : readDigits base (n + n') 0 cs = .ok n' :=
    (readDigits_zero_eq_ok_iff hbase).mpr ⟨h', Nat.le_add_left _ _⟩
  exact Except.ok.inj (hread.symm.trans hread')

/-- Reading accepts the whole numbers up to the bound. -/
theorem readNat_eq_ok_iff {base bound n : Nat} {cs : List Char} (hbase : 1 ≤ base) :
    readNat base bound cs = .ok n ↔ IsWhole base cs n ∧ n ≤ bound := by
  unfold readNat
  split
  · constructor
    · intro h
      cases h
    · rintro ⟨h, -⟩
      cases h with
      | unsigned hne => exact absurd rfl hne
  · next cs =>
    split
    · next hempty =>
      rw [List.isEmpty_iff] at hempty
      constructor
      · intro h
        cases h
      · rintro ⟨h, -⟩
        cases h with
        | unsigned _ hdigits => exact absurd hdigits not_areDigits_plus
        | plus hne => exact absurd hempty hne
    · next hne =>
      rw [List.isEmpty_iff] at hne
      rw [readDigits_zero_eq_ok_iff hbase]
      apply and_congr_left'
      refine ⟨.plus hne, ?_⟩
      intro h
      cases h with
      | unsigned _ hdigits => exact absurd hdigits not_areDigits_plus
      | plus _ hdigits => exact hdigits
  · next hnil hplus =>
    rw [readDigits_zero_eq_ok_iff hbase]
    apply and_congr_left'
    refine ⟨.unsigned hnil, ?_⟩
    intro h
    cases h with
    | unsigned _ hdigits => exact hdigits
    | plus => exact absurd rfl (hplus _)

theorem IsWhole.ne_nil {base n : Nat} {cs : List Char} (h : IsWhole base cs n) : cs ≠ [] := by
  cases h with
  | unsigned hne => exact hne
  | plus => exact List.cons_ne_nil _ _

theorem IsWhole.areDigits {base n : Nat} {cs : List Char} (h : IsWhole base cs n)
    (hplus : '+' ∉ cs) : AreDigits base cs n := by
  cases h with
  | unsigned _ hdigits => exact hdigits
  | plus => exact absurd List.mem_cons_self hplus

/-! ### Written numbers -/

theorem isDigit_of_mem_toDigits (n : Nat) : ∀ c ∈ Nat.toDigits 10 n, c.isDigit :=
  fun _ hc => Nat.isDigit_of_mem_toDigits (by decide) (by decide) hc

theorem AreDigits.zero_cons {base n : Nat} {cs : List Char} (hbase : 0 < base)
    (h : AreDigits base cs n) : AreDigits base ('0' :: cs) n := by
  obtain ⟨ds, hds, rfl⟩ := h
  refine ⟨0 :: ds, .cons ?_ hds, ?_⟩
  · simp [digitInBase?, hbase]
  · simp [appendDigits]

/-- Zeros before a number do not change it. -/
theorem AreDigits.replicate_append {base n : Nat} {cs : List Char} (hbase : 0 < base)
    (h : AreDigits base cs n) (count : Nat) :
    AreDigits base (List.replicate count '0' ++ cs) n := by
  induction count with
  | zero => exact h
  | succ count ih => exact ih.zero_cons hbase

theorem digitInBase?_digitChar {base d : Nat} (hbase : base ≤ 16) (hd : d < base) :
    digitInBase? base (Nat.digitChar d) = some d := by
  have hall : ∀ base < 17, ∀ d < base, digitInBase? base (Nat.digitChar d) = some d := by
    decide +kernel
  exact hall base (by omega) d hd

theorem AreDigits.concat {base n d : Nat} {cs : List Char} {c : Char} (h : AreDigits base cs n)
    (hc : digitInBase? base c = some d) : AreDigits base (cs ++ [c]) (n * base + d) := by
  obtain ⟨ds, hds, rfl⟩ := h
  refine ⟨ds ++ [d], List.rel_append hds (.cons hc .nil), ?_⟩
  simp [appendDigits]

/-- The digits that a number is written in stand for it. -/
theorem areDigits_toDigits {base : Nat} (hone : 1 < base) (hbase : base ≤ 16) (n : Nat) :
    AreDigits base (Nat.toDigits base n) n := by
  induction n using Nat.strongRecOn with
  | ind n ih =>
    by_cases hn : n < base
    · have hzero : AreDigits base [] 0 := ⟨[], .nil, rfl⟩
      rw [Nat.toDigits_of_lt_base hn]
      simpa using hzero.concat (digitInBase?_digitChar hbase hn)
    · have hdiv : AreDigits base (Nat.toDigits base (n / base)) (n / base) :=
        ih _ (Nat.div_lt_self (by omega) hone)
      have hconcat := hdiv.concat (digitInBase?_digitChar hbase (Nat.mod_lt n (by omega)))
      rw [Nat.div_add_mod'] at hconcat
      rwa [Nat.toDigits_of_base_le hone (by omega)]

/-- A number that is written in digits is a whole number. -/
theorem isWhole_toDigits (n : Nat) : IsWhole 10 (Nat.toDigits 10 n) n :=
  .unsigned Nat.toDigits_ne_nil (areDigits_toDigits (by decide) (by decide) n)

/-! ### Characters that are digits -/

/-- All digits lie between `0` and `f`. -/
theorem toNat_bounds_of_digitInBase? {base d : Nat} {c : Char} (h : digitInBase? base c = some d) :
    0x30 ≤ c.toNat ∧ c.toNat ≤ 0x66 := by
  have hle {a b : Char} (hab : a ≤ b) : a.toNat ≤ b.toNat := hab
  have hrange : ('0' ≤ c ∧ c ≤ '9') ∨ ('a' ≤ c ∧ c ≤ 'f') ∨ ('A' ≤ c ∧ c ≤ 'F') := by
    unfold digitInBase? at h
    grind
  rcases hrange with hc | hc | hc
  all_goals
    have hlo := hle hc.1
    have hhi := hle hc.2
    simp only [Char.reduceToNat] at hlo hhi
    omega

theorem AreDigits.toNat_bounds {base n : Nat} {cs : List Char} (h : AreDigits base cs n) :
    ∀ c ∈ cs, 0x30 ≤ c.toNat ∧ c.toNat ≤ 0x66 := by
  obtain ⟨ds, hds, -⟩ := h
  induction hds with
  | nil => simp
  | cons hd _ ih => exact List.forall_mem_cons.mpr ⟨toNat_bounds_of_digitInBase? hd, ih⟩

theorem isDigit_of_digitInBase? {c : Char} {d : Nat} (h : digitInBase? 10 c = some d) :
    c.isDigit := by
  have hc : '0' ≤ c ∧ c ≤ '9' := by
    unfold digitInBase? at h
    grind
  simp only [Char.isDigit, Bool.and_eq_true, decide_eq_true_eq]
  exact hc

theorem AreDigits.isDigit {n : Nat} {cs : List Char} (h : AreDigits 10 cs n) :
    ∀ c ∈ cs, c.isDigit := by
  obtain ⟨ds, hds, -⟩ := h
  induction hds with
  | nil => simp
  | cons hd _ ih => exact List.forall_mem_cons.mpr ⟨isDigit_of_digitInBase? hd, ih⟩

/-! ### Sizes of numbers -/

theorem lt_of_digitInBase? {base d : Nat} {c : Char} (h : digitInBase? base c = some d) :
    d < base := by
  unfold digitInBase? at h
  grind

theorem appendDigits_lt {base : Nat} {ds : List Nat} (h : ∀ d ∈ ds, d < base) (sofar : Nat) :
    appendDigits base sofar ds < (sofar + 1) * base ^ ds.length := by
  induction ds generalizing sofar with
  | nil => simp [appendDigits]
  | cons d ds ih =>
    obtain ⟨hd, hds⟩ := List.forall_mem_cons.mp h
    calc appendDigits base sofar (d :: ds) < (sofar * base + d + 1) * base ^ ds.length := ih hds _
      _ ≤ (sofar * base + base) * base ^ ds.length := Nat.mul_le_mul_right _ (by omega)
      _ = (sofar + 1) * base ^ (d :: ds).length := by
        rw [← Nat.succ_mul, List.length_cons, Nat.pow_succ', Nat.mul_assoc]

/-- A number of a few digits is small. -/
theorem AreDigits.lt_pow {base n : Nat} {cs : List Char} (h : AreDigits base cs n) :
    n < base ^ cs.length := by
  obtain ⟨ds, hds, rfl⟩ := h
  have hsmall : ∀ d ∈ ds, d < base := by
    induction hds with
    | nil => simp
    | cons hd _ ih => exact List.forall_mem_cons.mpr ⟨lt_of_digitInBase? hd, ih⟩
  rw [hds.length_eq]
  simpa using appendDigits_lt hsmall 0

/-! ### White space -/

theorem not_isBlank_of_toNat {c : Char} (h : 0x21 ≤ c.toNat) (h' : c.toNat < 0x85) :
    Text.isBlank c = false := by
  rw [Bool.eq_false_iff, Ne, Text.isBlank]
  simp only [Bool.or_eq_true, Bool.and_eq_true, decide_eq_true_eq, beq_iff_eq]
  omega

theorem AreDigits.not_isBlank {base n : Nat} {cs : List Char} (h : AreDigits base cs n) :
    ∀ c ∈ cs, Text.isBlank c = false := by
  intro c hc
  obtain ⟨hlo, hhi⟩ := h.toNat_bounds c hc
  exact not_isBlank_of_toNat (by omega) (by omega)

/-- A whole number has no white space in it. -/
theorem IsWhole.not_isBlank {base n : Nat} {cs : List Char} (h : IsWhole base cs n) :
    ∀ c ∈ cs, Text.isBlank c = false := by
  cases h with
  | unsigned _ hdigits => exact hdigits.not_isBlank
  | plus _ hdigits => exact List.forall_mem_cons.mpr ⟨by decide, hdigits.not_isBlank⟩

end DramTiming.Decimal
