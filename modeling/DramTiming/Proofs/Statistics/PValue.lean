import DramTiming.Proofs.Analysis.Correlation
import DramTiming.Proofs.Statistics.Symmetry

/-!
# P-values of all numbers

Every coefficient that is a number has a p-value, whatever the number of pairs: a number from zero
to one that does not depend on the sign of the coefficient (`pValueWith?_total`).
-/

namespace DramTiming.Statistics

open Binary64

variable {r : Binary64} {n : Nat}

/-- A coefficient that is a number has a p-value for every number of pairs, and that is a number
from zero to one if the distribution gives probabilities.  The coefficient with the other sign has
the same one to the bit.  It is one for up to two pairs; with more of them it is zero for a
coefficient of at least one, and else from the distribution at finite arguments: one minus the
square of the coefficient is positive after rounding, the variable is finite, and there is at least
one degree of freedom.

Student's distribution has a value there, so that the p-value exists without assumptions. -/
theorem pValueWith?_total (exceeds? : Binary64 → Binary64 → Option Binary64)
    (hnan : r.isNaN = false) (hn : n < 2 ^ 64) :
    (GivesProbabilities exceeds? →
      ∃ p, pValueWith? exceeds? r n = some p ∧ le 0 p = true ∧ le p 1 = true) ∧
    pValueWith? exceeds? r n = pValueWith? exceeds? (-r) n ∧
    (n ≤ 2 → pValueWith? exceeds? r n = some 1) ∧
    (2 < n → le 1 r.abs = true → pValueWith? exceeds? r n = some 0) ∧
    (2 < n → lt r.abs 1 = true →
      lt 0 (1 - r * r) = true ∧ (studentOf r (freedomOf n)).isFinite = true ∧
      (freedomOf n).isFinite = true ∧ le 1 (freedomOf n) = true ∧
      pValueWith? exceeds? r n =
        (exceeds? (freedomOf n) (studentOf r (freedomOf n)).abs).map fun p =>
          clamp (2 * p) 0 1) ∧
    ∃ p, pValue? r n = some p := by
  refine ⟨fun hexceeds => pValueWith?_between hexceeds hnan hn.le,
    (pValueWith?_eq exceeds? (mirrored_neg r) n).symm, pValueWith?_of_le exceeds? r,
    pValueWith?_of_one_le exceeds?, fun htwo hlt => ?_, exists_pValue? hnan hn.le⟩
  have hr := magnitude_le_belowOne hlt
  obtain ⟨hfreedom, hle⟩ := freedomOf_spec htwo hn.le
  exact ⟨zero_lt_one_sub_square hr, isFinite_studentOf hr htwo hn.le, hfreedom.isFinite, hle,
    pValueWith?_of_lt_one exceeds? htwo hlt⟩

/-- A strong correlation of thirty pairs, where the value of Student's distribution is tiny. -/
theorem pValueWith?_total_strong :
    (-0.99 : Binary64).isNaN = false ∧ 30 < 2 ^ 64 ∧
    pValueWith? Table.studentProbability? (-0.99) 30 = pValue? (-0.99) 30 ∧
    (∃ p, pValueWith? Table.studentProbability? (-0.99) 30 = some p ∧
      le 0 p = true ∧ le p 1 = true) ∧
    pValueWith? Table.studentProbability? (-0.99) 30 =
      pValueWith? Table.studentProbability? (-(-0.99)) 30 ∧
    lt 0 (1 - (-0.99) * (-0.99)) = true ∧ (studentOf (-0.99) (freedomOf 30)).isFinite = true ∧
    le 1 (freedomOf 30) = true := by
  have hnan : (-0.99 : Binary64).isNaN = false := by decide +kernel
  have hn : 30 < 2 ^ 64 := by decide
  obtain ⟨hbetween, heven, -, -, hinside, -⟩ :=
    pValueWith?_total Table.studentProbability? hnan hn
  obtain ⟨hpos, hstudent, -, hfreedom, -⟩ := hinside (by decide) (by decide +kernel)
  exact ⟨hnan, hn, by decide +kernel,
    hbetween Table.givesProbabilities_studentProbability?, heven, hpos, hstudent, hfreedom⟩

end DramTiming.Statistics
