import DramTiming.Binary64.Order

/-!
# Clock settings

A base clock is multiplied and divided by a PLL into the memory clock; the fabric runs at half of
it. Delays are counted in cycles of the fabric clock.
-/

namespace DramTiming

/-- The period of a clock of `mhz` megahertz, in nanoseconds; a clock that stands still has none. -/
def periodNs? (mhz : Binary64) : Option Binary64 :=
  if mhz.isZero then none else some (1000 / mhz)

/-- How long a number of cycles takes at `mhz` megahertz, in nanoseconds. -/
def cyclesToNs? (cycles : Nat) (mhz : Binary64) : Option Binary64 :=
  (periodNs? mhz).map (Binary64.ofNat cycles * ·)

/-- The inputs of the PLL: the base clock in megahertz, its multiplier, and two dividers. -/
structure ClockSetting where
  baseClk : Binary64
  clkfboutMult : Binary64
  divclkDivide : Binary64
  clkoutDivide : Binary64
deriving DecidableEq

/-- The clocks that a setting yields, in megahertz. -/
structure Frequencies where
  ddrClk : Binary64
  fabricClk : Binary64
deriving DecidableEq

/-- Which divisor was zero. -/
inductive ClockError where
  | dividers
  | fabricClock
deriving DecidableEq, Repr

/-- The wording of a `ClockError`. -/
def ClockError.message : ClockError → String
  | .dividers => "division by zero: divclk_divide * clkout_divide"
  | .fabricClock => "division by zero: fabric clock"

/-- The duration of a tRCD of `cycles` fabric cycles, in nanoseconds. -/
def trcdNs (cycles : Nat) (fabricClk : Binary64) : Except ClockError Binary64 :=
  match cyclesToNs? cycles fabricClk with
  | some ns => .ok ns
  | none => .error .fabricClock

namespace ClockSetting

/-- The setting of a controller that has not been configured. -/
def default : ClockSetting := ⟨200, 10, 1, 4⟩

/-- The same setting with another multiplier. -/
def withMult (s : ClockSetting) (mult : Binary64) : ClockSetting := { s with clkfboutMult := mult }

/-- The clocks that a setting yields. -/
def frequencies (s : ClockSetting) : Except ClockError Frequencies :=
  let divisor := s.divclkDivide * s.clkoutDivide
  if divisor.isZero then .error .dividers
  else
    let ddrClk := s.baseClk * s.clkfboutMult / divisor
    .ok ⟨ddrClk, ddrClk / 2⟩

end ClockSetting

/-- A range of whole multipliers; both ends belong to it. -/
structure MultRange where
  lo : Nat
  hi : Nat
deriving DecidableEq, Repr

/-- How many multipliers a range has. -/
def MultRange.size (r : MultRange) : Nat := r.hi + 1 - r.lo

/-- The clocks for `count` multipliers from `mult` on, up to the first that has none. -/
def ClockSetting.sweepFrom (s : ClockSetting) (mult : Nat) :
    (count : Nat) → Except ClockError (List (Nat × Frequencies))
  | 0 => .ok []
  | count + 1 => do
    let frequencies ← (s.withMult (Binary64.ofNat mult)).frequencies
    return (mult, frequencies) :: (← s.sweepFrom (mult + 1) count)

/-- The clocks for each multiplier of a range. -/
def ClockSetting.sweep (s : ClockSetting) (range : MultRange) :
    Except ClockError (List (Nat × Frequencies)) :=
  s.sweepFrom range.lo range.size

end DramTiming
