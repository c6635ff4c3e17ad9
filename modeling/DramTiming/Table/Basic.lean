import DramTiming.Binary64.Order
import DramTiming.Label

/-!
# Measurement tables

A table holds the rows of one run: at which tRCD and retention time which share of the cells failed,
and, where the file tells it, how many.
-/

namespace DramTiming

/-- One measurement. -/
structure Row where
  /-- The activation-to-read delay, in nanoseconds. -/
  trcd : Binary64
  /-- The failed share, in per cent. -/
  errorPercent : Binary64
  /-- The time without refresh, in seconds. -/
  retention : Binary64
  /-- The number of failed cells, where it is known. -/
  errorCount : Option Nat
deriving DecidableEq

/-- The measurements of one run, in file order. -/
structure Table where
  label : Label
  source : Path
  rows : List Row
deriving DecidableEq

namespace Table

/-! ### Counting errors -/

/-- The result of adding up counts in a 64-bit word. -/
inductive Total where
  /-- A row without a count came first. -/
  | unknown
  | known (count : Nat)
  /-- The sum left the word before a row without a count came. -/
  | overflow
deriving DecidableEq, Repr

/-- Adds counts in order to the sum so far. -/
def addCounts (sofar : Nat) : List (Option Nat) → Total
  | [] => .known sofar
  | none :: _ => .unknown
  | some count :: counts =>
    if sofar + count ≤ Decimal.max64 then addCounts (sofar + count) counts else .overflow

/-- The number of errors in all rows together. -/
def totalErrorCount (t : Table) : Total := addCounts 0 (t.rows.map Row.errorCount)

/-! ### Grouping by tRCD -/

/-- Keeps of each run of numerically equal values the first, given the value kept last. -/
def dedupAfter (last : Binary64) : List Binary64 → List Binary64
  | [] => []
  | x :: xs => if Binary64.eq x last then dedupAfter last xs else x :: dedupAfter x xs

/-- Keeps of each run of numerically equal values the first. -/
def dedup : List Binary64 → List Binary64
  | [] => []
  | x :: xs => x :: dedupAfter x xs

/-- The tRCD values of a table, ascending, each once. -/
def distinctTrcd (t : Table) : List Binary64 := dedup (Binary64.sort (t.rows.map Row.trcd))

/-- The rows measured at a tRCD, in file order. -/
def rowsWithTrcd (t : Table) (trcd : Binary64) : List Row :=
  t.rows.filter fun row => Binary64.eq row.trcd trcd

end Table

end DramTiming
