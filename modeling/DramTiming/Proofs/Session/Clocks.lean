import DramTiming.Proofs.Clock.Conversion
import DramTiming.Proofs.Session.Sweep

/-!
# What clock evaluations print

A clock evaluation prints its lines one after the other, until it comes to one that it cannot
compute.  The lines that it has printed by then are printed for good: the line above the rows of a
sweep, or the two clocks of a single evaluation.  Only a single evaluation with a divisor of zero
fails before it has printed anything (`runCommand_pll_printed`).
-/

namespace DramTiming

variable {v : Verbosity} {s : ClockSetting} {a : PllArguments} {settings : Settings} {w : World}
  {fabricClk : Binary64} {range : MultRange} {e : Failure} {n : Nat}

/-! ### tRCD values -/

/-- The line of a number of cycles. -/
def trcdLine (fabricClk : Binary64) (cycles : Nat) : String :=
  s!"tRCD {cycles} cycles = {(Binary64.ofNat cycles * (1000 / fabricClk)).toText} ns"

/-- Each number of cycles has its line if the fabric clock does not stand still. -/
theorem outcome_printTrcdFrom (h : ¬ fabricClk.isZero = true) (first count : Nat) (w : World) :
    outcome (printTrcdFrom fabricClk first count) w =
      (.ok (), { w with printed :=
        w.printed ++ ((List.range' first count).map (trcdLine fabricClk)).toArray }) := by
  induction count generalizing first w with
  | zero => simp [printTrcdFrom, outcome_pure]
  | succ count ih =>
    have hns : outcome (Attempt.ofExcept (trcdNs first fabricClk) Failure.clock) w =
        (.ok (Binary64.ofNat first * (1000 / fabricClk)), w) := by
      rw [outcome_ofExcept, trcdNs_eq, if_neg h]
      rfl
    have hprint : outcome (Attempt.print (trcdLine fabricClk first)) w =
        (.ok (), { w with printed := w.printed.push (trcdLine fabricClk first) }) := rfl
    rw [printTrcdFrom, outcome_bind_of_ok hns]
    show outcome (Attempt.print (trcdLine fabricClk first) >>= _) w = _
    rw [outcome_bind_of_ok hprint, ih, List.range'_succ]
    simp

/-- Otherwise not even the first one has a line. -/
theorem outcome_printTrcdFrom_of_isZero (h : fabricClk.isZero = true) (first count : Nat)
    (w : World) :
    outcome (printTrcdFrom fabricClk first count) w =
      if count = 0 then (.ok (), w) else (.error (.clock .fabricClock), w) := by
  cases count with
  | zero => simp [printTrcdFrom, outcome_pure]
  | succ count =>
    have hns : outcome (Attempt.ofExcept (trcdNs first fabricClk) Failure.clock) w =
        (.error (.clock .fabricClock), w) := by
      rw [outcome_ofExcept, trcdNs_eq, if_pos h]
      rfl
    simp [printTrcdFrom, outcome_bind_of_error hns]

/-! ### All lines -/

/-- The table of a sweep: a line above the rows, and a row for each multiplier. -/
def sweepTable (s : ClockSetting) (range : MultRange) : List String :=
  sweepHeader :: (List.range' range.lo range.size).map fun mult =>
    sweepLine mult (s.clocksAt (Binary64.ofNat mult))

/-- The lines of a single evaluation: the two clocks, and tRCD values from one cycle up to a number
of cycles. -/
def clockLines (f : Frequencies) (cycles : Nat) : List String :=
  [f.ddrClk.toText, f.fabricClk.toText] ++ (List.range' 1 cycles).map (trcdLine f.fabricClk)

namespace PllArguments

/-- The lines that a clock evaluation is asked for. -/
def lines (a : PllArguments) (s : ClockSetting) : List String :=
  match a.sweep with
  | some range => sweepTable s range
  | none => clockLines (s.clocksAt s.clkfboutMult) (a.trcdCycles.getD 0)

/-- A clock evaluation fails for a cause when it has printed a number of its lines. -/
inductive Fails (a : PllArguments) (s : ClockSetting) : Failure → Nat → Prop where
  | sweep {range : MultRange} : a.sweep = some range → range.lo ≤ range.hi →
      s.divisor.isZero = true → a.Fails s (.clock .dividers) 1
  | single : a.sweep = none → s.divisor.isZero = true →
      a.Fails s (.during .evaluatingClock (.clock .dividers)) 0
  | trcd : a.sweep = none → ¬ s.divisor.isZero = true →
      (s.clocksAt s.clkfboutMult).fabricClk.isZero = true → 0 < a.trcdCycles.getD 0 →
      a.Fails s (.clock .fabricClock) 2

/-- A clock evaluation fails when it has printed the lines before the one in question. -/
theorem Fails.exists_outcome (h : a.Fails (a.setting settings.clock) e n) (v : Verbosity)
    (w : World) :
    ∃ w₁, outcome (evaluateClocks v settings a) w = (.error e, w₁) ∧
      w₁.SameResults { w with
        printed := w.printed ++ ((a.lines (a.setting settings.clock)).take n).toArray } := by
  unfold evaluateClocks lines
  cases h with
  | sweep hsweep hrange hzero =>
    rename_i range
    obtain ⟨w₁, hw₁, hprint⟩ := outcome_printSweep v (a.setting settings.clock) range w
    rw [ClockSetting.sweep_of_isZero hzero hrange] at hprint
    simp only [hsweep]
    refine ⟨w₁, hprint, hw₁.files, ?_⟩
    simp [hw₁.printed, sweepTable]
  | single hsweep hzero =>
    simp only [hsweep, outcome_printClocks_eq, if_pos hzero]
    refine ⟨w, rfl, rfl, ?_⟩
    simp
  | trcd hsweep hzero hstands hcycles =>
    simp only [hsweep, outcome_printClocks_eq, if_neg hzero,
      outcome_printTrcdFrom_of_isZero hstands, if_neg (Nat.pos_iff_ne_zero.mp hcycles)]
    refine ⟨_, rfl, rfl, ?_⟩
    simp [clockLines, Frequencies.lines]

/-- Nothing has been printed by then only if a single evaluation has a divisor of zero. -/
theorem Fails.take_lines_eq_nil_iff (h : a.Fails s e n) :
    (a.lines s).take n = [] ↔ a.sweep = none ∧ s.divisor.isZero = true := by
  unfold lines
  cases h with
  | sweep hsweep => simp [hsweep, sweepTable]
  | single hsweep hzero => simp [hsweep, hzero]
  | trcd hsweep hzero => simp [hsweep, hzero, clockLines]

/-- What is empty or has a divisor is swept. -/
theorem sweep_eq_of_not_fails (hsweep : a.sweep = some range)
    (h : ∀ e n, ¬ a.Fails s e n) :
    s.sweep range = .ok ((List.range' range.lo range.size).map fun mult =>
      (mult, s.clocksAt (Binary64.ofNat mult))) := by
  by_cases hzero : s.divisor.isZero = true
  · have hlt : range.hi < range.lo := by
      apply Nat.lt_of_not_le
      intro hle
      exact h _ _ (.sweep hsweep hle hzero)
    have hsize : range.size = 0 := by
      unfold MultRange.size
      omega
    rw [ClockSetting.sweep_of_lt hlt, hsize]
    rfl
  · exact ClockSetting.sweep_of_not_isZero hzero range

/-- A clock evaluation that does not fail prints all its lines. -/
theorem exists_outcome_of_not_fails (h : ∀ e n, ¬ a.Fails (a.setting settings.clock) e n)
    (v : Verbosity) (w : World) :
    ∃ w₁, outcome (evaluateClocks v settings a) w = (.ok (), w₁) ∧
      w₁.SameResults { w with
        printed := w.printed ++ (a.lines (a.setting settings.clock)).toArray } := by
  unfold evaluateClocks lines
  cases hsweep : a.sweep with
  | some range =>
    obtain ⟨w₁, hw₁, hprint⟩ := outcome_printSweep v (a.setting settings.clock) range w
    rw [sweep_eq_of_not_fails hsweep h] at hprint
    refine ⟨_, hprint, hw₁.files, ?_⟩
    simp [hw₁.printed, sweepTable, Function.comp_def]
  | none =>
    have hzero : ¬ (a.setting settings.clock).divisor.isZero = true := by
      intro hzero
      exact h _ _ (.single hsweep hzero)
    simp only [outcome_printClocks_eq, if_neg hzero]
    let f := (a.setting settings.clock).clocksAt (a.setting settings.clock).clkfboutMult
    by_cases hstands : f.fabricClk.isZero = true
    · have hcycles : a.trcdCycles.getD 0 = 0 := by
        apply Nat.eq_zero_of_not_pos
        intro hcycles
        exact h _ _ (.trcd hsweep hzero hstands hcycles)
      rw [outcome_printTrcdFrom_of_isZero hstands, if_pos hcycles]
      refine ⟨_, rfl, rfl, ?_⟩
      simp [clockLines, Frequencies.lines, hcycles]
    · rw [outcome_printTrcdFrom hstands]
      refine ⟨_, rfl, rfl, ?_⟩
      simp [clockLines, Frequencies.lines, f]

end PllArguments

/-! ### The command -/

/-- A clock evaluation prints all its lines, or else fails, and has printed those before the one
that it cannot compute.  So it has printed something when it fails, unless it is a single evaluation
and the divisor is zero. -/
theorem runCommand_pll_printed (v : Verbosity) (settings : Settings) (a : PllArguments)
    (w : World) :
    let s := a.setting settings.clock
    let run := outcome (runCommand v settings (.pll a)) w
    (∀ e, run.1 = .error e ↔ ∃ n, a.Fails s e n) ∧
    (∀ e n, a.Fails s e n →
      run.2.printed.toList = w.printed.toList ++ (a.lines s).take n ∧
      (run.2.printed = w.printed ↔ a.sweep = none ∧ s.divisor.isZero = true)) ∧
    (run.1 = .ok () → run.2.printed.toList = w.printed.toList ++ a.lines s) ∧
    run.2.files = w.files := by
  intro s run
  by_cases hfails : ∃ e n, a.Fails s e n
  · have houtcome {e : Failure} {n : Nat} (h : a.Fails s e n) : run.1 = .error e ∧
        run.2.printed.toList = w.printed.toList ++ (a.lines s).take n ∧
        run.2.files = w.files := by
      obtain ⟨w₁, hrun, hw₁⟩ := h.exists_outcome v w
      rw [show run = _ from hrun]
      exact ⟨rfl, by simp [hw₁.printed, s], hw₁.files⟩
    obtain ⟨e', n', h'⟩ := hfails
    obtain ⟨herror, -, hfiles⟩ := houtcome h'
    refine ⟨fun e => ⟨?_, ?_⟩, ?_, ?_, hfiles⟩
    · intro he
      cases herror.symm.trans he
      exact ⟨n', h'⟩
    · rintro ⟨n, h⟩
      exact (houtcome h).1
    · intro e n h
      obtain ⟨-, hprinted, -⟩ := houtcome h
      refine ⟨hprinted, ?_⟩
      rw [← h.take_lines_eq_nil_iff, ← Array.toList_inj, hprinted]
      simp
    · intro hok
      cases herror.symm.trans hok
  · have hnever : ∀ e n, ¬ a.Fails s e n := by simpa using hfails
    obtain ⟨w₁, hrun, hw₁⟩ := PllArguments.exists_outcome_of_not_fails hnever v w
    rw [show run = _ from hrun]
    refine ⟨?_, ?_, ?_, hw₁.files⟩
    · intro e
      exact iff_of_false nofun (by simp [hnever])
    · intro e n h
      exact absurd h (hnever e n)
    · intro _
      simp [hw₁.printed, s]

/-- The default clocks, with two tRCD values. -/
theorem runCommand_pll_printed_sample :
    let a : PllArguments := ⟨none, none, none, none, none, some 2⟩
    let run := outcome (runCommand .silent .default (.pll a)) (.ofFiles (.bare []))
    run.1 = .ok () ∧ run.2.printed.toList =
      ["500", "250", "tRCD 1 cycles = 4 ns", "tRCD 2 cycles = 8 ns"] := by
  intro a
  dsimp only
  have hok : (outcome (runCommand .silent .default (.pll a)) (.ofFiles (.bare []))).1 = .ok () := by
    decide +kernel
  obtain ⟨-, -, hprinted, -⟩ := runCommand_pll_printed .silent .default a (.ofFiles (.bare []))
  rw [hprinted hok]
  exact ⟨hok, by decide +kernel⟩

/-- A sweep without a divisor leaves the line above its rows, and a fabric clock that stands still
leaves the two clocks. -/
theorem runCommand_pll_leaves_lines :
    let sweep : PllArguments := ⟨none, none, some 0, none, some ⟨6, 7⟩, none⟩
    let standing : PllArguments := ⟨some 0, none, none, none, none, some 1⟩
    let run (a : PllArguments) :=
      outcome (runCommand .silent .default (.pll a)) (.ofFiles (.bare []))
    (run sweep).1 = .error (.clock .dividers) ∧
      (run sweep).2.printed = #["mult, ddr_clk, fabric_clk"] ∧
      (run standing).1 = .error (.clock .fabricClock) ∧
      (run standing).2.printed = #["0", "0"] := by
  decide +kernel

end DramTiming
