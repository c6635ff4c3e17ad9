import DramTiming.Proofs.Arguments.Options
import DramTiming.Proofs.Clock.Sweep
import DramTiming.Proofs.Decimal.Literal
import DramTiming.Proofs.Session.Program
import DramTiming.Proofs.Session.Settings

/-!
# Sweeps and single evaluations

A sweep over multipliers and the evaluation of one of them take the same way up to the clocks: the
settings have to be found, and the divisor must not be zero (`PllArguments.Works`).  Then a sweep
prints a row for each of its multipliers, with the two texts that a single evaluation prints for it.
-/

namespace DramTiming

open Arguments

variable {filter? : String → Option Verbosity} {v : Verbosity} {w : World} {s : ClockSetting}
  {range : MultRange}

/-! ### Printing clocks -/

/-- The two lines that a single evaluation prints. -/
def Frequencies.lines (f : Frequencies) : Array String := #[f.ddrClk.toText, f.fabricClk.toText]

theorem outcome_printClocks_eq (s : ClockSetting) (trcdCycles : Option Nat) (w : World) :
    outcome (printClocks s trcdCycles) w =
      let f := s.clocksAt s.clkfboutMult
      if s.divisor.isZero then (.error (.during .evaluatingClock (.clock .dividers)), w)
      else outcome (printTrcdFrom f.fabricClk 1 (trcdCycles.getD 0))
        { w with printed := w.printed ++ f.lines } := by
  have hfrequencies : s.frequencies = _ := s.frequencies_withMult s.clkfboutMult
  have hstep : outcome ((Attempt.ofExcept s.frequencies .clock).during .evaluatingClock) w =
      ((s.frequencies.mapError .clock).mapError (.during .evaluatingClock), w) := by
    rw [outcome_during, outcome_ofExcept]
    cases s.frequencies <;> rfl
  unfold printClocks
  dsimp only
  split
  · next hzero =>
    rw [hfrequencies, if_pos hzero] at hstep ⊢
    exact outcome_bind_of_error hstep
  · next hzero =>
    rw [hfrequencies, if_neg hzero] at hstep ⊢
    exact outcome_bind_of_ok hstep

theorem outcome_printClocks (s : ClockSetting) (w : World) :
    outcome (printClocks s none) w =
      if s.divisor.isZero then (.error (.during .evaluatingClock (.clock .dividers)), w)
      else (.ok (), { w with printed := w.printed ++ (s.clocksAt s.clkfboutMult).lines }) :=
  outcome_printClocks_eq s none w

/-- The line above the rows of a sweep. -/
def sweepHeader : String := "mult, ddr_clk, fabric_clk"

theorem outcome_printSweep (v : Verbosity) (s : ClockSetting) (range : MultRange) (w : World) :
    ∃ w₁, w₁.SameResults { w with printed := w.printed.push sweepHeader } ∧
      outcome (printSweep v s range) w =
        match s.sweep range with
        | .error e => (.error (.clock e), w₁)
        | .ok rows => (.ok (), { w₁ with
            printed := w₁.printed ++ (rows.map fun row => sweepLine row.1 row.2).toArray }) := by
  let w₀ : World := { w with printed := w.printed.push sweepHeader }
  have hheader : outcome (Attempt.print sweepHeader) w = (.ok (), w₀) := rfl
  have hrows : outcome (Attempt.ofExcept (s.sweep range) Failure.clock) w₀ =
      ((s.sweep range).mapError .clock, w₀) := outcome_ofExcept _ _ _
  unfold printSweep
  rw [← sweepHeader, outcome_bind_of_ok hheader]
  generalize s.sweep range = result at hrows ⊢
  cases result with
  | error e => exact ⟨w₀, ⟨rfl, rfl⟩, outcome_bind_of_error hrows⟩
  | ok rows =>
    have hlogs := LogsOnly.forM (fun row : Nat × Frequencies =>
      logsOnly_report (v := v) (.clockEvaluated row.1 row.2)) rows
    obtain ⟨w₁, hreport, hw₁⟩ := hlogs w₀
    refine ⟨w₁, hw₁.symm, ?_⟩
    rw [outcome_bind_of_ok hrows, outcome_bind_of_ok hreport]
    exact outcome_forM_print (fun row : Nat × Frequencies => sweepLine row.1 row.2) rows w₁

/-! ### A multiplier beside a range -/

theorem printSweep_withMult (v : Verbosity) (s : ClockSetting) (mult : Binary64)
    (range : MultRange) :
    (printSweep v (s.withMult mult) range : Attempt (StateM World) Unit) =
      printSweep v s range := by
  rw [printSweep, printSweep, ClockSetting.sweep_withMult]

/-- A multiplier has no effect on a sweep. -/
theorem run_sweep_mult (v : Verbosity) (line : CommandLine) (a : PllArguments) (range : MultRange)
    (mult : Option Binary64) :
    (run v { line with command := .pll { a with mult := mult, sweep := some range } } :
        Attempt (StateM World) Unit) =
      run v { line with command := .pll { a with mult := none, sweep := some range } } := by
  have hcommand (settings : Settings) :
      (runCommand v settings (.pll { a with mult := mult, sweep := some range }) :
        Attempt (StateM World) Unit) =
      runCommand v settings (.pll { a with mult := none, sweep := some range }) :=
    printSweep_withMult v (PllArguments.setting { a with mult := none } settings.clock)
      (mult.getD settings.clock.clkfboutMult) range
  simp only [run, hcommand]

/-! ### Evaluating clocks -/

variable {a : PllArguments} {settings : Settings}

/-- Clocks can be evaluated unless the divisor is zero, whether for one multiplier or for more. -/
theorem outcome_evaluateClocks_isOk_iff (htrcd : a.trcdCycles = none)
    (hrange : ∀ range ∈ a.sweep, range.lo ≤ range.hi) :
    (outcome (evaluateClocks v settings a) w).1 = .ok () ↔
      ¬ (a.setting settings.clock).divisor.isZero = true := by
  unfold evaluateClocks
  dsimp only
  cases hsweep : a.sweep with
  | none =>
    dsimp only
    rw [htrcd, outcome_printClocks]
    split
    · next hzero => exact iff_of_false nofun (not_not_intro hzero)
    · next hzero => exact iff_of_true rfl hzero
  | some range =>
    dsimp only
    obtain ⟨w₁, -, hprint⟩ := outcome_printSweep v (a.setting settings.clock) range w
    rw [hprint]
    by_cases hzero : (a.setting settings.clock).divisor.isZero = true
    · rw [ClockSetting.sweep_of_isZero hzero (hrange range hsweep)]
      exact iff_of_false nofun (not_not_intro hzero)
    · rw [ClockSetting.sweep_of_not_isZero hzero]
      exact iff_of_true rfl hzero

/-- The settings are found, and the divisor is not zero with them. -/
structure PllArguments.Works (a : PllArguments) (settingsFile : Option Path) (w : World)
    (settings : Settings) : Prop where
  found : Settings.foundIn settingsFile w.files = .ok settings
  divisor : ¬ (a.setting settings.completed.clock).divisor.isZero = true

theorem PllArguments.works_iff (a : PllArguments) (mult : Option Binary64)
    (sweep : Option MultRange) (settingsFile : Option Path) :
    { a with mult := mult, sweep := sweep }.Works settingsFile w settings ↔
      a.Works settingsFile w settings :=
  ⟨fun h => ⟨h.found, h.divisor⟩, fun h => ⟨h.found, h.divisor⟩⟩

section

variable {environment : Environment} {texts : List String} {line : CommandLine}

/-- Where clocks can be evaluated, the program does what the evaluation does. -/
theorem exists_program_pll_eq (hread : read environment.settingsFile texts = .ok line)
    (hcommand : line.command = .pll a)
    (hfound : Settings.foundIn line.settingsFile w.files = .ok settings) :
    ∃ v w₁, w.SameResults w₁ ∧
      (program filter? environment texts : StateM World Ending).run w =
        (.ofResult (outcome (evaluateClocks v settings.completed a) w₁).1,
          (outcome (evaluateClocks v settings.completed a) w₁).2) := by
  let v : Verbosity := .select filter? line.verbosity environment.filter
  obtain ⟨w₁, hw₁, hrun⟩ := outcome_run_of_settings (v := v) hfound
  rw [hcommand, runCommand] at hrun
  exact ⟨v, w₁, hw₁, by rw [program_of_read hread, ← hrun]⟩

theorem program_pll_finished_iff (hread : read environment.settingsFile texts = .ok line)
    (hcommand : line.command = .pll a) (htrcd : a.trcdCycles = none)
    (hrange : ∀ range ∈ a.sweep, range.lo ≤ range.hi) (w : World) :
    ((program filter? environment texts : StateM World Ending).run w).1 = .finished ↔
      ∃ settings, a.Works line.settingsFile w settings := by
  cases hfound : Settings.foundIn line.settingsFile w.files with
  | error e =>
    -- Without settings the program fails, and nothing works.
    let v : Verbosity := .select filter? line.verbosity environment.filter
    obtain ⟨w₁, -, hrun⟩ := outcome_run_of_no_settings (v := v) hfound
    rw [program_of_read hread, hrun]
    refine iff_of_false nofun ?_
    rintro ⟨settings, hworks⟩
    cases hfound.symm.trans hworks.found
  | ok settings =>
    obtain ⟨v, w₁, -, hprogram⟩ := exists_program_pll_eq hread hcommand hfound
    rw [hprogram]
    show Ending.ofResult _ = Ending.ofResult (.ok ()) ↔ _
    rw [Ending.ofResult_inj, outcome_evaluateClocks_isOk_iff htrcd hrange]
    constructor
    · exact fun hzero => ⟨settings, hfound, hzero⟩
    · rintro ⟨settings', hworks⟩
      cases hfound.symm.trans hworks.found
      exact hworks.divisor

/-- A single evaluation prints its two lines. -/
theorem program_single_printed (hread : read environment.settingsFile texts = .ok line)
    (hcommand : line.command = .pll a) (htrcd : a.trcdCycles = none) (hsweep : a.sweep = none)
    (hworks : a.Works line.settingsFile w settings) :
    ((program filter? environment texts : StateM World Ending).run w).2.printed =
      let s := a.setting settings.completed.clock
      w.printed ++ (s.clocksAt s.clkfboutMult).lines := by
  obtain ⟨v, w₁, hw₁, hprogram⟩ := exists_program_pll_eq hread hcommand hworks.found
  rw [hprogram, hw₁.printed]
  unfold evaluateClocks
  dsimp only
  rw [hsweep, htrcd]
  dsimp only
  rw [outcome_printClocks, if_neg hworks.divisor]

/-- A sweep prints a row for each of its multipliers. -/
theorem program_sweep_printed (hread : read environment.settingsFile texts = .ok line)
    (hcommand : line.command = .pll a) (hsweep : a.sweep = some range)
    (hworks : a.Works line.settingsFile w settings) :
    ((program filter? environment texts : StateM World Ending).run w).2.printed =
      w.printed ++ #[sweepHeader] ++ ((List.range' range.lo range.size).map fun m =>
        sweepLine m ((a.setting settings.completed.clock).clocksAt (.ofNat m))).toArray := by
  obtain ⟨v, w₁, hw₁, hprogram⟩ := exists_program_pll_eq hread hcommand hworks.found
  rw [hprogram, hw₁.printed]
  unfold evaluateClocks
  dsimp only
  rw [hsweep]
  dsimp only
  obtain ⟨w₂, hw₂, hprint⟩ := outcome_printSweep v (a.setting settings.completed.clock) range w₁
  rw [hprint, ClockSetting.sweep_of_not_isZero hworks.divisor]
  dsimp only
  rw [hw₂.printed, List.map_map]
  rfl

variable {singleTexts : Nat → List String} {lo hi : Nat} {mult : Option Binary64}

/-- Whatever stands in the way of a sweep stands in the way of single evaluations. -/
theorem program_sweep_finished_iff (htrcd : a.trcdCycles = none) (hsweep : a.sweep = none)
    (hle : lo ≤ hi)
    (hread : read environment.settingsFile texts = .ok { line with
      command := .pll { a with mult := mult, sweep := some ⟨lo, hi⟩ } })
    (hsingle : ∀ m, lo ≤ m → m ≤ hi → read environment.settingsFile (singleTexts m) =
      .ok { line with command := .pll { a with mult := some (.ofNat m) } }) (w : World) :
    ((program filter? environment texts : StateM World Ending).run w).1 = .finished ↔
      ∀ m, lo ≤ m → m ≤ hi →
        ((program filter? environment (singleTexts m) : StateM World Ending).run w).1 =
          .finished := by
  have hrange : ∀ range ∈ some (MultRange.mk lo hi), range.lo ≤ range.hi := by
    rintro _ ⟨⟩
    exact hle
  have hnoRange : ∀ range ∈ a.sweep, range.lo ≤ range.hi := by
    rw [hsweep]
    exact nofun
  rw [program_pll_finished_iff hread rfl htrcd hrange]
  simp only [PllArguments.works_iff]
  have hsingleFinished (m : Nat) (hlo : lo ≤ m) (hhi : m ≤ hi) :
      ((program filter? environment (singleTexts m) : StateM World Ending).run w).1 = .finished ↔
        ∃ settings, a.Works line.settingsFile w settings := by
    rw [program_pll_finished_iff (hsingle m hlo hhi) rfl htrcd hnoRange]
    exact exists_congr fun settings => a.works_iff _ a.sweep _
  exact ⟨fun h m hlo hhi => (hsingleFinished m hlo hhi).mpr h,
    fun hall => (hsingleFinished lo le_rfl hle).mp (hall lo le_rfl hle)⟩

/-- The rows of a sweep hold the lines of single evaluations. -/
theorem exists_program_sweep_printed (htrcd : a.trcdCycles = none) (hsweep : a.sweep = none)
    (hread : read environment.settingsFile texts = .ok { line with
      command := .pll { a with mult := mult, sweep := some ⟨lo, hi⟩ } })
    (hsingle : ∀ m, lo ≤ m → m ≤ hi → read environment.settingsFile (singleTexts m) =
      .ok { line with command := .pll { a with mult := some (.ofNat m) } })
    (hworks : a.Works line.settingsFile w settings) :
    ∃ ddr fabric : Nat → String,
      (∀ m, lo ≤ m → m ≤ hi →
        ((program filter? environment (singleTexts m) : StateM World Ending).run w).2.printed =
          w.printed ++ #[ddr m, fabric m]) ∧
      ((program filter? environment texts : StateM World Ending).run w).2.printed =
        w.printed ++ #["mult, ddr_clk, fabric_clk"] ++
          ((List.range' lo (hi + 1 - lo)).map fun m => s!"{m}, {ddr m}, {fabric m}").toArray := by
  let f (m : Nat) := (a.setting settings.completed.clock).clocksAt (.ofNat m)
  refine ⟨fun m => (f m).ddrClk.toText, fun m => (f m).fabricClk.toText, fun m hlo hhi => ?_, ?_⟩
  · let b : PllArguments := { a with mult := some (.ofNat m) }
    have hworks' : b.Works line.settingsFile w settings := (a.works_iff _ a.sweep _).mpr hworks
    exact program_single_printed (a := b) (hsingle m hlo hhi) rfl htrcd hsweep hworks'
  · have hworks' := (a.works_iff mult (some ⟨lo, hi⟩) line.settingsFile).mpr hworks
    rw [program_sweep_printed hread rfl rfl hworks']
    rfl

/-- A multiplier that is given beside a range has no effect. -/
theorem program_sweep_eq {texts' : List String} {mult' : Option Binary64}
    (hread : read environment.settingsFile texts = .ok { line with
      command := .pll { a with mult := mult, sweep := some range } })
    (hread' : read environment.settingsFile texts' = .ok { line with
      command := .pll { a with mult := mult', sweep := some range } }) (w : World) :
    (program filter? environment texts : StateM World Ending).run w =
      (program filter? environment texts' : StateM World Ending).run w := by
  have hrun (v : Verbosity) := run_sweep_mult v line a range
  rw [program_of_read hread, program_of_read hread']
  simp only [hrun]

end

/-! ### Command lines -/

section

variable {others : List (Opt × String)} {mult : Option String} {texts : List String} {lo hi m : Nat}
  {environment : Environment}

/-- Options that a sweep shares with single evaluations: no multiplier and no range. -/
structure IsShared (options : List (Opt × String)) : Prop extends Given options where
  mult_not_mem : .mult ∉ options.map Prod.fst
  sweep_not_mem : .sweep ∉ options.map Prod.fst

/-- The options of a sweep. -/
def sweepOptions (lo hi : Nat) (mult : Option String) (others : List (Opt × String)) :
    List (Opt × String) :=
  (.sweep, s!"{lo}..={hi}") :: (mult.toList.map (Opt.mult, ·) ++ others)

/-- The options of a single evaluation. -/
def singleOptions (m : Nat) (others : List (Opt × String)) : List (Opt × String) :=
  (.mult, toString m) :: others

theorem IsShared.given_sweepOptions (h : IsShared others)
    (hmult : ∀ text ∈ mult, Opt.mult.Accepts text) (hle : lo ≤ hi) (hhi : hi ≤ Decimal.max32) :
    Given (sweepOptions lo hi mult others) := by
  have haccepts : Opt.sweep.Accepts s!"{lo}..={hi}" := ⟨_, MultRange.parse_text hle hhi⟩
  cases mult with
  | none => exact h.toGiven.cons h.sweep_not_mem haccepts
  | some text =>
    refine (h.toGiven.cons h.mult_not_mem (hmult text rfl)).cons ?_ haccepts
    exact List.not_mem_cons_of_ne_of_not_mem nofun h.sweep_not_mem

theorem IsShared.given_singleOptions (h : IsShared others) (m : Nat) :
    Given (singleOptions m others) :=
  h.toGiven.cons h.mult_not_mem ⟨_, Binary64.parse_toString m⟩

/-- What the shared options and the environment ask for. -/
def sharedLine (environment : Environment) (others : List (Opt × String)) : CommandLine where
  settingsFile := (Found.ofOptions others).settingsFile.or (environment.settingsFile.map Path.mk)
  verbosity := 0
  command := .pll (Found.ofOptions others).toPll

theorem read_sweep (h : IsShared others) (hmult : ∀ text ∈ mult, Opt.mult.Accepts text)
    (hle : lo ≤ hi) (hhi : hi ≤ Decimal.max32)
    (hwrites : WritesPll (sweepOptions lo hi mult others) texts)
    (henvironment : environment.settingsFile ≠ some "") :
    ∃ mult', read environment.settingsFile texts = .ok { sharedLine environment others with
      command := .pll { (Found.ofOptions others).toPll with
        mult := mult', sweep := some ⟨lo, hi⟩ } } := by
  rw [read_of_writesPll (h.given_sweepOptions hmult hle hhi) hwrites, if_neg henvironment,
    sweepOptions, Found.ofOptions_cons_sweep, MultRange.parse_text hle hhi]
  cases mult with
  | none => exact ⟨_, rfl⟩
  | some text => exact ⟨(Binary64.parse text).toOption, rfl⟩

theorem read_single (h : IsShared others) (hwrites : WritesPll (singleOptions m others) texts)
    (henvironment : environment.settingsFile ≠ some "") :
    read environment.settingsFile texts = .ok { sharedLine environment others with
      command := .pll { (Found.ofOptions others).toPll with mult := some (.ofNat m) } } := by
  rw [read_of_writesPll (h.given_singleOptions m) hwrites, if_neg henvironment, singleOptions,
    Found.ofOptions_cons_mult, Binary64.parse_toString]
  rfl

theorem IsShared.sweep_eq_none (h : IsShared others) :
    (Found.ofOptions others).toPll.sweep = none := by
  show (others.lookup .sweep).bind _ = none
  rw [lookup_eq_none_iff_not_mem.mpr h.sweep_not_mem]
  rfl

/-! ### Agreement -/

variable {plainTexts : List String} {singleTexts : Nat → List String}

/-- A sweep agrees with single evaluations that are given the same options.  It succeeds if all of
them do; then it prints a row for each multiplier in ascending order, with the two lines that the
single evaluation prints.  A multiplier that is given beside the range has no effect.  What stands
in the way of the clocks of a sweep is a divisor of zero, and nothing else. -/
theorem program_sweep (filter? : String → Option Verbosity) (hshared : IsShared others)
    (hmult : ∀ text ∈ mult, Opt.mult.Accepts text) (hle : lo ≤ hi) (hhi : hi ≤ Decimal.max32)
    (hsweep : WritesPll (sweepOptions lo hi mult others) texts)
    (hplain : WritesPll (sweepOptions lo hi none others) plainTexts)
    (hsingle : ∀ m, lo ≤ m → m ≤ hi → WritesPll (singleOptions m others) (singleTexts m))
    (environment : Environment) (w : World) :
    let sweep := (program filter? environment texts : StateM World Ending).run w
    let single m := (program filter? environment (singleTexts m) : StateM World Ending).run w
    (sweep.1 = .finished ↔ ∀ m, lo ≤ m → m ≤ hi → (single m).1 = .finished) ∧
    (sweep.1 = .finished → ∃ ddr fabric : Nat → String,
      (∀ m, lo ≤ m → m ≤ hi → (single m).2.printed = w.printed ++ #[ddr m, fabric m]) ∧
      sweep.2.printed = w.printed ++ #["mult, ddr_clk, fabric_clk"] ++
        ((List.range' lo (hi + 1 - lo)).map fun m => s!"{m}, {ddr m}, {fabric m}").toArray) ∧
    sweep = (program filter? environment plainTexts : StateM World Ending).run w ∧
    ∀ (s : ClockSetting) (range : MultRange),
      ((∃ e, s.sweep range = .error e) ↔
        range.lo ≤ range.hi ∧ (s.divclkDivide * s.clkoutDivide).isZero = true) ∧
      ∀ rows, s.sweep range = .ok rows →
        rows.map Prod.fst = List.range' range.lo (range.hi + 1 - range.lo) ∧
        ∀ row ∈ rows, (s.withMult (.ofNat row.1)).frequencies = .ok row.2 := by
  intro sweep single
  have hsweepGiven := hshared.given_sweepOptions hmult hle hhi
  have hnoMult : ∀ text ∈ none, Opt.mult.Accepts text := by simp
  have hplainGiven := hshared.given_sweepOptions hnoMult hle hhi
  by_cases henvironment : environment.settingsFile = some ""
  · -- An empty path in the environment is refused in any case.
    have hrefused {options texts} (hgiven : Given options) (hwrites : WritesPll options texts) :
        (program filter? environment texts : StateM World Ending).run w =
          (.refused .invalidValue, w) := by
      apply program_of_refused
      rw [read_of_writesPll hgiven hwrites, if_pos henvironment]
    have hsweepRefused := hrefused hsweepGiven hsweep
    have hunfinished : sweep.1 ≠ .finished := by
      rw [show sweep = _ from hsweepRefused]
      exact nofun
    refine ⟨iff_of_false hunfinished fun hall => ?_, fun h => (hunfinished h).elim,
      hsweepRefused.trans (hrefused hplainGiven hplain).symm, fun s range =>
        ⟨ClockSetting.exists_sweep_eq_error_iff, fun _ => ClockSetting.sweep_eq_ok⟩⟩
    have hfinished := hall lo le_rfl hle
    rw [show single lo = _ from hrefused (hshared.given_singleOptions lo) (hsingle lo le_rfl hle)]
      at hfinished
    cases hfinished
  · obtain ⟨mult', hread⟩ := read_sweep hshared hmult hle hhi hsweep henvironment
    obtain ⟨mult'', hreadPlain⟩ := read_sweep hshared hnoMult hle hhi hplain henvironment
    have hreadSingle (m : Nat) (hlo : lo ≤ m) (hhi : m ≤ hi) :=
      read_single hshared (hsingle m hlo hhi) henvironment
    refine ⟨program_sweep_finished_iff rfl hshared.sweep_eq_none hle hread hreadSingle w,
      fun hfinished => ?_, ?_, fun s range =>
        ⟨ClockSetting.exists_sweep_eq_error_iff, fun _ => ClockSetting.sweep_eq_ok⟩⟩
    · obtain ⟨settings, hworks⟩ :=
        (program_pll_finished_iff hread rfl rfl (by rintro _ ⟨⟩; exact hle) w).mp hfinished
      exact exists_program_sweep_printed rfl hshared.sweep_eq_none hread hreadSingle
        ((PllArguments.works_iff ..).mp hworks)
    · exact program_sweep_eq hread hreadPlain w

/-- Two multipliers, without a settings file. -/
theorem program_sweep_sample :
    let w : World := .ofFiles (.bare [])
    let sweep := (program Verbosity.named? ⟨none, none⟩
      ["pll", "--mult", "3", "--sweep=6..=7", "--base-clk=100"] : StateM World Ending).run w
    let single m := (program Verbosity.named? ⟨none, none⟩
      ["pll", "--base-clk=100", "--mult=" ++ toString m] : StateM World Ending).run w
    sweep.1 = .finished ∧
      (sweep.1 = .finished ↔ ∀ m, 6 ≤ m → m ≤ 7 → (single m).1 = .finished) := by
  have hshared : IsShared [(.baseClk, "100")] :=
    { nodup := by decide
      accepts := by
        rintro _ (_ | ⟨_, ⟨⟩⟩)
        exact ⟨_, rfl⟩
      mult_not_mem := by decide
      sweep_not_mem := by decide }
  have hmult : ∀ text ∈ some "3", Opt.mult.Accepts text := by
    rintro _ ⟨⟩
    exact ⟨_, rfl⟩
  have hsweep : WritesPll (sweepOptions 6 7 (some "3") [(.baseClk, "100")])
      ["pll", "--mult", "3", "--sweep=6..=7", "--base-clk=100"] :=
    ⟨_, _, .swap .., .cons (.apart (by decide)) (.cons .attached (.cons .attached .nil)), rfl⟩
  have hplain : WritesPll (sweepOptions 6 7 none [(.baseClk, "100")])
      ["pll", "--sweep=6..=7", "--base-clk=100"] :=
    ⟨_, _, .refl _, .cons .attached (.cons .attached .nil), rfl⟩
  have hsingle (m : Nat) (_ : 6 ≤ m) (_ : m ≤ 7) : WritesPll
      (singleOptions m [(.baseClk, "100")]) ["pll", "--base-clk=100", "--mult=" ++ toString m] :=
    ⟨_, _, .swap .., .cons .attached (.cons .attached .nil), rfl⟩
  exact ⟨by decide +kernel, (program_sweep Verbosity.named? hshared hmult (by decide) (by decide)
    hsweep hplain hsingle ⟨none, none⟩ (.ofFiles (.bare []))).1⟩

end

end DramTiming
