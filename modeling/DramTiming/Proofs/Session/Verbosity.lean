import DramTiming.Proofs.Session.Agreement

/-!
# What verbosity changes

Verbosity decides what a run reports, and nothing else, with one exception: a run that reports the
tables it loads adds up the error counts of each of them, and fails where they leave a 64-bit word.
-/

namespace DramTiming

variable {α β : Type} {v v' : Verbosity}

/-! ### Hosts that do not look at the log -/

/-- A host's operation comes to the same whatever was reported before. -/
structure Blind (x : StateM World α) : Prop where
  same {w w' : World} : w.SameResults w' → SameOutcome (x.run w) (x.run w')

theorem Blind.pure (a : α) : Blind (pure a) := ⟨fun hw => ⟨rfl, hw⟩⟩

theorem Blind.bind {x : StateM World α} {f : α → StateM World β} (hx : Blind x)
    (hf : ∀ a, Blind (f a)) : Blind (x >>= f) := by
  constructor
  intro w w' hw
  obtain ⟨hresult, hworld⟩ := hx.same hw
  rw [StateT.run_bind, StateT.run_bind]
  show SameOutcome (StateT.run (f (x.run w).1) _) (StateT.run (f (x.run w').1) _)
  rw [hresult]
  exact (hf _).same hworld

theorem blind_readFile (p : Path) : Blind (Host.readFile p : StateM World _) :=
  ⟨fun hw => ⟨congrArg (·.readFile p) hw.files, hw⟩⟩

theorem blind_pathExists (p : Path) : Blind (Host.pathExists p : StateM World _) :=
  ⟨fun hw => ⟨congrArg (·.pathExists p) hw.files, hw⟩⟩

theorem blind_isDirectory (p : Path) : Blind (Host.isDirectory p : StateM World _) :=
  ⟨fun hw => ⟨congrArg (·.isDirectory p) hw.files, hw⟩⟩

theorem blind_makeDirectory (p : Path) : Blind (Host.makeDirectory p : StateM World _) := by
  constructor
  intro w w' hw
  obtain ⟨files, printed, reported⟩ := w
  obtain ⟨files', printed', reported'⟩ := w'
  obtain ⟨rfl, rfl⟩ := hw
  simp only [Host.makeDirectory, StateT.run, modifyGet, MonadStateOf.modifyGet, StateT.modifyGet]
  cases files.makeDirectory p with
  | error cause => exact ⟨rfl, rfl, rfl⟩
  | ok files => exact ⟨rfl, rfl, rfl⟩

theorem blind_saveChart (p : Path) (chart : Chart) :
    Blind (Host.saveChart p chart : StateM World _) := by
  constructor
  intro w w' hw
  obtain ⟨files, printed, reported⟩ := w
  obtain ⟨files', printed', reported'⟩ := w'
  obtain ⟨rfl, rfl⟩ := hw
  simp only [Host.saveChart, StateT.run, modifyGet, MonadStateOf.modifyGet, StateT.modifyGet]
  cases files.writeFile p (.chart chart) with
  | error cause => exact ⟨rfl, rfl, rfl⟩
  | ok files => exact ⟨rfl, rfl, rfl⟩

theorem blind_print (line : String) : Blind (Host.print line : StateM World _) :=
  ⟨fun hw => ⟨rfl, hw.files, congrArg (·.push line) hw.printed⟩⟩

/-- What holds of making one directory and of looking for one, and of what is put together of such
operations, holds of making a directory with its parents. -/
theorem makeWithParents_induction {P : ∀ {γ : Type}, StateM World γ → Prop}
    (hpure : ∀ {γ : Type} (a : γ), P (pure a))
    (hbind : ∀ {γ δ : Type} {x : StateM World γ} {f : γ → StateM World δ},
      P x → (∀ a, P (f a)) → P (x >>= f))
    (hthere : ∀ p, P (Host.isDirectory p)) (hmake : ∀ p, P (Host.makeDirectory p))
    (paths : List Path) : P (Host.makeWithParents paths : StateM World _) := by
  have hunless (p : Path) (cause : FileError) :
      P (Host.unlessDirectory p cause : StateM World _) := by
    apply hbind (hthere p)
    intro there
    cases there <;> exact hpure _
  induction paths with
  | nil => exact hpure _
  | cons p parents ih =>
    unfold Host.makeWithParents
    split
    · exact hpure _
    apply hbind (hmake p)
    intro made
    split
    · exact hpure _
    · apply hbind ih
      intro parentsMade
      split
      · exact hpure _
      apply hbind (hmake p)
      intro made
      split
      · exact hpure _
      · exact hunless p _
    · exact hunless p _

theorem blind_makeWithParents (paths : List Path) :
    Blind (Host.makeWithParents paths : StateM World _) :=
  makeWithParents_induction Blind.pure Blind.bind blind_isDirectory blind_makeDirectory paths

/-! ### Parts of a run -/

theorem Agree.of_blind {x : StateM World α} (h : Blind x) :
    Agree v v' (ExceptT.lift x) (ExceptT.lift x) :=
  .lift h.same

theorem agree_print (line : String) :
    Agree v v' (Attempt.print line) (Attempt.print line) :=
  .of_blind (blind_print line)

theorem agree_ofExcept {ε : Type} (result : Except ε α) (failure : ε → Failure)
    (h : ∀ cause, failure cause ≠ .countOverflow) :
    Agree v v' (Attempt.ofExcept result failure) (Attempt.ofExcept result failure) := by
  unfold Attempt.ofExcept
  cases result with
  | ok a => exact Agree.pure a
  | error cause => exact Agree.throw (h cause)

theorem outcome_ofExcept {ε : Type} (result : Except ε α) (failure : ε → Failure) (w : World) :
    outcome (Attempt.ofExcept result failure) w = (result.mapError failure, w) := by
  cases result <;> rfl

theorem outcome_ofExcept_eq_ok_iff {ε : Type} {result : Except ε α} {failure : ε → Failure}
    {w w₁ : World} {a : α} :
    outcome (Attempt.ofExcept result failure) w = (.ok a, w₁) ↔ result = .ok a ∧ w₁ = w := by
  rw [outcome_ofExcept, Prod.mk.injEq, eq_comm (a := w)]
  cases result with
  | ok b =>
    show (Except.ok b : Except Failure α) = .ok a ∧ w₁ = w ↔ _
    rw [Except.ok.injEq, Except.ok.injEq]
  | error cause =>
    show (Except.error (failure cause) : Except Failure α) = .ok a ∧ w₁ = w ↔ _
    simp

/-! ### Reports -/

/-- An attempt leaves a mark in the log at most. -/
def LogsOnly (x : Attempt (StateM World) Unit) : Prop :=
  ∀ w, ∃ w₁, outcome x w = (.ok (), w₁) ∧ w.SameResults w₁

theorem LogsOnly.pure : LogsOnly (pure ()) := fun w => ⟨w, rfl, rfl, rfl⟩

theorem LogsOnly.then {x y : Attempt (StateM World) Unit} (hx : LogsOnly x) (hy : LogsOnly y) :
    LogsOnly (x >>= fun _ => y) := by
  intro w
  obtain ⟨w₁, hxw, hw₁⟩ := hx w
  obtain ⟨w₂, hyw, hw₂⟩ := hy w₁
  exact ⟨w₂, by rw [outcome_bind, hxw]; exact hyw, hw₁.trans hw₂⟩

theorem LogsOnly.forM {f : α → Attempt (StateM World) Unit} (hf : ∀ a, LogsOnly (f a))
    (xs : List α) : LogsOnly (xs.forM f) := by
  induction xs with
  | nil => exact LogsOnly.pure
  | cons a xs ih => exact (hf a).then ih

theorem logsOnly_report (event : Event) : LogsOnly (Attempt.report v event) := by
  intro w
  unfold Attempt.report
  split
  · exact ⟨_, rfl, rfl, rfl⟩
  · exact ⟨w, rfl, rfl, rfl⟩

/-- Two attempts that only log agree, even if one of them logs more than the other. -/
theorem LogsOnly.agree {x y : Attempt (StateM World) Unit} (hx : LogsOnly x) (hy : LogsOnly y) :
    Agree v v' x y := by
  refine .of_same (fun {w w'} hw => ?_) fun w => ?_
  · obtain ⟨w₁, hxw, hw₁⟩ := hx w
    obtain ⟨w₁', hyw, hw₁'⟩ := hy w'
    rw [hxw, hyw]
    exact ⟨rfl, (hw₁.symm.trans hw).trans hw₁'⟩
  · obtain ⟨w₁, hxw, -⟩ := hx w
    rw [hxw]
    simp

theorem logsOnly_ite {c : Prop} [Decidable c] {x : Attempt (StateM World) Unit}
    (hx : LogsOnly x) : LogsOnly (if c then x else pure ()) := by
  split
  · exact hx
  · exact LogsOnly.pure

theorem ite_bind_eq {c : Prop} [Decidable c] {x : Attempt (StateM World) Unit}
    {f : Unit → Attempt (StateM World) α} :
    (if c then x >>= f else f ()) = (if c then x else pure ()) >>= f := by
  split
  · rfl
  · rw [pure_bind]

/-- A step that only logs may be left out on either side. -/
theorem LogsOnly.agree_ite {x y : Attempt (StateM World) Unit} {c c' : Prop} [Decidable c]
    [Decidable c'] {f g : Unit → Attempt (StateM World) α} (hx : LogsOnly x) (hy : LogsOnly y)
    (hfg : Agree v v' (f ()) (g ())) :
    Agree v v' (if c then x >>= f else f ()) (if c' then y >>= g else g ()) := by
  rw [ite_bind_eq, ite_bind_eq]
  exact ((logsOnly_ite hx).agree (logsOnly_ite hy)).then fun _ => hfg

theorem agree_report (event : Event) :
    Agree v v' (Attempt.report v event) (Attempt.report v' event) :=
  (logsOnly_report event).agree (logsOnly_report event)

theorem logsOnly_reportCoefficients (table : Table) : LogsOnly (reportCoefficients v table) := by
  unfold reportCoefficients
  dsimp only
  split
  · apply (LogsOnly.forM (fun p => logsOnly_report _) _).then
    split
    · exact logsOnly_report _
    · exact LogsOnly.pure
  · exact LogsOnly.pure

/-! ### Loading measurement files -/

/-- A measurement file makes a table whose error counts leave the word they are added up in. -/
def Dataset.Overflows (d : Dataset) (w : World) : Prop :=
  ∃ table, d.toTable (w.files.readFile d.path) = .ok table ∧ table.totalErrorCount = .overflow

/-- The report that a table has been loaded breaks the run off: its error counts are added up, and
leave their word. -/
structure Table.BreaksOff (v : Verbosity) (table : Table) : Prop where
  reported : v.reports .tableLoaded = true
  overflow : table.totalErrorCount = .overflow

instance (table : Table) : Decidable (table.BreaksOff v) :=
  decidable_of_iff (v.reports .tableLoaded = true ∧ table.totalErrorCount = .overflow)
    ⟨fun h => ⟨h.1, h.2⟩, fun h => ⟨h.reported, h.overflow⟩⟩

theorem Table.not_breaksOff_of_reports (hv : v.reports .tableLoaded = false) (table : Table) :
    ¬ table.BreaksOff v :=
  fun h => Bool.eq_false_iff.mp hv h.reported

theorem reportLoaded_eq_throw {table : Table} (h : table.BreaksOff v) :
    (reportLoaded v table : Attempt (StateM World) Unit) = throw .countOverflow := by
  rw [reportLoaded, if_pos h.reported, h.overflow]

/-- A loaded table is only reported, unless that breaks the run off. -/
theorem logsOnly_reportLoaded {table : Table} (h : ¬ table.BreaksOff v) :
    LogsOnly (reportLoaded v table) := by
  unfold reportLoaded
  split
  · next hv =>
    split
    · next htotal => exact absurd ⟨hv, htotal⟩ h
    · exact logsOnly_report _
    · exact logsOnly_report _
  · exact LogsOnly.pure

section

-- The second run reports loaded tables if the first one does.
variable (hle : v.reports .tableLoaded → v'.reports .tableLoaded)
include hle

theorem agreement_reportLoaded (table : Table) :
    Agreement v v' (fun _ => table.totalErrorCount = .overflow) (reportLoaded v table)
      (reportLoaded v' table) where
  same {w w'} hw hgood := by
    by_cases hboth : table.BreaksOff v
    · rw [reportLoaded_eq_throw hboth, reportLoaded_eq_throw ⟨hle hboth.reported, hboth.overflow⟩]
      exact ⟨rfl, hw⟩
    · have hneither : ¬ table.BreaksOff v' := by
        rintro ⟨hv', htotal⟩
        exact hgood ⟨Bool.eq_false_iff.mpr fun hv => hboth ⟨hv, htotal⟩, hv', htotal⟩
      have hagree : Agree v v' (reportLoaded v table) (reportLoaded v' table) :=
        (logsOnly_reportLoaded hboth).agree (logsOnly_reportLoaded hneither)
      exact hagree.same hw fun h => h.2.2
  overflow {w w'} _ _ hv' htotal := by
    rw [reportLoaded_eq_throw ⟨hv', htotal⟩]
    rfl
  quiet hv w := by
    obtain ⟨w₁, hx, -⟩ := logsOnly_reportLoaded (table.not_breaksOff_of_reports hv) w
    rw [hx]
    simp

theorem agreement_loadTable (d : Dataset) :
    Agreement v v' d.Overflows (loadTable v d) (loadTable v' d) := by
  -- Both runs read the same bytes and make the same table of them; only the report can be bad.
  refine (Agree.of_blind (blind_readFile d.path)).bind (q := fun contents _ =>
    ∃ table, d.toTable contents = .ok table ∧ table.totalErrorCount = .overflow)
    (fun contents => ?_) fun w => ?_
  · refine (agree_ofExcept (d.toTable contents) .table fun cause => nofun).bind
      (fun table => (agreement_reportLoaded hle table).then fun _ => Agree.pure table)
      fun w => ?_
    simp only [outcome_ofExcept_eq_ok_iff]
    constructor
    · rintro ⟨table, htable, htotal⟩
      exact .inr ⟨table, w, ⟨htable, rfl⟩, htotal⟩
    · rintro (hfalse | ⟨table, w₁, ⟨htable, -⟩, htotal⟩)
      · exact hfalse.elim
      · exact ⟨table, htable, htotal⟩
  · constructor
    · exact fun h => .inr ⟨w.files.readFile d.path, w, rfl, h⟩
    · rintro (hfalse | ⟨contents, w₁, hread, h⟩)
      · exact hfalse.elim
      · cases hread
        exact h

end

/-! ### Drawing -/

theorem agree_saveChart (path : Path) (chart : Chart) :
    Agree v v' (saveChart v path chart) (saveChart v' path chart) := by
  apply (Agree.of_blind (blind_saveChart path chart)).then
  intro result
  apply (agree_ofExcept result .drawing fun _ => nofun).then
  intro _
  exact agree_report _

theorem agree_makeOutputDirectory (out : Path) :
    Agree v v' (makeOutputDirectory out) (makeOutputDirectory out) := by
  apply (Agree.of_blind (blind_makeWithParents _)).then
  intro result
  exact agree_ofExcept result (.outputDirectory out) fun _ => nofun

theorem agree_drawCorrelations (out : Path) (size : ChartSize) (group : Group) :
    Agree v v' (drawCorrelations v out size group) (drawCorrelations v' out size group) :=
  (agree_saveChart _ _).during _

/-! ### Measurement files one after the other -/

/-- Drawing error curves comes to a measurement file with overflowing error counts. -/
def CurvesOverflow (v : Verbosity) (buckets : List Binary64) (out : Path) (size : ChartSize)
    (datasets : List Dataset) (w : World) : Prop :=
  ∃ w₁, outcome (makeOutputDirectory out) w = (.ok (), w₁) ∧
    ComesTo (drawCurves v buckets out size) Dataset.Overflows datasets w₁

theorem not_curvesOverflow_nil {buckets : List Binary64} {out : Path} {size : ChartSize}
    {w : World} : ¬ CurvesOverflow v buckets out size [] w :=
  fun ⟨_, _, h⟩ => not_comesTo_nil h

section

-- The second run reports loaded tables if the first one does.
variable (hle : v.reports .tableLoaded → v'.reports .tableLoaded)
include hle

theorem agreement_drawCurves (buckets : List Binary64) (out : Path) (size : ChartSize)
    (d : Dataset) :
    Agreement v v' d.Overflows (drawCurves v buckets out size d)
      (drawCurves v' buckets out size d) := by
  apply (agreement_loadTable hle d).then
  intro table
  apply (logsOnly_report _).agree_ite (logsOnly_report _)
  exact ((agree_saveChart _ _).during _).then fun _ => Agree.pure _

theorem agreement_correlateOne (d : Dataset) :
    Agreement v v' d.Overflows (correlateOne v d) (correlateOne v' d) := by
  apply (agreement_loadTable hle d).then
  intro table
  apply (logsOnly_reportCoefficients table).agree_ite (logsOnly_reportCoefficients table)
  have hcorrelation : Agree v v' (Attempt.ofExcept table.correlation .correlation)
      (Attempt.ofExcept table.correlation .correlation) := agree_ofExcept _ _ fun _ => nofun
  apply (hcorrelation.during _).then
  intro correlation
  exact (agree_report _).then fun _ => Agree.pure _

theorem agreement_drawAllCurves (datasets : List Dataset) (buckets : List Binary64) (out : Path)
    (size : ChartSize) :
    Agreement v v' (CurvesOverflow v buckets out size datasets)
      (drawAllCurves v datasets buckets out size) (drawAllCurves v' datasets buckets out size) := by
  refine (agree_makeOutputDirectory out).bind
    (fun _ => Agreement.mapM (agreement_drawCurves hle buckets out size) datasets) fun w => ?_
  rw [false_or]
  constructor
  · intro h
    exact ⟨(), h⟩
  · rintro ⟨_, h⟩
    exact h

theorem agreement_correlateAll (datasets : List Dataset) (out : Path) (size : ChartSize) :
    Agreement v v' (ComesTo (correlateOne v) Dataset.Overflows datasets)
      (correlateAll v datasets out size) (correlateAll v' datasets out size) := by
  apply (Agreement.mapM (agreement_correlateOne hle) datasets).then
  intro correlations
  apply (agree_makeOutputDirectory out).then
  intro _
  exact (Agree.forM (agree_drawCorrelations out size) _).then fun _ => Agree.pure _

end

/-! ### Commands -/

theorem agree_printTrcdFrom (fabricClk : Binary64) (cycles count : Nat) :
    Agree v v' (printTrcdFrom fabricClk cycles count) (printTrcdFrom fabricClk cycles count) := by
  induction count generalizing cycles with
  | zero => exact Agree.pure ()
  | succ count ih =>
    apply (agree_ofExcept (trcdNs cycles fabricClk) .clock fun _ => nofun).then
    intro ns
    apply (agree_print _).then
    intro _
    exact ih (cycles + 1)

theorem agree_printSweep (setting : ClockSetting) (range : MultRange) :
    Agree v v' (printSweep v setting range) (printSweep v' setting range) := by
  apply (agree_print _).then
  intro _
  apply (agree_ofExcept (setting.sweep range) .clock fun _ => nofun).then
  intro rows
  apply (Agree.forM (fun _ => agree_report _) rows).then
  intro _
  exact Agree.forM (fun _ => agree_print _) rows

theorem agree_printClocks (setting : ClockSetting) (trcdCycles : Option Nat) :
    Agree v v' (printClocks setting trcdCycles) (printClocks setting trcdCycles) := by
  have hfrequencies : Agree v v' (Attempt.ofExcept setting.frequencies .clock)
      (Attempt.ofExcept setting.frequencies .clock) := agree_ofExcept _ _ fun _ => nofun
  apply (hfrequencies.during _).then
  intro f
  apply (agree_print _).then
  intro _
  apply (agree_print _).then
  intro _
  exact agree_printTrcdFrom _ _ _

theorem agree_evaluateClocks (settings : Settings) (a : PllArguments) :
    Agree v v' (evaluateClocks v settings a) (evaluateClocks v' settings a) := by
  unfold evaluateClocks
  dsimp only
  split
  · exact agree_printSweep _ _
  · exact agree_printClocks _ _

/-- The measurement files of a run, if it has any. -/
def chosenDatasets (settings : Settings) (paths : List Path) : List Dataset :=
  if paths.isEmpty then settings.datasets else paths.map Dataset.ofPath

theorem Agreement.selectDatasets {f g : List Dataset → Attempt (StateM World) β}
    {q : List Dataset → World → Prop} (hfg : ∀ ds, Agreement v v' (q ds) (f ds) (g ds))
    (hnil : ∀ w, ¬ q [] w) (settings : Settings) (paths : List Path) :
    Agreement v v' (q (chosenDatasets settings paths))
      (selectDatasets settings paths >>= f) (selectDatasets settings paths >>= g) := by
  unfold DramTiming.selectDatasets
  dsimp only
  rw [← chosenDatasets]
  split
  · next hempty =>
    rw [List.isEmpty_iff.mp hempty]
    exact (Agree.throw nofun : Agree v v' (throw .noDatasets) (throw .noDatasets)).congr
      fun w => iff_false_intro (hnil w)
  · rw [pure_bind, pure_bind]
    exact hfg _

/-- A command at a verbosity comes to a measurement file with overflowing error counts. -/
def Command.Overflows (v : Verbosity) (settings : Settings) : Command → World → Prop
  | .pll _ => fun _ => False
  | .curves paths buckets out =>
    CurvesOverflow v (if buckets.isEmpty then settings.buckets else buckets)
      (out.getD settings.outputDirectory) settings.chartSize (chosenDatasets settings paths)
  | .correlate paths _ =>
    ComesTo (correlateOne v) Dataset.Overflows (chosenDatasets settings paths)

theorem discard_eq (x : Attempt (StateM World) α) : discard x = x >>= fun _ => pure () := by
  rw [discard, map_const, Function.comp, ← bind_pure_comp]

section

-- The second run reports loaded tables if the first one does.
variable (hle : v.reports .tableLoaded → v'.reports .tableLoaded)
include hle

theorem agreement_runCommand (settings : Settings) (command : Command) :
    Agreement v v' (command.Overflows v settings) (runCommand v settings command)
      (runCommand v' settings command) := by
  cases command with
  | pll a => exact agree_evaluateClocks settings a
  | curves paths buckets out =>
    refine Agreement.selectDatasets (fun datasets => ?_) (fun w => not_curvesOverflow_nil)
      settings paths
    rw [discard_eq, discard_eq]
    exact (agreement_drawAllCurves hle datasets _ _ _).then fun _ => Agree.pure ()
  | correlate paths out =>
    refine Agreement.selectDatasets (fun datasets => ?_) (fun w => not_comesTo_nil) settings paths
    exact (agreement_correlateAll hle datasets _ _).then fun correlations =>
      Agree.forM (fun _ => agree_print _) correlations

end

/-! ### Settings -/

theorem agree_loadSettings (path : Path) :
    Agree v v' (loadSettings path) (loadSettings path) := by
  apply (Agree.of_blind (blind_readFile path)).then
  intro contents
  exact agree_ofExcept (Settings.ofFile contents) .settings fun _ => nofun

theorem agree_findSettings (given : Option Path) :
    Agree v v' (findSettings v given) (findSettings v' given) := by
  cases given with
  | some path => exact (agree_loadSettings path).during _
  | none =>
    apply (Agree.of_blind (blind_pathExists defaultSettingsFile)).then
    intro there
    split
    · exact (agree_loadSettings defaultSettingsFile).during _
    · exact (agree_report _).then fun _ => Agree.pure _

theorem agree_completeSettings (settings : Settings) :
    Agree v v' (completeSettings v settings) (completeSettings v' settings) := by
  unfold completeSettings
  apply (logsOnly_report _).agree_ite (logsOnly_report _)
  exact (logsOnly_report _).agree_ite (logsOnly_report _) (Agree.pure _)

/-! ### Runs -/

/-- A run at a verbosity comes to a measurement file with overflowing error counts. -/
def CommandLine.Overflows (v : Verbosity) (line : CommandLine) (w : World) : Prop :=
  ∃ settings w₁, outcome (findSettings v line.settingsFile >>= completeSettings v) w
    = (.ok settings, w₁) ∧ line.command.Overflows v settings w₁

/-- A run prepares its settings first. -/
theorem run_eq (v : Verbosity) (line : CommandLine) :
    (run v line : Attempt (StateM World) Unit) =
      (findSettings v line.settingsFile >>= completeSettings v) >>= fun settings =>
        runCommand v settings line.command :=
  (bind_assoc _ _ _).symm

theorem agreement_run (hle : v.reports .tableLoaded → v'.reports .tableLoaded)
    (line : CommandLine) : Agreement v v' (line.Overflows v) (run v line) (run v' line) := by
  rw [run_eq, run_eq]
  refine ((agree_findSettings _).then agree_completeSettings).bind
    (fun settings => agreement_runCommand hle settings line.command) fun w => ?_
  rw [false_or]
  rfl

theorem sameOutcome_run_of_reports_eq (h : v.reports .tableLoaded = v'.reports .tableLoaded)
    (line : CommandLine) (w : World) :
    SameOutcome (outcome (run v line) w) (outcome (run v' line) w) := by
  refine (agreement_run (fun hv => h ▸ hv) line).same ⟨rfl, rfl⟩ fun ⟨hv, hv', _⟩ => ?_
  rw [h, hv'] at hv
  cases hv

theorem agreement_run_silent (v : Verbosity) (line : CommandLine) :
    Agreement .silent v (line.Overflows .silent) (run .silent line) (run v line) :=
  agreement_run (fun h => by cases h) line

/-- A run that reports loaded tables fails where error counts overflow. -/
theorem outcome_run_of_overflows (hv : v.reports .tableLoaded = true) {line : CommandLine}
    {w : World} (h : line.Overflows .silent w) :
    (outcome (run v line) w).1 = .error .countOverflow :=
  (agreement_run_silent v line).overflow ⟨rfl, rfl⟩ rfl hv h

/-- A run that does not report loaded tables never adds up error counts. -/
theorem outcome_run_ne_countOverflow (hv : v.reports .tableLoaded = false) (line : CommandLine)
    (w : World) : (outcome (run v line) w).1 ≠ .error .countOverflow := by
  have hitself : Agreement v v (line.Overflows v) (run v line) (run v line) := agreement_run id line
  exact hitself.quiet hv w

/-- A run comes to the same as one that reports nothing, unless it reports loaded tables and that
one comes to a measurement file with overflowing error counts. -/
theorem sameOutcome_run_silent {line : CommandLine} {w : World}
    (h : ¬ (v.reports .tableLoaded = true ∧ line.Overflows .silent w)) :
    SameOutcome (outcome (run .silent line) w) (outcome (run v line) w) :=
  (agreement_run_silent v line).same ⟨rfl, rfl⟩ fun hbad => h hbad.2

theorem outcome_run_eq_countOverflow_iff (v : Verbosity) (line : CommandLine) (w : World) :
    (outcome (run v line) w).1 = .error .countOverflow ↔
      v.reports .tableLoaded = true ∧ line.Overflows .silent w := by
  constructor
  · refine fun h => Classical.byContradiction fun hgood => ?_
    exact outcome_run_ne_countOverflow rfl line w ((sameOutcome_run_silent hgood).result.trans h)
  · rintro ⟨hv, hoverflows⟩
    exact outcome_run_of_overflows hv hoverflows

/-- Two runs come to the same, unless one of them reports loaded tables, the other one does not, and
a run that reports nothing comes to a measurement file with overflowing error counts. -/
theorem sameOutcome_run_iff (v v' : Verbosity) (line : CommandLine) (w : World) :
    SameOutcome (outcome (run v line) w) (outcome (run v' line) w) ↔
      ¬ (v.reports .tableLoaded ≠ v'.reports .tableLoaded ∧ line.Overflows .silent w) := by
  constructor
  · rintro hsame ⟨hne, hoverflows⟩
    -- Where counts overflow, a run fails for them exactly if it reports loaded tables.
    have hfails : v.reports .tableLoaded = true ↔ v'.reports .tableLoaded = true := by
      have hv := outcome_run_eq_countOverflow_iff v line w
      have hv' := outcome_run_eq_countOverflow_iff v' line w
      rw [hsame.result, hv'] at hv
      simpa [hoverflows] using hv.symm
    exact hne (Bool.eq_iff_iff.mpr hfails)
  · intro h
    by_cases hoverflows : line.Overflows .silent w
    · apply sameOutcome_run_of_reports_eq
      exact Decidable.not_not.mp fun hne => h ⟨hne, hoverflows⟩
    · have hsilent (v : Verbosity) :
          SameOutcome (outcome (run .silent line) w) (outcome (run v line) w) :=
        sameOutcome_run_silent fun hbad => hoverflows hbad.2
      exact (hsilent v).symm.trans (hsilent v')

end DramTiming
