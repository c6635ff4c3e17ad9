import DramTiming.Proofs.Session.Reading

/-!
# The settings of a run

A run finds its settings by reading, and completes them, before it does anything else
(`reads_preparation`).  So what the run comes to is what its command comes to with these settings,
or the failure to find them (`outcome_run_of_settings`, `outcome_run_of_no_settings`).
-/

namespace DramTiming

variable {α : Type} {v : Verbosity} {w : World}

/-- The settings in a file among these files. -/
def Settings.loadedFrom (path : Path) (files : FileTree) : Except Failure Settings :=
  ((Settings.ofFile (files.readFile path)).mapError .settings).mapError
    (.during (.loadingSettings path))

/-- The settings that a run finds among these files. -/
def Settings.foundIn (given : Option Path) (files : FileTree) : Except Failure Settings :=
  match given with
  | some path => loadedFrom path files
  | none =>
    if files.pathExists defaultSettingsFile then loadedFrom defaultSettingsFile files
    else .ok .default

theorem reads_loadSettings (path : Path) :
    Reads ((loadSettings path).during (.loadingSettings path)) (Settings.loadedFrom path) :=
  (((reads_readFile path).bind fun contents =>
    reads_ofExcept (Settings.ofFile contents) .settings).during (.loadingSettings path)).congr
      fun _ => rfl

theorem reads_findSettings (given : Option Path) :
    Reads (findSettings v given) (Settings.foundIn given) := by
  cases given with
  | some path => exact reads_loadSettings path
  | none =>
    intro w
    have hexists : outcome (ExceptT.lift (Host.pathExists defaultSettingsFile)) w =
        (.ok (w.files.pathExists defaultSettingsFile), w) := rfl
    show ∃ w₁, outcome (ExceptT.lift (Host.pathExists defaultSettingsFile) >>= _) w = _ ∧ _
    rw [outcome_bind_of_ok hexists, Settings.foundIn]
    split
    · exact reads_loadSettings defaultSettingsFile w
    · exact (logsOnly_report .noSettingsFile).reads_then (Reads.pure Settings.default) w

theorem reads_completeSettings (settings : Settings) :
    Reads (completeSettings v settings) fun _ => .ok settings.completed := by
  unfold completeSettings
  simp only [ite_bind_eq]
  exact (logsOnly_ite (logsOnly_report .noBuckets)).reads_then
    ((logsOnly_ite (logsOnly_report (.chartTooSmall settings.chartSize))).reads_then
      (Reads.pure settings.completed))

/-- Settings are found and completed by reading alone. -/
theorem reads_preparation (given : Option Path) :
    Reads (findSettings v given >>= completeSettings v)
      fun files => (Settings.foundIn given files).map Settings.completed :=
  ((reads_findSettings given).bind reads_completeSettings).congr fun files => by
    cases Settings.foundIn given files <;> rfl

/-- A run that finds settings comes to what its command comes to with them, completed. -/
theorem outcome_run_of_settings {line : CommandLine} {settings : Settings}
    (h : Settings.foundIn line.settingsFile w.files = .ok settings) :
    ∃ w₁, w.SameResults w₁ ∧
      outcome (run v line) w = outcome (runCommand v settings.completed line.command) w₁ := by
  have hf : (Settings.foundIn line.settingsFile w.files).map Settings.completed =
      .ok settings.completed := by rw [h]; rfl
  obtain ⟨w₁, hprepared, hw₁⟩ := (reads_preparation (v := v) line.settingsFile).exists_outcome hf
  exact ⟨w₁, hw₁, by rw [run_eq, outcome_bind_of_ok hprepared]⟩

/-- A run that finds no settings fails for that, and changes nothing but the log. -/
theorem outcome_run_of_no_settings {line : CommandLine} {e : Failure}
    (h : Settings.foundIn line.settingsFile w.files = .error e) :
    ∃ w₁, w.SameResults w₁ ∧ outcome (run v line) w = (.error e, w₁) := by
  have hf : (Settings.foundIn line.settingsFile w.files).map Settings.completed = .error e := by
    rw [h]
    rfl
  obtain ⟨w₁, hprepared, hw₁⟩ := (reads_preparation (v := v) line.settingsFile).exists_outcome hf
  exact ⟨w₁, hw₁, by rw [run_eq, outcome_bind_of_error hprepared]⟩

end DramTiming
