import DramTiming.Proofs.Files.Tree
import DramTiming.Proofs.Session.Settings
import DramTiming.Proofs.Settings.Layers

/-!
# Runs with settings files

What a settings file gives is laid over the defaults, and the settings are completed
(`loadSettings_of_givenBy`).  So a file without any of the known settings makes no difference.
-/

namespace DramTiming

variable {v : Verbosity} {w w' : World} {path : Path} {bytes : List UInt8} {text : List Char}
  {entries : Toml.Entries} {l : Settings.Layer} {settings : Settings} {line : CommandLine}

/-- A command comes to the same in worlds that hold the same results. -/
theorem sameOutcome_runCommand (hw : w.SameResults w') (settings : Settings) (command : Command) :
    SameOutcome (outcome (runCommand v settings command) w)
      (outcome (runCommand v settings command) w') := by
  refine (agreement_runCommand id settings command).same hw fun ⟨hquiet, hloud, _⟩ => ?_
  rw [hquiet] at hloud
  cases hloud

/-- A run that finds settings does what its command does with them, completed. -/
theorem sameOutcome_run_of_settings
    (h : Settings.foundIn line.settingsFile w.files = .ok settings) :
    SameOutcome (outcome (run v line) w)
      (outcome (runCommand v settings.completed line.command) w) := by
  obtain ⟨w₁, hw₁, hrun⟩ := outcome_run_of_settings (v := v) h
  rw [hrun]
  exact (sameOutcome_runCommand hw₁ settings.completed line.command).symm

theorem ofFile_of_givenBy (hdecode : Text.decode bytes = .ok text)
    (hparse : Toml.parse? text = some entries) (hgiven : l.GivenBy entries) :
    Settings.ofFile (.ok bytes) = .ok (l.onto .default) := by
  simp only [Settings.ofFile, hdecode, hparse, Option.bind_some,
    Settings.ofEntries?_of_givenBy (Toml.parse?_distinct hparse) hgiven]

theorem outcome_loadSettings (path : Path) (w : World) :
    outcome (loadSettings path) w =
      ((Settings.ofFile (w.files.readFile path)).mapError .settings, w) :=
  outcome_ofExcept (Settings.ofFile (w.files.readFile path)) .settings w

theorem foundIn_of_readFile (hread : w.files.readFile path = .ok bytes)
    (hsettings : Settings.ofFile (.ok bytes) = .ok settings)
    (hpath : line.settingsFile = some path ∨
      line.settingsFile = none ∧ path = defaultSettingsFile) :
    Settings.foundIn line.settingsFile w.files = .ok settings := by
  have hloaded : Settings.loadedFrom path w.files = .ok settings := by
    rw [Settings.loadedFrom, hread, hsettings]
    rfl
  rcases hpath with hpath | ⟨hpath, rfl⟩
  · rw [hpath]
    exact hloaded
  · rw [hpath, Settings.foundIn, if_pos (FileTree.pathExists_of_readFile hread)]
    exact hloaded

/-- A settings file is laid over the defaults: each setting that the document gives has its value,
and any other its default, whatever else there is.  A document that gives none of them is like no
settings file: a run goes on with the defaults in both cases.  The settings of a run are completed,
once and for all, by retention times if there are none, and by raising the size of charts. -/
theorem loadSettings_of_givenBy (hread : w.files.readFile path = .ok bytes)
    (hdecode : Text.decode bytes = .ok text) (hparse : Toml.parse? text = some entries)
    (hgiven : l.GivenBy entries) :
    outcome (loadSettings path) w = (.ok (l.onto .default), w) ∧
    (l = .empty → ∀ v (line : CommandLine), (line.settingsFile = some path ∨
        line.settingsFile = none ∧ path = defaultSettingsFile) →
      SameOutcome (outcome (run v line) w)
        (outcome (runCommand v Settings.default.completed line.command) w)) ∧
    (∀ v (line : CommandLine) (w : World), line.settingsFile = none →
      w.files.pathExists defaultSettingsFile = false →
      SameOutcome (outcome (run v line) w)
        (outcome (runCommand v Settings.default.completed line.command) w)) ∧
    ∀ v (s : Settings) (w : World),
      (∃ w', outcome (completeSettings v s) w = (.ok s.completed, w') ∧ w.SameResults w') ∧
      s.completed = { s with
        buckets := if s.buckets = [] then defaultBuckets else s.buckets
        chartSize := ⟨max s.chartSize.width 320, max s.chartSize.height 240⟩ } ∧
      s.completed.completed = s.completed := by
  have hsettings := ofFile_of_givenBy hdecode hparse hgiven
  refine ⟨?_, ?_, ?_, fun v s w => ⟨?_, s.completed_eq, s.completed_completed⟩⟩
  · rw [outcome_loadSettings, hread, hsettings]
    rfl
  · rintro rfl v line hpath
    rw [Settings.Layer.empty_onto] at hsettings
    exact sameOutcome_run_of_settings (foundIn_of_readFile hread hsettings hpath)
  · intro v line w hnone habsent
    refine sameOutcome_run_of_settings ?_
    rw [hnone, Settings.foundIn, habsent]
    rfl
  · exact reads_completeSettings s w

/-- A document that gives the width of charts among things that are not known. -/
def wideCharts : String := "x = 1\n[plot]\nwidth = 800\nsize = 'big'\n"

def wideChartsWorld : World :=
  .ofFiles ((FileTree.bare []).put ["c.toml"] (.file (.bytes wideCharts.toUTF8.toList)))

theorem loadSettings_of_givenBy_wideCharts :
    outcome (loadSettings ⟨"c.toml"⟩) wideChartsWorld =
      (.ok { Settings.default with chartSize := ⟨800, 768⟩ }, wideChartsWorld) := by
  let fields : Toml.Entries := [("width", .integer 800), ("size", .string "big")]
  let entries : Toml.Entries := [("x", .integer 1), ("plot", .table .header fields)]
  let l : Settings.Layer := { Settings.Layer.empty with width := some 800 }
  have hread : wideChartsWorld.files.readFile ⟨"c.toml"⟩ = .ok wideCharts.toUTF8.toList := by
    decide +kernel
  have hdecode : Text.decode wideCharts.toUTF8.toList = .ok wideCharts.toList := by decide +kernel
  have hparse : Toml.parse? wideCharts.toList = some entries := rfl
  have houtput : "output_dir" ∉ fields.map Prod.fst := by decide
  have hheight : "height" ∉ fields.map Prod.fst := by decide
  have hdatasets : "datasets" ∉ entries.map Prod.fst := by decide
  have hgiven : l.GivenBy entries := {
    clock := .inr ⟨by decide, List.not_mem_nil, List.not_mem_nil, List.not_mem_nil,
      List.not_mem_nil⟩
    analysis := .inr ⟨by decide, List.not_mem_nil⟩
    plot := .inl ⟨.header, fields, List.mem_cons_of_mem _ List.mem_cons_self, houtput,
      ⟨.integer 800, List.mem_cons_self, .integer 800 (by decide)⟩, hheight⟩
    datasets := hdatasets }
  exact (loadSettings_of_givenBy hread hdecode hparse hgiven).1

end DramTiming
