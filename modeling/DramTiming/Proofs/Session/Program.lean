import DramTiming.Proofs.Arguments.Verbosity
import DramTiming.Proofs.Session.Verbosity
import DramTiming.Session.Program

/-!
# Flags for verbosity

More flags for verbosity leave the ending of the program, its charts and its printed lines as they
are, up to a command line that is refused for another reason, and up to error counts that overflow.
-/

namespace DramTiming

open Arguments

variable {filter? : String → Option Verbosity}

/-- The ending of a run. -/
def Ending.ofResult : Except Failure Unit → Ending
  | .error failure => .failed failure
  | .ok () => .finished

theorem Ending.ofResult_inj {r r' : Except Failure Unit} :
    Ending.ofResult r = Ending.ofResult r' ↔ r = r' := by
  refine ⟨fun h => ?_, fun h => h ▸ rfl⟩
  cases r <;> cases r' <;> cases h <;> rfl

theorem Ending.ofResult_ne_refused (r : Except Failure Unit) (e : Refusal) :
    Ending.ofResult r ≠ .refused e := by
  cases r <;> exact nofun

theorem program_of_refused {environment : Environment} {texts : List String} {e : Refusal}
    (h : read environment.settingsFile texts = .error e) (w : World) :
    (program filter? environment texts : StateM World Ending).run w = (.refused e, w) := by
  rw [program, h]
  rfl

theorem program_of_read {environment : Environment} {texts : List String} {line : CommandLine}
    (h : read environment.settingsFile texts = .ok line) (w : World) :
    (program filter? environment texts : StateM World Ending).run w =
      let result := outcome (run (.select filter? line.verbosity environment.filter) line) w
      (.ofResult result.1, result.2) := by
  have hrun (x : Attempt (StateM World) Unit) : StateT.run (ExceptT.run x) w = outcome x w := rfl
  rw [program, h]
  dsimp only
  rw [StateT.run_bind, hrun]
  rcases outcome (run (.select filter? line.verbosity environment.filter) line) w with ⟨_ | _, w₁⟩
  · rfl
  · rfl

theorem sameOutcome_program_iff {environment : Environment} {texts texts' : List String}
    {line line' : CommandLine} (h : read environment.settingsFile texts = .ok line)
    (h' : read environment.settingsFile texts' = .ok line') (w : World) :
    SameOutcome ((program filter? environment texts : StateM World Ending).run w)
        ((program filter? environment texts' : StateM World Ending).run w) ↔
      SameOutcome (outcome (run (.select filter? line.verbosity environment.filter) line) w)
        (outcome (run (.select filter? line'.verbosity environment.filter) line') w) := by
  rw [program_of_read h, program_of_read h']
  exact ⟨fun hsame => ⟨Ending.ofResult_inj.mp hsame.result, hsame.world⟩,
    fun hsame => ⟨congrArg Ending.ofResult hsame.result, hsame.world⟩⟩

theorem program_eq_countOverflow_iff {environment : Environment} {texts : List String}
    {line : CommandLine} (h : read environment.settingsFile texts = .ok line) (w : World) :
    ((program filter? environment texts : StateM World Ending).run w).1 = .failed .countOverflow ↔
      (Verbosity.select filter? line.verbosity environment.filter).reports .tableLoaded = true ∧
        line.Overflows .silent w := by
  rw [program_of_read h, ← outcome_run_eq_countOverflow_iff]
  show Ending.ofResult _ = Ending.ofResult (.error .countOverflow) ↔ _
  exact Ending.ofResult_inj

/-- More flags for verbosity change nothing but the log, with two exceptions.  A command line that
is refused may be so for another reason: for want of a command where nothing was given at all
without the flags, or for something faulty that waits where the flags stand.  And where a run that
reports nothing comes to error counts that overflow, those runs fail for it that report loaded
tables, and no others.  This is so whatever the environment holds, and in every language of filters.
-/
theorem program_insert_verbose (filter? : String → Option Verbosity) {before : List String}
    (h : FlagPlace before) (environment : Environment) (n : Nat) (after : List String) (w : World) :
    let x := (program filter? environment (before ++ after) : StateM World Ending).run w
    let y := (program filter? environment (before ++ verboseFlags n ++ after) :
      StateM World Ending).run w
    (∃ line count, read environment.settingsFile (before ++ after) = .ok line ∧
      read environment.settingsFile (before ++ verboseFlags n ++ after) =
        .ok { line with verbosity := count } ∧
      let reported (count : Nat) : Bool :=
        (Verbosity.select filter? count environment.filter).reports .tableLoaded
      (SameOutcome x y ↔
        ¬ (reported line.verbosity ≠ reported count ∧ line.Overflows .silent w)) ∧
      (x.1 = .failed .countOverflow ↔
        reported line.verbosity = true ∧ line.Overflows .silent w) ∧
      (y.1 = .failed .countOverflow ↔ reported count = true ∧ line.Overflows .silent w)) ∨
    ∃ e e', x = (.refused e, w) ∧ y = (.refused e', w) ∧
      (e' = e ∨ (e = .nothingGiven ∧ e' = .missingSubcommand) ∨
        ∃ scope r, Reaches before scope r ∧ r.settle = .error e') := by
  intro x y
  obtain ⟨line, count, hline, hline'⟩ | ⟨e, e', he, he', hee⟩ :=
    read_insert_verbose h environment.settingsFile n after
  · refine .inl ⟨line, count, hline, hline', ?_, program_eq_countOverflow_iff hline w,
      program_eq_countOverflow_iff hline' w⟩
    rw [sameOutcome_program_iff hline hline']
    exact sameOutcome_run_iff _ _ line w
  · exact .inr ⟨e, e', program_of_refused he w, program_of_refused he' w, hee⟩

/-- A measurement file whose error counts together do not fit a 64-bit word. -/
def overflowingWorld : World :=
  .ofFiles ((FileTree.bare []).put ["a.csv"] (.file (.bytes
    ("tRCD,retention,FehlerProzent,FehlerAbs\n10,1,2,18446744073709551615\n11,1,2,1\n".toUTF8.toList))))

theorem flagPlace_curves : FlagPlace ["curves"] :=
  .inl ⟨.curves, .start, .subcommand .start rfl rfl, rfl, rfl⟩

/-- One flag does not add up error counts. -/
theorem program_insert_verbose_sample :
    FlagPlace ["curves"] ∧
      SameOutcome
        ((program Verbosity.named? ⟨none, none⟩ ["curves", "a.csv"] : StateM World Ending).run
          overflowingWorld)
        ((program Verbosity.named? ⟨none, none⟩ ["curves", "-v", "a.csv"] :
          StateM World Ending).run overflowingWorld) := by
  refine ⟨flagPlace_curves, ?_⟩
  let environment : Environment := ⟨none, none⟩
  have hread : read environment.settingsFile ["curves", "a.csv"] =
      .ok ⟨none, 0, .curves [⟨"a.csv"⟩] [] none⟩ := rfl
  have hread' : read environment.settingsFile ["curves", "-v", "a.csv"] =
      .ok ⟨none, 1, .curves [⟨"a.csv"⟩] [] none⟩ := rfl
  obtain ⟨line, count, hline, hline', hiff, -⟩ | ⟨e, e', hrefused, -⟩ :=
    program_insert_verbose Verbosity.named? flagPlace_curves environment 1 ["a.csv"]
      overflowingWorld
  · cases hread.symm.trans hline
    cases hread'.symm.trans hline'
    exact hiff.mpr fun h => h.1 rfl
  · have hended := (program_of_read hread overflowingWorld).symm.trans hrefused
    exact absurd (congrArg Prod.fst hended) (Ending.ofResult_ne_refused _ e)

/-- Two flags do: before it has reported the table the program breaks off, as its exit code
tells. -/
theorem program_fails_of_verbose :
    let quiet := (program Verbosity.named? ⟨none, none⟩ ["curves", "a.csv"] :
      StateM World Ending).run overflowingWorld
    let loud := (program Verbosity.named? ⟨none, none⟩ ["curves", "-v", "-v", "a.csv"] :
      StateM World Ending).run overflowingWorld
    quiet.1 = .finished ∧ loud.1 = .failed .countOverflow ∧ loud.1.exitCode = 101 ∧
      loud.2.reported = #[.noSettingsFile, .noBuckets] := by
  decide +kernel

end DramTiming
