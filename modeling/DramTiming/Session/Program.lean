import DramTiming.Arguments.Reader
import DramTiming.Arguments.Usage
import DramTiming.Session.Run

/-!
# The program

The program reads its command line, runs what that asks for, and ends in one of three ways, which
its exit code tells apart.
-/

namespace DramTiming

/-- What the program takes from its environment. -/
structure Environment where
  /-- The settings file, if the command line names none. -/
  settingsFile : Option String
  /-- What to report, if the command line does not count a verbosity. -/
  filter : Option String
deriving DecidableEq, Repr

/-- How the program ends. -/
inductive Ending where
  | refused (refusal : Arguments.Refusal)
  | failed (failure : Failure)
  | finished
deriving DecidableEq, Repr

namespace Ending

/-- The exit code of an ending. -/
def exitCode : Ending → Nat
  | refused .helpRequested => 0
  | refused .versionRequested => 0
  | refused _ => 2
  | failed .countOverflow => 101
  | failed _ => 1
  | finished => 0

/-- What an ending still prints: help and version are results. -/
def results : Ending → List String
  | refused .helpRequested => Arguments.usage
  | refused .versionRequested => [Arguments.versionText]
  | _ => []

/-- What an ending reports.  Where a sum breaks a run off the system does that, which puts the text
in lines of its own, `breakOff`. -/
def complaint (breakOff : String → List String) : Ending → List String
  | refused .helpRequested => []
  | refused .versionRequested => []
  | refused refusal => ("error: " ++ refusal.message) :: "" :: Arguments.usage
  | failed .countOverflow => breakOff Failure.overflowText
  | failed failure => failure.report
  | finished => []

end Ending

/-- The program.  It leaves the language of filters to `filter?`. -/
def program {m : Type → Type} [Monad m] [Host m] (filter? : String → Option Verbosity)
    (environment : Environment) (texts : List String) : m Ending := do
  match Arguments.read environment.settingsFile texts with
  | .error refusal => return .refused refusal
  | .ok line =>
    let verbosity := Verbosity.select filter? line.verbosity environment.filter
    match ← (run verbosity line : Attempt m Unit).run with
    | .error failure => return .failed failure
    | .ok () => return .finished

end DramTiming
