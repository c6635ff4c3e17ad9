import DramTiming.Clock.Range
import DramTiming.Decimal.Literal
import DramTiming.Files.Path

/-!
# Command lines

What a command line can ask for, and the options with which it does.
-/

namespace DramTiming

/-- What a clock evaluation may be given on the command line. -/
structure PllArguments where
  baseClk : Option Binary64
  mult : Option Binary64
  divclkDivide : Option Binary64
  clkoutDivide : Option Binary64
  /-- Evaluate a range of multipliers instead of one. -/
  sweep : Option MultRange
  /-- Up to how many cycles to convert tRCD values. -/
  trcdCycles : Option Nat
deriving DecidableEq

/-- What the program is to do. -/
inductive Command where
  | pll (arguments : PllArguments)
  | curves (datasets : List Path) (buckets : List Binary64) (out : Option Path)
  | correlate (datasets : List Path) (out : Option Path)
deriving DecidableEq

/-- What a command line asks for. -/
structure CommandLine where
  settingsFile : Option Path
  verbosity : Nat
  command : Command
deriving DecidableEq

namespace Arguments

/-! ### Refusals -/

/-- Why a command line leads to no command.  Asking for help or for the version is among the
reasons. -/
inductive Refusal where
  | unknownArgument
  | invalidValue
  | valueValidation
  | argumentConflict
  | tooManyValues
  | invalidSubcommand
  | missingSubcommand
  /-- Nothing at all was asked for. -/
  | nothingGiven
  | helpRequested
  | versionRequested
deriving DecidableEq, Repr

/-! ### Options -/

/-- Where on a command line an argument stands: before the subcommand, or after one of them. -/
inductive Scope where
  | program
  | pll
  | curves
  | correlate
deriving DecidableEq, Repr

/-- The scope after the subcommand with this name. -/
def Scope.ofName? : String → Option Scope
  | "pll" => some .pll
  | "curves" => some .curves
  | "correlate" => some .correlate
  | _ => none

/-- Whether a scope takes paths of measurement files. -/
def Scope.takesDatasets : Scope → Bool
  | .curves => true
  | .correlate => true
  | _ => false

/-- An option. -/
inductive Opt where
  | help
  | version
  | verbose
  | settingsFile
  | baseClk
  | mult
  | divclkDivide
  | clkoutDivide
  | sweep
  | trcdCycles
  | buckets
  | out
deriving DecidableEq, Repr

namespace Opt

/-- The name of an option after two dashes. -/
def long : Opt → String
  | help => "help"
  | version => "version"
  | verbose => "verbose"
  | settingsFile => "config"
  | baseClk => "base-clk"
  | mult => "mult"
  | divclkDivide => "divclk-divide"
  | clkoutDivide => "clkout-divide"
  | sweep => "sweep"
  | trcdCycles => "trcd-cycles"
  | buckets => "buckets"
  | out => "out"

/-- The letter of an option after one dash, if it has one. -/
def short? : Opt → Option Char
  | help => some 'h'
  | version => some 'V'
  | verbose => some 'v'
  | settingsFile => some 'c'
  | _ => none

/-- Whether an option is followed by a value. -/
def takesValue : Opt → Bool
  | help | version | verbose => false
  | _ => true

end Opt

/-- The options of a scope.  Those for help, verbosity and the settings file belong to all of
them. -/
def Scope.options : Scope → List Opt
  | program => [.help, .verbose, .settingsFile, .version]
  | pll => [.help, .verbose, .settingsFile, .baseClk, .mult, .divclkDivide, .clkoutDivide, .sweep,
      .trcdCycles]
  | curves => [.help, .verbose, .settingsFile, .buckets, .out]
  | correlate => [.help, .verbose, .settingsFile, .out]

/-- The option of a scope with a long name. -/
def Scope.long? (scope : Scope) (name : String) : Option Opt := scope.options.find? (·.long = name)

/-- The option of a scope with a letter. -/
def Scope.short? (scope : Scope) (letter : Char) : Option Opt :=
  scope.options.find? (·.short? = some letter)

/-! ### Values -/

/-- What has been found in one scope. -/
structure Found where
  settingsFile : Option Path
  verbosity : Option Nat
  baseClk : Option Binary64
  mult : Option Binary64
  divclkDivide : Option Binary64
  clkoutDivide : Option Binary64
  sweep : Option MultRange
  trcdCycles : Option Nat
  buckets : List Binary64
  out : Option Path
  datasets : List Path
deriving DecidableEq

/-- Nothing has been found. -/
def Found.none : Found :=
  ⟨.none, .none, .none, .none, .none, .none, .none, .none, [], .none, []⟩

/-- Reads a path, which must not be empty. -/
def readPath (text : String) : Except Refusal Path :=
  if text.isEmpty then .error .invalidValue else .ok ⟨text⟩

/-- Reads a number. -/
def readFloat (text : String) : Except Refusal Binary64 :=
  (Binary64.parse text).mapError fun _ => .valueValidation

/-- Reads a multiplier range. -/
def readRange (text : String) : Except Refusal MultRange :=
  (MultRange.parse text).mapError fun _ => .valueValidation

/-- Reads a number of cycles.  A minus sign is no fault of the text, but only zero may have one. -/
def readCycles (text : String) : Except Refusal Nat :=
  let (bound, digits) :=
    match text.toList with
    | '-' :: '+' :: _ => (0, [])
    | '-' :: digits => (0, digits)
    | digits => (Decimal.max32, digits)
  (Decimal.readNat 10 bound digits).mapError fun _ => .valueValidation

/-- Puts the value of an option into its place, which has to be free. -/
def setOnce (place : Option α) (read : String → Except Refusal α) (text : String) :
    Except Refusal (Option α) :=
  match place with
  | some _ => .error .argumentConflict
  | none => (read text).map some

/-- Splits a text at its commas. -/
def splitCommas : List Char → List (List Char)
  | [] => [[]]
  | c :: cs =>
    if c = ',' then [] :: splitCommas cs
    else match splitCommas cs with
      | [] => [[c]]
      | piece :: pieces => (c :: piece) :: pieces

/-- Reads a list of numbers with commas between them. -/
def readFloats (text : String) : Except Refusal (List Binary64) :=
  (splitCommas text.toList).mapM fun piece => readFloat (String.ofList piece)

/-- The largest number of times that verbosity is counted. -/
def maxVerbosity : Nat := 255

namespace Found

/-- Takes an option with its value. -/
def take (f : Found) (option : Opt) (text : String) : Except Refusal Found :=
  match option with
  | .settingsFile => return { f with settingsFile := ← setOnce f.settingsFile readPath text }
  | .baseClk => return { f with baseClk := ← setOnce f.baseClk readFloat text }
  | .mult => return { f with mult := ← setOnce f.mult readFloat text }
  | .divclkDivide => return { f with divclkDivide := ← setOnce f.divclkDivide readFloat text }
  | .clkoutDivide => return { f with clkoutDivide := ← setOnce f.clkoutDivide readFloat text }
  | .sweep => return { f with sweep := ← setOnce f.sweep readRange text }
  | .trcdCycles => return { f with trcdCycles := ← setOnce f.trcdCycles readCycles text }
  | .out => return { f with out := ← setOnce f.out readPath text }
  | .buckets => return { f with buckets := f.buckets ++ (← readFloats text) }
  | .help | .version | .verbose => .ok f

/-- Takes an option without a value. -/
def flag (f : Found) : Opt → Except Refusal Found
  | .help => .error .helpRequested
  | .version => .error .versionRequested
  | .verbose =>
    .ok { f with verbosity := some (min maxVerbosity (f.verbosity.getD 0 + 1)) }
  | _ => .ok f

/-- Takes a path of a measurement file. -/
def dataset (f : Found) (text : String) : Except Refusal Found := do
  return { f with datasets := f.datasets ++ [← readPath text] }

/-- What clock evaluation has been asked for. -/
def toPll (f : Found) : PllArguments :=
  ⟨f.baseClk, f.mult, f.divclkDivide, f.clkoutDivide, f.sweep, f.trcdCycles⟩

end Found

end Arguments

end DramTiming
