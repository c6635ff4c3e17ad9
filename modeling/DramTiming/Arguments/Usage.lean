import DramTiming.Arguments.Basic

/-!
# Help on the command line
-/

namespace DramTiming.Arguments

/-- The name and version of the program. -/
def versionText : String := "dramlab 0.1.0"

/-- What the program can be asked for. -/
def usage : List String :=
  ["PLL arithmetic and retention-test analysis for DRAM experiments",
   "",
   "Usage: dramlab [OPTIONS] <COMMAND>",
   "",
   "Commands:",
   "  pll        Print the DDR and fabric clock of a PLL setting",
   "  curves     Plot error % over tRCD, one series per retention time",
   "  correlate  Correlate errors with retention time per tRCD and print the trend",
   "",
   "Options:",
   "  -c, --config <FILE>          Settings file (TOML)",
   "  -v, --verbose...             Report more; may be repeated",
   "  -h, --help                   Print this help",
   "  -V, --version                Print the version",
   "",
   "Options of pll:",
   "      --base-clk <MHZ>         Input clock in MHz",
   "      --mult <X>               Multiplier",
   "      --divclk-divide <X>      First divider",
   "      --clkout-divide <X>      Second divider",
   "      --sweep <A..=B>          Evaluate every multiplier in a range",
   "      --trcd-cycles <N>        Print tRCD in ns for 1 to N cycles",
   "",
   "Options of curves and correlate:",
   "      --buckets <S,S,...>      Retention times in seconds (curves only)",
   "      --out <DIR>              Directory for the charts",
   "  [FILE]...                    Measurement files, instead of those in the settings"]

/-- The wording of a `Refusal`. -/
def Refusal.message : Refusal → String
  | unknownArgument => "unexpected argument"
  | invalidValue => "a value is missing or empty"
  | valueValidation => "a value cannot be read"
  | argumentConflict => "two arguments exclude each other"
  | tooManyValues => "a value for an option that takes none"
  | invalidSubcommand => "unknown command"
  | missingSubcommand => "a command is missing"
  | nothingGiven => "nothing was asked for"
  | helpRequested => "help was asked for"
  | versionRequested => "the version was asked for"

end DramTiming.Arguments
