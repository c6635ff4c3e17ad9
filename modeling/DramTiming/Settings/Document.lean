import DramTiming.Decimal.Integer
import DramTiming.Files.Error
import DramTiming.Settings.Basic
import DramTiming.Text.Utf8
import DramTiming.Toml.Document

/-!
# Settings files

A settings file is a TOML document.  Each known key has to have a value of its type; what is absent
keeps its default, and all other keys are ignored.
-/

namespace DramTiming

open Toml

namespace Settings

/-! ### Values -/

/-- A number; whole ones may be written as integers. -/
def float? : Value → Option Binary64
  | .float x => some x
  | .integer n => some (Binary64.ofInt n)
  | _ => none

/-- A text. -/
def text? : Value → Option String
  | .string text => some text
  | _ => none

/-- A path. -/
def path? (v : Value) : Option Path := (text? v).map Path.mk

/-- A size in pixels: a whole number in a 32-bit word. -/
def pixels? : Value → Option Nat
  | .integer n => if 0 ≤ n ∧ n ≤ Decimal.max32 then some n.toNat else none
  | _ => none

/-- A list of values of one type. -/
def list? (element? : Value → Option α) : Value → Option (List α)
  | .array _ elements => elements.mapM element?
  | _ => none

/-! ### Groups of fields -/

/-- The values of named fields, in their order.  A table gives them by name, an array by position.
A date is a table without any of them. -/
def fields? (names : List String) : Value → Option (List (Option Value))
  | .table _ entries => some (names.map fun name => entries.lookup name)
  | .datetime => some (names.map fun _ => none)
  | .array _ elements => some ((List.range names.length).map fun i => elements[i]?)
  | _ => none

/-- Reads a field that may be absent. -/
def optional? (read? : Value → Option α) (default : α) : Option Value → Option α
  | none => some default
  | some v => read? v

/-- Reads a group of fields that may be absent. -/
def clock? (v : Value) : Option ClockSetting := do
  match ← fields? ["base_clk", "clkfbout_mult", "divclk_divide", "clkout_divide"] v with
  | [baseClk, clkfboutMult, divclkDivide, clkoutDivide] =>
    let default := ClockSetting.default
    return {
      baseClk := ← optional? float? default.baseClk baseClk
      clkfboutMult := ← optional? float? default.clkfboutMult clkfboutMult
      divclkDivide := ← optional? float? default.divclkDivide divclkDivide
      clkoutDivide := ← optional? float? default.clkoutDivide clkoutDivide }
  | _ => none

/-- Reads the retention times. -/
def buckets? (v : Value) : Option (List Binary64) := do
  match ← fields? ["retention_buckets"] v with
  | [buckets] => optional? (list? float?) [] buckets
  | _ => none

/-- Reads where charts go and how large they are; these fields have no order, so an array does not
give them. -/
def plot? (v : Value) : Option (Path × ChartSize) := do
  if let .array _ _ := v then none
  match ← fields? ["output_dir", "width", "height"] v with
  | [outputDirectory, width, height] =>
    let outputDirectory ← optional? path? default.outputDirectory outputDirectory
    let width ← optional? pixels? defaultChartSize.width width
    let height ← optional? pixels? defaultChartSize.height height
    return (outputDirectory, ⟨width, height⟩)
  | _ => none

/-- Reads a measurement file and its label. -/
def dataset? (v : Value) : Option Dataset := do
  match ← fields? ["path", "label"] v with
  | [some path, label] =>
    return ⟨← path? path, ← optional? (fun v => (text? v).map some) none label⟩
  | _ => none

/-- Reads all settings from the entries of a document. -/
def ofEntries? (entries : Entries) : Option Settings := do
  let clock ← optional? clock? default.clock (entries.lookup "clock")
  let buckets ← optional? buckets? default.buckets (entries.lookup "analysis")
  let (outputDirectory, chartSize) ←
    optional? plot? (default.outputDirectory, default.chartSize) (entries.lookup "plot")
  let datasets ← optional? (list? dataset?) default.datasets (entries.lookup "datasets")
  return ⟨clock, buckets, outputDirectory, chartSize, datasets⟩

/-- Why a settings file cannot be used. -/
inductive LoadError where
  | unreadable (cause : FileError)
  | invalid
deriving DecidableEq, Repr

/-- The wording of a `LoadError`. -/
def LoadError.message : LoadError → String
  | .unreadable cause => cause.message
  | .invalid => "TOML parse error"

/-- The settings in a file, from what reading the file gave. -/
def ofFile : Except FileError (List UInt8) → Except LoadError Settings
  | .error cause => .error (.unreadable cause)
  | .ok bytes =>
    match Text.decode bytes with
    | .error _ => .error (.unreadable .notText)
    | .ok text =>
      match (Toml.parse? text).bind ofEntries? with
      | some settings => .ok settings
      | none => .error .invalid

end Settings

end DramTiming
