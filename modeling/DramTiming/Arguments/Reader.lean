import DramTiming.Arguments.Basic

/-!
# Reading command lines

Arguments are read from the left, one scope after the other.  A value that stands apart from its
option, and a path of a measurement file, *waits* until the next option or the end of its scope,
and is only then looked at; of two faults an earlier one may therefore be passed over for a later
one that shows at once.
-/

namespace DramTiming.Arguments

/-! ### Waiting values -/

/-- What is still to be looked at. -/
inductive Waiting where
  | nothing
  /-- An option, and its value once that has come. -/
  | value (option : Opt) (text : Option String)
  | datasets (texts : List String)
deriving DecidableEq, Repr

/-- The state of reading one scope. -/
structure Reading where
  found : Found
  waiting : Waiting
  /-- Whether `--` has been read, after which nothing is an option. -/
  optionsOver : Bool

namespace Reading

/-- The state at the start of a scope. -/
def start : Reading := ⟨.none, .nothing, false⟩

/-- Looks at what is waiting.  An option that still lacks its value is refused. -/
def settle (r : Reading) : Except Refusal Reading := do
  let found ←
    match r.waiting with
    | .nothing => pure r.found
    | .value _ none => throw .invalidValue
    | .value option (some text) => r.found.take option text
    | .datasets texts => texts.foldlM Found.dataset r.found
  return { r with found := found, waiting := .nothing }

/-- Whether an option lacks its value. -/
def lacksValue (r : Reading) : Bool :=
  match r.waiting with
  | .value _ none => true
  | _ => false

/-- Takes an option whose value stands with it. -/
def attached (r : Reading) (option : Opt) (text : String) : Except Refusal Reading := do
  let r ← r.settle
  return { r with found := ← r.found.take option text }

/-- Takes an option whose value is to follow. -/
def apart (r : Reading) (option : Opt) : Except Refusal Reading := do
  return { ← r.settle with waiting := .value option none }

/-- Takes an option without a value. -/
def flag (r : Reading) (option : Opt) : Except Refusal Reading := do
  let r ← r.settle
  return { r with found := ← r.found.flag option }

/-! ### Options -/

/-- Takes an argument after two dashes, split at its first equals sign. -/
def long (scope : Scope) (r : Reading) (name : String) (value : Option String) :
    Except Refusal Reading :=
  match scope.long? name, value with
  | none, _ => .error .unknownArgument
  | some option, some text =>
    if option.takesValue then r.attached option text else .error .tooManyValues
  | some option, none => if option.takesValue then r.apart option else r.flag option

/-- Takes the letters after one dash.  The rest after a letter that takes a value is that value,
with or without an equals sign before it. -/
def letters (scope : Scope) (r : Reading) : List Char → Except Refusal Reading
  | [] => .ok r
  | c :: cs =>
    match scope.short? c with
    | none => .error .unknownArgument
    | some option =>
      if option.takesValue then
        match cs with
        | [] => r.apart option
        | '=' :: text => r.attached option (String.ofList text)
        | text => r.attached option (String.ofList text)
      else do (← r.flag option).letters scope cs

/-- Splits a text at its first equals sign, if it has one. -/
def splitEquals (cs : List Char) : String × Option String :=
  match cs.span (· ≠ '=') with
  | (name, []) => (String.ofList name, none)
  | (name, _ :: text) => (String.ofList name, some (String.ofList text))

/-! ### Other arguments -/

/-- Why an argument has no place in a scope.  Before the subcommand it would have to be one,
unless it is one and only the `--` before it keeps it from being read as such. -/
def misplaced (scope : Scope) (r : Reading) (text : String) : Refusal :=
  if scope ≠ .program || (r.optionsOver && (text = "help" || (Scope.ofName? text).isSome)) then
    .unknownArgument
  else .invalidSubcommand

/-- Takes an argument that is no option. -/
def plain (scope : Scope) (r : Reading) (text : String) : Except Refusal Reading :=
  if scope.takesDatasets then
    match r.waiting with
    | .datasets texts => .ok { r with waiting := .datasets (texts ++ [text]) }
    | _ => do return { ← r.settle with waiting := .datasets [text] }
  else .error (r.misplaced scope text)

/-- Takes one argument. -/
def argument (scope : Scope) (r : Reading) (text : String) : Except Refusal Reading :=
  if r.optionsOver then r.plain scope text
  else match text.toList with
    | ['-', '-'] => .ok { r with optionsOver := true }
    | '-' :: '-' :: cs =>
      let (name, value) := splitEquals cs
      r.long scope name value
    | '-' :: c :: cs => r.letters scope (c :: cs)
    | _ =>
      match r.waiting with
      | .value option none => .ok { r with waiting := .value option (some text) }
      | _ => r.plain scope text

end Reading

/-! ### Scopes -/

/-- Looks at what is still waiting.  A path from the environment is looked at as well, where a
scope has no path of its own. -/
def finish (fromEnvironment : Option String) (r : Reading) : Except Refusal Found := do
  let found := (← r.settle).found
  match found.settingsFile, fromEnvironment with
  | none, some text => discard (readPath text)
  | _, _ => pure ()
  return found

/-- Reads the arguments after a subcommand. -/
def readScope (scope : Scope) (fromEnvironment : Option String) (texts : List String) :
    Except Refusal Found := do
  let found ← finish fromEnvironment (← texts.foldlM (Reading.argument scope) .start)
  if found.sweep.isSome && found.trcdCycles.isSome then throw .argumentConflict
  return found

/-- The answer to a request for help about subcommands. -/
def helpOn : List String → Refusal
  | [] => .helpRequested
  | [text] =>
    if text = "help" || (Scope.ofName? text).isSome then .helpRequested else .invalidSubcommand
  | _ => .invalidSubcommand

/-- Reads the arguments before the subcommand, then those after it. -/
def readProgram (fromEnvironment : Option String) (r : Reading) :
    List String → Except Refusal (Found × Option (Scope × Found))
  | [] => return (← finish fromEnvironment r, none)
  | text :: texts =>
    if r.optionsOver || r.lacksValue then do
      let r ← r.argument .program text
      readProgram fromEnvironment r texts
    else if text = "help" then .error (helpOn texts)
    else match Scope.ofName? text with
      | some scope => do
        let inner ← readScope scope fromEnvironment texts
        return (← finish fromEnvironment r, some (scope, inner))
      | none => do
        let r ← r.argument .program text
        readProgram fromEnvironment r texts

/-- The command that a scope with these findings stands for. -/
def toCommand (scope : Scope) (f : Found) : Command :=
  match scope with
  | .curves => .curves f.datasets f.buckets f.out
  | .correlate => .correlate f.datasets f.out
  | _ => .pll f.toPll

/-- Reads a command line.  Verbosity and settings file may be given on either side of the
subcommand; those given after it count, and a path from the environment counts only if there is no
other. -/
def read (fromEnvironment : Option String) (texts : List String) : Except Refusal CommandLine := do
  match ← readProgram fromEnvironment .start texts with
  | (outer, none) =>
    if outer.settingsFile.isNone && outer.verbosity.isNone && fromEnvironment.isNone then
      throw .nothingGiven
    throw .missingSubcommand
  | (outer, some (scope, inner)) =>
    return {
      settingsFile := (inner.settingsFile.or outer.settingsFile).or (fromEnvironment.map Path.mk)
      verbosity := (inner.verbosity.or outer.verbosity).getD 0
      command := toCommand scope inner }

end DramTiming.Arguments
