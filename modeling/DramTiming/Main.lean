import DramTiming.Session.Program

/-!
# The command line program

The host of the program is the system: its files, its standard output for results, and its
standard error for everything else.  Of filters in the environment it knows the simplest ones, those
that name a level.
-/

namespace DramTiming

/-- The error that the system has a number for; some calls give the number negated. -/
def FileError.ofCode (code : UInt32) (details : String) : FileError :=
  match min code.toNat (-code).toNat with
  | 2 => .notFound
  | 17 => .alreadyExists
  | 20 => .notDirectory
  | 21 => .isDirectory
  | 36 => .nameTooLong
  | n => .other s!"{details} (os error {n})"

/-- The cause that the system gives for an error. -/
def FileError.ofSystem (cause : IO.Error) : FileError :=
  match cause with
  | .noFileOrDirectory _ code details => ofCode code details
  | .alreadyExists _ code details => ofCode code details
  | .inappropriateType _ code details => ofCode code details
  | .invalidArgument _ code details => ofCode code details
  | .permissionDenied _ code details => ofCode code details
  | .resourceExhausted _ code details => ofCode code details
  | .otherError code details => ofCode code details
  | cause => .other (toString cause)

/-- Does something with the system's files at a path. -/
def attemptAt (path : Path) (act : String → IO α) : IO (Except FileError α) := do
  if path.text.contains (Char.ofNat 0) then return .error .nulInPath
  match ← (act path.text).toBaseIO with
  | .ok a => return .ok a
  | .error cause => return .error (.ofSystem cause)

/-- Whether a path can be opened for reading, as that of a directory can. -/
def canOpen (path : Path) : IO Bool := do
  return (← attemptAt path fun name => IO.FS.Handle.mk name .read).isOk

instance : Host IO where
  readFile path := attemptAt path fun name => do return (← IO.FS.readBinFile name).toList
  pathExists path := canOpen path
  isDirectory path := canOpen ⟨path.text ++ "/."⟩
  makeDirectory path := attemptAt path fun name => IO.FS.createDir name
  saveChart path chart := attemptAt path fun name => IO.FS.writeFile name chart.toSvg
  print := IO.println
  report event := IO.eprintln event.line

/-- The lines for a run that breaks off. -/
def breakOff (text : String) : List String := [s!"Broken off: {text}"]

end DramTiming

open DramTiming

/-- Runs the program on the command line's arguments. -/
def main (texts : List String) : IO UInt32 := do
  let environment : Environment :=
    { settingsFile := ← IO.getEnv "DRAMLAB_CONFIG"
      filter := ← IO.getEnv "RUST_LOG" }
  let ending : Ending ← program Verbosity.named? environment texts
  ending.results.forM fun line => IO.println line
  (ending.complaint breakOff).forM fun line => IO.eprintln line
  return ending.exitCode.toUInt32
