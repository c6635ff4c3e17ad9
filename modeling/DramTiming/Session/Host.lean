import DramTiming.Files.Tree
import DramTiming.Session.Log

/-!
# What a run asks of its surroundings

A run reads files, makes directories, saves charts, prints lines and reports events.  `Host m`
provides these in a monad `m`.  One host is the state monad over a `World`, which holds a file tree
and everything that was printed and reported; it says what a run does.
-/

namespace DramTiming

/-- Surroundings of a run. -/
class Host (m : Type → Type) where
  /-- The bytes of a file. -/
  readFile : Path → m (Except FileError (List UInt8))
  /-- Whether a path leads to anything. -/
  pathExists : Path → m Bool
  /-- Whether a path leads to a directory. -/
  isDirectory : Path → m Bool
  /-- Makes one directory, inside one that is there. -/
  makeDirectory : Path → m (Except FileError Unit)
  /-- Writes a chart to a file. -/
  saveChart : Path → Chart → m (Except FileError Unit)
  /-- Prints a line of results. -/
  print : String → m Unit
  /-- Reports an event. -/
  report : Event → m Unit

namespace Host

variable {m : Type → Type} [Monad m] [Host m]

/-- Passes over the error that a directory could not be made with if it is there all the same. -/
def unlessDirectory (p : Path) (cause : FileError) : m (Except FileError Unit) := do
  if ← isDirectory p then return .ok () else return .error cause

/-- Makes the first directory of a row of paths, each the parent of the one before, and beforehand
those of its parents that are missing.  The empty path is that of the directory where relative
paths start, which is there. -/
def makeWithParents : List Path → m (Except FileError Unit)
  | [] => return .error .notFound
  | p :: parents => do
    if p.text.isEmpty then return .ok ()
    match ← makeDirectory p with
    | .ok () => return .ok ()
    | .error .notFound =>
      match ← makeWithParents parents with
      | .error cause => return .error cause
      | .ok () =>
        match ← makeDirectory p with
        | .ok () => return .ok ()
        | .error cause => unlessDirectory p cause
    | .error cause => unlessDirectory p cause

/-- Makes a directory unless it is there, and those of its parents that are missing. -/
def makeDirectories (p : Path) : m (Except FileError Unit) := makeWithParents (p :: p.parents)

end Host

/-- A file tree, and what has been printed and reported. -/
structure World where
  files : FileTree
  printed : Array String
  reported : Array Event

namespace World

/-- A world in which nothing has been printed or reported. -/
def ofFiles (files : FileTree) : World := ⟨files, #[], #[]⟩

instance : Host (StateM World) where
  readFile path := do return (← get).files.readFile path
  pathExists path := do return (← get).files.pathExists path
  isDirectory path := do return (← get).files.isDirectory path
  makeDirectory path := modifyGet fun w =>
    match w.files.makeDirectory path with
    | .ok files => (.ok (), { w with files := files })
    | .error cause => (.error cause, w)
  saveChart path chart := modifyGet fun w =>
    match w.files.writeFile path (.chart chart) with
    | .ok files => (.ok (), { w with files := files })
    | .error cause => (.error cause, w)
  print line := modify fun w => { w with printed := w.printed.push line }
  report event := modify fun w => { w with reported := w.reported.push event }

end World

end DramTiming
