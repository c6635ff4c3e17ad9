import DramTiming.Chart.Svg
import DramTiming.Files.Error
import DramTiming.Files.Path

/-!
# File trees

A file tree tells what stands at each place below a root: a directory, or a file with its
content.  The operations are those of a file system without links: a path is followed segment by
segment, and each segment but the last has to lead to a directory.
-/

namespace DramTiming

/-- The content of a file: bytes as they are, or a chart, whose bytes are its SVG document. -/
inductive Content where
  | bytes (bytes : List UInt8)
  | chart (chart : Chart)
deriving DecidableEq, Repr

/-- The bytes of a file's content. -/
def Content.toBytes : Content → List UInt8
  | bytes raw => raw
  | chart drawn => drawn.toBytes

/-- What stands at a place. -/
inductive Node where
  | directory
  | file (content : Content)
deriving DecidableEq, Repr

/-- A place: the names on the way to it from the root. -/
abbrev Location := List String

/-- The directories and files below a root, and the directory at which relative paths start. -/
structure FileTree where
  here : Location
  nodes : List (Location × Node)
deriving DecidableEq, Repr

namespace FileTree

/-- The tree without files whose only directories are those on the way to `here`. -/
def bare (here : Location) : FileTree :=
  ⟨here, (List.range here.length).map fun n => (here.take (n + 1), .directory)⟩

/-- What stands at a place. -/
def lookup (t : FileTree) (location : Location) : Option Node :=
  if location = [] then some .directory else List.lookup location t.nodes

/-- Puts a directory or a file in a place, where it takes the place of what stood there. -/
def put (t : FileTree) (location : Location) (node : Node) : FileTree :=
  { t with nodes := (location, node) :: t.nodes.filter (·.1 != location) }

/-! ### Following paths -/

/-- The largest number of bytes in a name. -/
def maxNameBytes : Nat := 255

/-- The largest number of bytes in a path. -/
def maxPathBytes : Nat := 4095

/-- The place that segments lead to from a place; there need not be anything. -/
def follow (t : FileTree) (location : Location) : List String → Except FileError Location
  | [] => .ok location
  | segment :: rest =>
    match t.lookup location with
    | none => .error .notFound
    | some (.file _) => .error .notDirectory
    | some .directory =>
      if segment = "." then t.follow location rest
      else if segment = ".." then t.follow location.dropLast rest
      else if maxNameBytes < segment.utf8ByteSize then .error .nameTooLong
      else t.follow (location ++ [segment]) rest

/-- The place that a path leads to; there need not be anything. -/
def locate (t : FileTree) (p : Path) : Except FileError Location :=
  if p.text.toList.contains (Char.ofNat 0) then .error .nulInPath
  else if p.text.isEmpty then .error .notFound
  else if maxPathBytes < p.text.utf8ByteSize then .error .nameTooLong
  else t.follow (if p.isAbsolute then [] else t.here) p.segments

/-- What stands where a path leads. -/
def find (t : FileTree) (p : Path) : Except FileError (Location × Node) := do
  let location ← t.locate p
  match t.lookup location with
  | none => throw .notFound
  | some .directory => return (location, .directory)
  | some (.file content) =>
    if p.endsWithSlash then throw .notDirectory else return (location, .file content)

/-! ### Files and directories -/

/-- Whether a path leads to anything. -/
def pathExists (t : FileTree) (p : Path) : Bool := (t.find p).isOk

/-- Whether a path leads to a directory. -/
def isDirectory (t : FileTree) (p : Path) : Bool :=
  match t.find p with
  | .ok (_, .directory) => true
  | _ => false

/-- The bytes of a file. -/
def readFile (t : FileTree) (p : Path) : Except FileError (List UInt8) := do
  match ← t.find p with
  | (_, .directory) => throw .isDirectory
  | (_, .file content) => return content.toBytes

/-- Writes a file, over an old one if there is one. -/
def writeFile (t : FileTree) (p : Path) (content : Content) : Except FileError FileTree := do
  let location ← t.locate p
  match t.lookup location with
  | some .directory => throw .isDirectory
  | some (.file _) =>
    if p.endsWithSlash then throw .notDirectory else return t.put location (.file content)
  | none =>
    if p.endsWithSlash then throw .isDirectory else return t.put location (.file content)

/-- Makes one directory, inside one that is there. -/
def makeDirectory (t : FileTree) (p : Path) : Except FileError FileTree := do
  let location ← t.locate p
  match t.lookup location with
  | some _ => throw .alreadyExists
  | none => return t.put location .directory

end FileTree

end DramTiming
