/-!
# Paths

A path is a text of segments separated by slashes; a path that begins with a slash starts at the
root.  Empty segments mean nothing, and neither does a `.` after the first segment.  A segment `..`
goes up.
-/

namespace DramTiming

/-- A path as it was given. -/
structure Path where
  text : String
deriving DecidableEq, Repr

namespace Path

instance : ToString Path := ⟨Path.text⟩

/-- Splits a row of characters at every slash. -/
def splitSlashes : List Char → List (List Char)
  | [] => [[]]
  | c :: cs =>
    if c = '/' then [] :: splitSlashes cs
    else match splitSlashes cs with
      | [] => [[c]]
      | piece :: pieces => (c :: piece) :: pieces

/-- The segments of a path that are not empty. -/
def segments (p : Path) : List String :=
  ((splitSlashes p.text.toList).filter (!·.isEmpty)).map String.ofList

/-- Whether a path starts at the root. -/
def isAbsolute (p : Path) : Bool := p.text.toList.head? == some '/'

/-- Whether a path ends with a slash, as that of a directory may. -/
def endsWithSlash (p : Path) : Bool := p.text.toList.getLast? == some '/'

/-- The segments that name a place: a `.` counts only at the start of a relative path. -/
def components (p : Path) : List String :=
  match p.segments with
  | [] => []
  | first :: rest =>
    let tail := rest.filter (· != ".")
    if first == "." && p.isAbsolute then tail else first :: tail

/-- The path with these components. -/
def ofComponents (absolute : Bool) (components : List String) : Path :=
  ⟨(if absolute then "/" else "") ++ "/".intercalate components⟩

/-- The paths of the directories that a path goes through, the innermost first.  The last is the
root, or the empty path. -/
def parents (p : Path) : List Path :=
  let components := p.components
  (List.range components.length).reverse.map fun n => ofComponents p.isAbsolute (components.take n)

/-- The name of the file that a path leads to; a path that ends by going up, or that has no
components, leads to none. -/
def fileName? (p : Path) : Option String :=
  match p.components.getLast? with
  | some "." => none
  | some ".." => none
  | name => name

/-- Cuts a file name at its last point, unless that is its first character. -/
def stemOf (name : List Char) : List Char :=
  match (name.reverse.dropWhile (· ≠ '.')).drop 1 with
  | [] => name
  | stem => stem.reverse

/-- The name of the file that a path leads to, without its extension. -/
def fileStem? (p : Path) : Option String :=
  p.fileName?.map fun name => String.ofList (stemOf name.toList)

/-- The path of a file inside the directory with this path. -/
def join (directory : Path) (name : String) : Path :=
  ⟨if directory.text.isEmpty || directory.endsWithSlash then directory.text ++ name
   else directory.text ++ "/" ++ name⟩

end Path

end DramTiming
