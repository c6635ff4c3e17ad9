import DramTiming.Binary64.Basic

/-!
# TOML values

Tables and arrays remember how they came about, because that decides whether a later line of the
document may add to them.
-/

namespace DramTiming.Toml

/-- How a table came about. -/
inductive Origin where
  /-- By a header of its own. -/
  | header
  /-- On the way to the table of a header. -/
  | headerPath
  /-- On the way to a dotted key. -/
  | dottedKey
  /-- Between braces; nothing can be added to it. -/
  | braces
deriving DecidableEq, Repr

/-- A TOML value. -/
inductive Value where
  | string (text : String)
  | integer (n : Int)
  | float (x : Binary64)
  | boolean (b : Bool)
  | datetime
  /-- An array; `byHeaders` tells one whose elements are the tables of headers. -/
  | array (byHeaders : Bool) (elements : List Value)
  | table (origin : Origin) (entries : List (String × Value))

/-- The entries of a table, in the order of the document. -/
abbrev Entries := List (String × Value)

namespace Entries

/-- Gives the entry with a key another value. -/
def replace (entries : Entries) (key : String) (value : Value) : Entries :=
  entries.map fun entry => if entry.1 = key then (key, value) else entry

/-- Changes the table at the end of a path, together with its origin; `onKeys` tells a path of
dotted keys from that of a header.  Tables on the way are made where there are none; of an array
of tables the last is taken.  Dotted keys do not lead into a table that has a header of its own.
-/
def change (onKeys : Bool) (step : Origin → Entries → Option (Origin × Entries)) :
    List String → Origin → Entries → Option (Origin × Entries)
  | [], origin, entries => step origin entries
  | key :: path, origin, entries =>
    match entries.lookup key with
    | none => do
      let (made, inner) ← change onKeys step path (if onKeys then .dottedKey else .headerPath) []
      return (origin, entries ++ [(key, .table made inner)])
    | some (.table .braces _) => none
    | some (.table below inner) => do
      guard !(onKeys && below = .header)
      let (below, inner) ← change onKeys step path below inner
      return (origin, entries.replace key (.table below inner))
    | some (.array true elements) =>
      match elements.getLast? with
      | some (.table below inner) => do
        let (below, inner) ← change onKeys step path below inner
        let elements := elements.dropLast ++ [.table below inner]
        return (origin, entries.replace key (.array true elements))
      | _ => none
    | some _ => none

/-- Adds a key that is not there yet.  A key with dots has to end in a table made by such keys. -/
def add (dotted : Bool) (key : String) (value : Value) (origin : Origin) (entries : Entries) :
    Option (Origin × Entries) := do
  guard (dotted = decide (origin = .dottedKey))
  guard (entries.lookup key).isNone
  return (origin, entries ++ [(key, value)])

/-- Adds a value under a key with dots, which is given as its parts before the last and its last. -/
def addAt (path : List String) (key : String) (value : Value) :
    Origin → Entries → Option (Origin × Entries) :=
  change true (add (!path.isEmpty) key value) path

/-- Opens the table of a header.  It may have been made on the way to another header, but not by a
header of its own. -/
def openTable (key : String) (origin : Origin) (entries : Entries) : Option (Origin × Entries) :=
  match entries.lookup key with
  | none => some (origin, entries ++ [(key, .table .header [])])
  | some (.table .headerPath inner) => some (origin, entries.replace key (.table .header inner))
  | some _ => none

/-- Opens a further table of an array of tables. -/
def openElement (key : String) (origin : Origin) (entries : Entries) : Option (Origin × Entries) :=
  match entries.lookup key with
  | none => some (origin, entries ++ [(key, .array true [.table .header []])])
  | some (.array true elements) =>
    some (origin, entries.replace key (.array true (elements ++ [.table .header []])))
  | some _ => none

end Entries

end DramTiming.Toml
