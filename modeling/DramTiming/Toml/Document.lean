import DramTiming.Toml.Number

/-!
# TOML documents

A document is a row of lines, each empty, a key with its value, or the header of a table.  Values
within brackets are read up to a fixed depth, and loops over a text carry its length as the bound
of their steps.
-/

namespace DramTiming.Toml

/-- A reader of values. -/
abbrev ValueReader := List Char → Option (Value × List Char)

/-! ### Values -/

/-- Reads a value without brackets. -/
def scalar? : ValueReader := fun cs =>
  match cs with
  | 't' :: 'r' :: 'u' :: 'e' :: rest => some (.boolean true, rest)
  | 'f' :: 'a' :: 'l' :: 's' :: 'e' :: rest => some (.boolean false, rest)
  | cs =>
    match string? cs with
    | some (text, rest) => some (.string text, rest)
    | none => (datetime? cs).or (number? cs)

/-- Reads the elements of an array up to its closing bracket, at most `fuel` of them. -/
def elements? (value? : ValueReader) : (fuel : Nat) → List Char → Option (List Value × List Char)
  | 0, _ => none
  | fuel + 1, cs =>
    match skipBlankLines false cs with
    | ']' :: rest => some ([], rest)
    | cs => do
      let (first, rest) ← value? cs
      match skipBlankLines false rest with
      | ']' :: rest => return ([first], rest)
      | ',' :: rest =>
        let (others, rest) ← elements? value? fuel rest
        return (first :: others, rest)
      | _ => none

/-- Reads a key, an equals sign and a value; the last part of the key is given on its own. -/
def pair? (value? : ValueReader) (cs : List Char) :
    Option (List String × String × Value × List Char) := do
  let (path, rest) ← key? (depthLimit - 1) cs
  let (value, rest) ← value? (skipSpaces (← mark? '=' rest))
  return (path.dropLast, ← path.getLast?, value, rest)

/-- Reads the pairs of a table in braces up to its closing brace, at most `fuel` of them, and adds
them to the entries. -/
def bracedPairs? (value? : ValueReader) : (fuel : Nat) → Entries → List Char →
    Option (Entries × List Char)
  | 0, _, _ => none
  | fuel + 1, entries, cs => do
    let (path, key, value, rest) ← pair? value? cs
    let (_, entries) ← Entries.addAt path key value .braces entries
    match skipSpaces rest with
    | '}' :: rest => return (entries, rest)
    | ',' :: rest => bracedPairs? value? fuel entries rest
    | _ => none

/-- Reads a value with brackets up to a depth. -/
def valueTo? : (depth : Nat) → ValueReader
  | 0, cs =>
    match cs with
    | '[' :: _ => none
    | '{' :: _ => none
    | cs => scalar? cs
  | depth + 1, cs =>
    match cs with
    | '[' :: rest =>
      (elements? (valueTo? depth) (rest.length + 1) rest).map fun (elements, rest) =>
        (.array false elements, rest)
    | '{' :: rest =>
      match skipSpaces rest with
      | '}' :: rest => some (.table .braces [], rest)
      | rest =>
        (bracedPairs? (valueTo? depth) (rest.length + 1) [] rest).map fun (entries, rest) =>
          (.table .braces entries, rest)
    | cs => scalar? cs

/-- Reads a value. -/
def value? : ValueReader := valueTo? (depthLimit - 1)

/-! ### Lines -/

/-- A document in the course of reading: its entries, and the path of the table that the next pairs
belong to. -/
structure Draft where
  entries : Entries
  here : List String

/-- Changes the entries of a draft with a function that also sees the origin of the table. -/
def Draft.update (d : Draft) (step : Origin → Entries → Option (Origin × Entries)) : Option Draft :=
  (step .header d.entries).map fun (_, entries) => { d with entries := entries }

/-- Adds a pair to the current table. -/
def Draft.addPair (d : Draft) (path : List String) (key : String) (value : Value) : Option Draft :=
  d.update (Entries.change false (Entries.addAt path key value) d.here)

/-- Makes the table of a header the current one. -/
def Draft.enter (d : Draft) (path : List String)
    (openWith : String → Origin → Entries → Option (Origin × Entries)) : Option Draft := do
  let key ← path.getLast?
  let d ← d.update (Entries.change false (openWith key) path.dropLast)
  return { d with here := path }

/-- Reads a header after its first bracket. -/
def header? (d : Draft) (cs : List Char) : Option (Draft × List Char) := do
  match cs with
  | '[' :: cs =>
    let (path, rest) ← key? (depthLimit - 1) cs
    let rest ← mark? ']' (← mark? ']' rest)
    return (← d.enter path Entries.openElement, ← lineEnd? rest)
  | cs =>
    let (path, rest) ← key? (depthLimit - 1) cs
    let rest ← mark? ']' rest
    return (← d.enter path Entries.openTable, ← lineEnd? rest)

/-- Reads the lines of a document, at most `fuel` of them. -/
def lines? : (fuel : Nat) → Draft → List Char → Option Entries
  | 0, _, _ => none
  | fuel + 1, d, cs =>
    match skipSpaces cs with
    | [] => some d.entries
    | '[' :: rest => do
      let (d, rest) ← header? d rest
      lines? fuel d rest
    | c :: rest => do
      if c = '#' || c = '\n' || c = '\r' then lines? fuel d (← lineEnd? (c :: rest))
      else
        let (path, key, value, rest) ← pair? value? (c :: rest)
        let d ← d.addPair path key value
        lines? fuel d (← lineEnd? rest)

/-- Drops a byte-order mark at the start of a text. -/
def skipByteOrderMark : List Char → List Char
  | '\uFEFF' :: cs => cs
  | cs => cs

/-- The entries of a document, if the text is one. -/
def parse? (text : List Char) : Option Entries :=
  lines? (text.length + 1) ⟨[], []⟩ (skipByteOrderMark text)

end DramTiming.Toml
