/-!
# TOML strings, keys and blanks

Every reader takes a text and gives what it read with the rest, or nothing if the text does not
begin with it.
-/

namespace DramTiming.Toml

/-- Whether a character is white space within a line. -/
def isSpace (c : Char) : Bool := c == ' ' || c == '\t'

/-- Drops white space within a line. -/
def skipSpaces (cs : List Char) : List Char := cs.dropWhile isSpace

/-- Whether a character may stand in a comment or, quotes and backslashes apart, in a string. -/
def isPrintable (c : Char) : Bool := c == '\t' || (' ' ≤ c && c ≤ '~') || '\x80' ≤ c

/-- Reads a line end. -/
def newline? : List Char → Option (List Char)
  | '\n' :: cs => some cs
  | '\r' :: '\n' :: cs => some cs
  | _ => none

/-- Drops a comment, if the text begins with one. -/
def skipComment : List Char → List Char
  | '#' :: cs => cs.dropWhile isPrintable
  | cs => cs

/-- Reads what may follow a header or a value: white space, a comment, and the end of the line or
of the text. -/
def lineEnd? (cs : List Char) : Option (List Char) :=
  match skipComment (skipSpaces cs) with
  | [] => some []
  | rest => newline? rest

/-- Drops white space, line ends and comments that a line end follows; `inComment` tells whether a
comment has begun. -/
def skipBlankLines (inComment : Bool) : List Char → List Char
  | [] => []
  | '\n' :: cs => skipBlankLines false cs
  | '\r' :: '\n' :: cs => skipBlankLines false cs
  | c :: cs =>
    if inComment then if isPrintable c then skipBlankLines true cs else c :: cs
    else if isSpace c then skipBlankLines false cs
    else if c = '#' then skipBlankLines true cs
    else c :: cs

/-! ### Strings -/

/-- The quote around strings with escapes. -/
def quote : Char := '\x22'

/-- The quote around strings without escapes. -/
def apostrophe : Char := '\x27'

/-- The character that begins an escape. -/
def backslash : Char := '\x5C'

/-- The value of a hexadecimal digit. -/
def hexDigit? (c : Char) : Option Nat :=
  if '0' ≤ c ∧ c ≤ '9' then some (c.toNat - '0'.toNat)
  else if 'a' ≤ c ∧ c ≤ 'f' then some (c.toNat - 'a'.toNat + 10)
  else if 'A' ≤ c ∧ c ≤ 'F' then some (c.toNat - 'A'.toNat + 10)
  else none

/-- The character whose number is written in hexadecimal digits. -/
def charOfHex? (digits : List Char) : Option Char := do
  let n ← digits.foldlM (fun n c => (hexDigit? c).map (16 * n + ·)) 0
  if n.isValidChar then some (Char.ofNat n) else none

/-- The character that a short escape stands for. -/
def shortEscape? : Char → Option Char
  | 'b' => some '\x08'
  | 't' => some '\t'
  | 'n' => some '\n'
  | 'f' => some '\x0C'
  | 'r' => some '\r'
  | c => if c = quote ∨ c = backslash then some c else none

/-- Reads an escape after its backslash. -/
def escape? : List Char → Option (Char × List Char)
  | 'u' :: a :: b :: c :: d :: cs => (charOfHex? [a, b, c, d]).map (·, cs)
  | 'U' :: a :: b :: c :: d :: e :: f :: g :: h :: cs =>
    (charOfHex? [a, b, c, d, e, f, g, h]).map (·, cs)
  | c :: cs => (shortEscape? c).map (·, cs)
  | [] => none

/-- Reads the rest of a string on one line up to the quote `mark`, at most `fuel` characters of it.
Escapes are read if `escapes` tells so. -/
def lineString? (mark : Char) (escapes : Bool) : (fuel : Nat) → List Char →
    Option (List Char × List Char)
  | 0, _ => none
  | _, [] => none
  | fuel + 1, c :: cs => do
    if c = mark then some ([], cs)
    else
      let (c, cs) ← if escapes && c = backslash then escape? cs
        else if isPrintable c then some (c, cs) else none
      let (text, rest) ← lineString? mark escapes fuel cs
      return (c :: text, rest)

/-- Drops what a backslash at the end of a line leaves out: the rest of the line, and all white
space and line ends after it. -/
def afterLineEscape? (cs : List Char) : Option (List Char) := do
  let next ← newline? (skipSpaces cs)
  return next.dropWhile fun c => isSpace c || c == '\n' || c == '\r'

/-- Reads the rest of a string over several lines up to three quotes `mark`, at most `fuel`
characters of it.  Up to two more quotes before the last three belong to the string. -/
def blockString? (mark : Char) (escapes : Bool) : (fuel : Nat) → List Char →
    Option (List Char × List Char)
  | 0, _ => none
  | _, [] => none
  | fuel + 1, c :: cs =>
    let quotes := ((c :: cs).takeWhile (· = mark)).length
    if 3 ≤ quotes then
      let inside := min (quotes - 3) 2
      some (List.replicate inside mark, (c :: cs).drop (inside + 3))
    else if escapes && c = backslash then
      match afterLineEscape? cs with
      | some rest => blockString? mark escapes fuel rest
      | none => do
        let (c, cs) ← escape? cs
        let (text, rest) ← blockString? mark escapes fuel cs
        return (c :: text, rest)
    else if isPrintable c then do
      let (text, rest) ← blockString? mark escapes fuel cs
      return (c :: text, rest)
    else do
      let (text, rest) ← blockString? mark escapes fuel (← newline? (c :: cs))
      return ('\n' :: text, rest)

/-- Drops a line end right after the opening quotes of a string over several lines. -/
def skipFirstNewline (cs : List Char) : List Char := (newline? cs).getD cs

/-- Reads a string on one line. -/
def simpleString? : List Char → Option (String × List Char)
  | c :: cs =>
    if c = quote ∨ c = apostrophe then
      (lineString? c (c = quote) (cs.length + 1) cs).map fun (text, rest) =>
        (String.ofList text, rest)
    else none
  | [] => none

/-- Reads a string. -/
def string? : List Char → Option (String × List Char)
  | a :: b :: c :: cs =>
    if (a = quote ∨ a = apostrophe) ∧ b = a ∧ c = a then
      let body := skipFirstNewline cs
      (blockString? a (a = quote) (body.length + 1) body).map fun (text, rest) =>
        (String.ofList text, rest)
    else simpleString? (a :: b :: c :: cs)
  | cs => simpleString? cs

/-! ### Keys -/

/-- Whether a character may stand in a key without quotes. -/
def isKeyChar (c : Char) : Bool := c.isAlphanum || c == '-' || c == '_'

/-- Reads a key without dots. -/
def simpleKey? (cs : List Char) : Option (String × List Char) :=
  match cs.takeWhile isKeyChar with
  | [] => simpleString? cs
  | key => some (String.ofList key, cs.dropWhile isKeyChar)

/-- The number of parts of a key, and of brackets within brackets, from which on a document is
refused. -/
def depthLimit : Nat := 80

/-- Reads a key of at most `parts` parts with dots between them, and the white space around each
part. -/
def key? : (parts : Nat) → List Char → Option (List String × List Char)
  | 0, _ => none
  | parts + 1, cs => do
    let (first, rest) ← simpleKey? (skipSpaces cs)
    match skipSpaces rest with
    | '.' :: rest =>
      let (others, rest) ← key? parts rest
      return (first :: others, rest)
    | rest => return ([first], rest)

end DramTiming.Toml
