/-!
# White space

The characters with the Unicode property `White_Space`, and removing them from both ends of a text.
-/

namespace DramTiming.Text

/-- Whether a character has the property `White_Space`. -/
def isBlank (c : Char) : Bool :=
  let n := c.toNat
  (0x09 ≤ n && n ≤ 0x0D) || n == 0x20 || n == 0x85 || n == 0xA0 || n == 0x1680
    || (0x2000 ≤ n && n ≤ 0x200A) || n == 0x2028 || n == 0x2029 || n == 0x202F || n == 0x205F
    || n == 0x3000

/-- Removes the elements with a property from both ends of a list. -/
def trimBoth (p : α → Bool) (xs : List α) : List α :=
  ((xs.dropWhile p).reverse.dropWhile p).reverse

/-- Removes white space from both ends of a text. -/
def trim (cs : List Char) : List Char := trimBoth isBlank cs

end DramTiming.Text
