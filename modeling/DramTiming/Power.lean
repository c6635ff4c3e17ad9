/-!
# Powers of two and ten

The powers that binary and decimal numerals are made of.
-/

namespace DramTiming

/-- Two to the power of `n`. -/
abbrev twoTo (n : Nat) : Nat := Nat.pow 2 n

/-- Ten to the power of `n`. -/
abbrev tenTo (n : Nat) : Nat := Nat.pow 10 n

end DramTiming
