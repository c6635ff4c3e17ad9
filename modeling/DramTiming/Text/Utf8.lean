/-!
# Reading UTF-8

A character takes one to four bytes: a first byte that tells their number, and continuation bytes
with six bits each.  A form longer than needed, a surrogate, and a number beyond the last character
are refused.
-/

namespace DramTiming.Text

/-- Whether a byte continues a character. -/
def isContinuation (b : UInt8) : Bool := 0x80 ≤ b && b < 0xC0

/-- The six bits of a continuation byte. -/
def continuationBits (b : UInt8) : Nat := b.toNat % 64

/-- The character with a given number, if it is at least `least`, the first number that needs as
many bytes as were read. -/
def charOfNat? (least n : Nat) : Option Char :=
  if least ≤ n ∧ n.isValidChar then some (Char.ofNat n) else none

/-- The character that a row of bytes begins with, and how many bytes it takes. -/
def decodeChar? : List UInt8 → Option (Char × Nat)
  | [] => none
  | a :: rest =>
    if a < 0x80 then some (Char.ofNat a.toNat, 1)
    else match rest with
    | [] => none
    | b :: rest =>
      if !isContinuation b then none
      else if 0xC0 ≤ a && a < 0xE0 then
        (charOfNat? 0x80 (a.toNat % 32 * 64 + continuationBits b)).map (·, 2)
      else match rest with
      | [] => none
      | c :: rest =>
        if !isContinuation c then none
        else if 0xE0 ≤ a && a < 0xF0 then
          (charOfNat? 0x800 (a.toNat % 16 * 4096 + continuationBits b * 64
            + continuationBits c)).map (·, 3)
        else match rest with
        | [] => none
        | d :: _ =>
          if !isContinuation d then none
          else if 0xF0 ≤ a && a < 0xF8 then
            (charOfNat? 0x10000 (a.toNat % 8 * 262144 + continuationBits b * 4096
              + continuationBits c * 64 + continuationBits d)).map (·, 4)
          else none

/-- Reads a row of bytes onto the characters found so far, of which the last comes first.  What is
left when no character begins there is the error. -/
def decodeOnto (found : List Char) (bytes : List UInt8) : Except (List UInt8) (List Char) :=
  match bytes with
  | [] => .ok found.reverse
  | b :: bs =>
    match decodeChar? (b :: bs) with
    | none => .error (b :: bs)
    | some (c, size) => decodeOnto (c :: found) (bs.drop (size - 1))
termination_by bytes.length
decreasing_by simp only [List.length_drop, List.length_cons]; omega

/-- Reads a row of bytes as characters; the error is the number of bytes before the first one at
which no character begins. -/
def decode (bytes : List UInt8) : Except Nat (List Char) :=
  match decodeOnto [] bytes with
  | .ok cs => .ok cs
  | .error rest => .error (bytes.length - rest.length)

/-- The bytes of a text. -/
def encode (cs : List Char) : List UInt8 := cs.flatMap String.utf8EncodeChar

/-- The number of bytes of a text. -/
def byteLength (cs : List Char) : Nat := (encode cs).length

end DramTiming.Text
