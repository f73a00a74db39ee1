import Nes.Word

/-!
# Hexadecimal text

Bytes are written with two upper-case digits and words with four. The texts are lists of
characters, so that columns can be counted, with `String` forms for messages.

Results:

* `length_byteChars`, `length_wordChars`: the widths are fixed.
-/

namespace Nes.Hex

/-- The digit for a value below 16. -/
def digit (n : Nat) : Char := if n < 10 then Char.ofNat (48 + n) else Char.ofNat (55 + n)

/-- The two digits of a byte. -/
def byteChars (b : UInt8) : List Char := [digit (b.toNat / 16), digit (b.toNat % 16)]

/-- The four digits of a word. -/
def wordChars (w : UInt16) : List Char := byteChars (highByte w) ++ byteChars (lowByte w)

/-- The text of a byte. -/
def byte (b : UInt8) : String := String.ofList (byteChars b)

/-- The text of a word. -/
def word (w : UInt16) : String := String.ofList (wordChars w)

@[simp] theorem length_byteChars (b : UInt8) : (byteChars b).length = 2 := rfl

@[simp] theorem length_wordChars (w : UInt16) : (wordChars w).length = 4 := rfl

end Nes.Hex
