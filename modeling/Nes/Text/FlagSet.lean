/-!
# Text of a set of flags

A register made of single flags is shown by name: `Control(ENABLE | 0x1)`. A flag is named when
all of its bits are set, in the order of its declaration; bits that no named flag covers follow as
one hexadecimal number, and an empty set is shown as `0x0`.
-/

namespace Nes

/-- The named flags of a register, in declaration order. -/
structure FlagNames where
  register : String
  flags : List (String × UInt8)

namespace FlagNames

/-- The flags whose bits are all set in `bits`. -/
def present (names : FlagNames) (bits : UInt8) : List (String × UInt8) :=
  names.flags.filter fun flag => bits &&& flag.2 == flag.2

/-- The bits that no present flag covers. -/
def remaining (names : FlagNames) (bits : UInt8) : UInt8 :=
  (names.present bits).foldl (fun rest flag => rest &&& ~~~flag.2) bits

/-- A number in lower-case hexadecimal without leading zeros. -/
def hexNumber (n : Nat) : String := "0x" ++ String.ofList (Nat.toDigits 16 n)

/-- The text of a register that holds `bits`. -/
def text (names : FlagNames) (bits : UInt8) : String :=
  let named := (names.present bits).map (·.1)
  let rest := names.remaining bits
  let parts := if rest == 0 && !named.isEmpty then named else named ++ [hexNumber rest.toNat]
  names.register ++ "(" ++ " | ".intercalate parts ++ ")"

end FlagNames

end Nes
