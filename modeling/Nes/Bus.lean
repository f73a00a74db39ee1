import Nes.Text.Hex

/-!
# The bus

A bus answers reads and writes of 65536 addresses. An access may change the bus even when it only
reads, and it may fail; a failed access still leaves a bus behind, so an access is a function from
a bus to a result and the bus that it leaves.

Results:

* `BusError.message`: the one text of each cause of failure.
-/

namespace Nes

/-- Why a bus refuses an access. -/
inductive BusError where
  /-- An access to the cartridge's expansion area. -/
  | expansionAccess (address : UInt16)
  /-- A write to program memory. -/
  | programRomWrite (address : UInt16) (value : UInt8)
  /-- A read of a picture unit register that can only be written. -/
  | writeOnlyRegister (address : UInt16)
  /-- A write to a picture unit register that can only be read. -/
  | readOnlyRegister (address : UInt16)
  /-- A write to pattern memory that the cartridge holds as read-only. The address is the picture
      unit's. -/
  | patternRomWrite (address : UInt16) (value : UInt8)
deriving DecidableEq

/-- What is said of a refused access, with the address as it was on the bus. -/
def BusError.message : BusError → String
  | .expansionAccess address => "access to unsupported expansion area $" ++ Hex.word address
  | .programRomWrite address value =>
    "write of $" ++ Hex.byte value ++ " to program ROM at $" ++ Hex.word address
  | .writeOnlyRegister address => "read of write-only PPU register $" ++ Hex.word address
  | .readOnlyRegister address => "write to read-only PPU register $" ++ Hex.word address
  | .patternRomWrite address value =>
    "write of $" ++ Hex.byte value ++ " to pattern ROM at PPU $" ++ Hex.word address

/-- A bus of type `β`: reads and writes act on it and may fail; a peek looks without acting. -/
class Bus (β : Type) where
  read : UInt16 → EStateM BusError β UInt8
  write : UInt16 → UInt8 → EStateM BusError β Unit
  peek : β → UInt16 → UInt8

/-- The little-endian word that peeks show at `address` and the address after it. -/
def Bus.peekWord {β : Type} [Bus β] (bus : β) (address : UInt16) : UInt16 :=
  Nes.word (peek bus address) (peek bus (address + 1))

end Nes
