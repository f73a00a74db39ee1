import Nes.Bus

/-!
# Recording the accesses of a bus

Around any bus a recorder keeps the list of reads and writes made through it, failed ones
included. Peeks are not accesses.
-/

namespace Nes

/-- One access, with the byte that moved. -/
inductive Access where
  | read (address : UInt16) (value : UInt8)
  | readFailed (address : UInt16)
  | write (address : UInt16) (value : UInt8)
  | writeFailed (address : UInt16) (value : UInt8)
deriving DecidableEq

/-- The address and byte that an access tried to write. -/
def Access.attempt? : Access → Option (UInt16 × UInt8)
  | .write address value | .writeFailed address value => some (address, value)
  | .read .. | .readFailed .. => none

/-- Reads are `R0600=A9`, writes are `W0010=05`; `!` ends a failed one. -/
def Access.text : Access → String
  | .read address value => "R" ++ Hex.word address ++ "=" ++ Hex.byte value
  | .readFailed address => "R" ++ Hex.word address ++ "!"
  | .write address value => "W" ++ Hex.word address ++ "=" ++ Hex.byte value
  | .writeFailed address value => "W" ++ Hex.word address ++ "=" ++ Hex.byte value ++ "!"

/-- A bus together with the accesses made through it, oldest first. -/
structure Recorder (β : Type) where
  bus : β
  accesses : Array Access := #[]

namespace Recorder

variable {β : Type} [Bus β]

/-- The access is made on the bus inside, and noted together with how it went. -/
instance : Bus (Recorder β) where
  read address := fun ⟨bus, accesses⟩ =>
    match Bus.read address bus with
    | .ok value bus => .ok value ⟨bus, accesses.push (.read address value)⟩
    | .error cause bus => .error cause ⟨bus, accesses.push (.readFailed address)⟩
  write address value := fun ⟨bus, accesses⟩ =>
    match Bus.write address value bus with
    | .ok _ bus => .ok () ⟨bus, accesses.push (.write address value)⟩
    | .error cause bus => .error cause ⟨bus, accesses.push (.writeFailed address value)⟩
  peek recorder address := Bus.peek recorder.bus address

end Recorder

end Nes
