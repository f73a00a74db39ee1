import Nes.Bus

/-!
# A bus with faults

Any bus can be given addresses at which reads or writes fail. A failing access does not reach the
bus underneath.
-/

namespace Nes

/-- A bus of type `β` with faulty addresses. -/
structure FaultyBus (β : Type) where
  bus : β
  /-- Addresses that cannot be read. -/
  readFaults : List UInt16 := []
  /-- Addresses that cannot be written. -/
  writeFaults : List UInt16 := []

namespace FaultyBus

variable {β : Type} [Bus β]

/-- A listed address is refused before the bus inside is asked. A peek is never refused. -/
instance : Bus (FaultyBus β) where
  read address := fun ⟨bus, readFaults, writeFaults⟩ =>
    if readFaults.contains address then
      .error (.expansionAccess address) ⟨bus, readFaults, writeFaults⟩
    else match Bus.read address bus with
      | .ok value bus => .ok value ⟨bus, readFaults, writeFaults⟩
      | .error cause bus => .error cause ⟨bus, readFaults, writeFaults⟩
  write address value := fun ⟨bus, readFaults, writeFaults⟩ =>
    if writeFaults.contains address then
      .error (.programRomWrite address value) ⟨bus, readFaults, writeFaults⟩
    else match Bus.write address value bus with
      | .ok _ bus => .ok () ⟨bus, readFaults, writeFaults⟩
      | .error cause bus => .error cause ⟨bus, readFaults, writeFaults⟩
  peek faulty address := Bus.peek faulty.bus address

end FaultyBus

end Nes
