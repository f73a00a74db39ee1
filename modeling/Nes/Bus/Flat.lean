import Nes.Bus

/-!
# The flat bus

65536 bytes of plain memory at every address and nothing else: every access succeeds, a read
changes nothing, and it gives the byte last written.

Results:

* `peek_poke_self`, `peek_poke_of_ne`, `peek_poke`: what a store changes.
* `peek_filled`: memory that holds the same byte everywhere.
-/

namespace Nes

/-- Plain memory at every address. -/
structure FlatBus where
  memory : Vector UInt8 0x10000 := Vector.replicate 0x10000 0

namespace FlatBus

/-- The byte at an address. -/
def peek (bus : FlatBus) (address : UInt16) : UInt8 :=
  bus.memory[(address.toFin : Fin 0x10000)]

/-- Store a byte at an address. -/
def poke (bus : FlatBus) (address : UInt16) (value : UInt8) : FlatBus :=
  ⟨bus.memory.set address.toNat value address.toNat_lt⟩

/-- Store `bytes` from `address` on; the address after `$FFFF` is `$0000`. -/
def load (bus : FlatBus) (address : UInt16) (bytes : List UInt8) : FlatBus :=
  match bytes with
  | [] => bus
  | byte :: rest => (bus.poke address byte).load (address + 1) rest

/-- No access is refused, and reads have no effect. -/
instance : Bus FlatBus where
  read address := fun bus => .ok (bus.peek address) bus
  write address value := fun bus => .ok () (bus.poke address value)
  peek := peek

/-! ## Stores -/

theorem peek_poke_self (bus : FlatBus) (address : UInt16) (value : UInt8) :
    (bus.poke address value).peek address = value := by
  simp [peek, poke]

theorem peek_poke_of_ne (bus : FlatBus) {address other : UInt16} (h : address ≠ other)
    (value : UInt8) : (bus.poke address value).peek other = bus.peek other := by
  have : address.toNat ≠ other.toNat := fun e => h (UInt16.toNat_inj.1 e)
  simp [peek, poke, Vector.getElem_set_ne _ _ this]

theorem peek_poke (bus : FlatBus) (address other : UInt16) (value : UInt8) :
    (bus.poke address value).peek other = if address = other then value else bus.peek other := by
  split
  next h => rw [← h, peek_poke_self]
  next h => exact bus.peek_poke_of_ne h value

/-! ## Filled memory -/

/-- Memory that holds the same byte everywhere. -/
def filled (value : UInt8) : FlatBus := ⟨.replicate 0x10000 value⟩

theorem peek_filled (value : UInt8) (address : UInt16) : (filled value).peek address = value := by
  simp only [filled, peek, Fin.getElem_fin, Vector.getElem_replicate]

end FlatBus

end Nes
