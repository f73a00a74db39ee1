import Nes.Text.FlagSet
import Nes.Word

/-!
# The status register

The processor keeps seven flags. As a byte, bit 5 stands for no flag and is always set.

Results:

* `ofBits_bits`, `bits_ofBits`: the flags and the byte determine each other, but for bit 5.
-/

namespace Nes

/-- The flags of the processor. -/
structure Status where
  carry : Bool := false
  zero : Bool := false
  /-- Maskable interrupts are disabled. -/
  interrupt : Bool := false
  /-- Kept and never consulted: this processor has no decimal mode. -/
  decimal : Bool := false
  /-- Set in the byte that a software interrupt pushes. -/
  brk : Bool := false
  overflow : Bool := false
  negative : Bool := false
deriving DecidableEq

namespace Status

/-- The bit that stands for `flag`, or none. -/
def bit (flag : Bool) (mask : UInt8) : UInt8 := if flag then mask else 0

/-- The status byte: `NV1BDIZC` from the high bit down. -/
def bits (p : Status) : UInt8 :=
  bit p.carry 0x01 ||| bit p.zero 0x02 ||| bit p.interrupt 0x04 ||| bit p.decimal 0x08
    ||| bit p.brk 0x10 ||| 0x20 ||| bit p.overflow 0x40 ||| bit p.negative 0x80

/-- The flags that a status byte sets. -/
def ofBits (b : UInt8) : Status where
  carry := b &&& 0x01 != 0
  zero := b &&& 0x02 != 0
  interrupt := b &&& 0x04 != 0
  decimal := b &&& 0x08 != 0
  brk := b &&& 0x10 != 0
  overflow := b &&& 0x40 != 0
  negative := b &&& 0x80 != 0

/-- All bits of `mask` are set in the status byte. -/
def has (p : Status) (mask : UInt8) : Bool := p.bits &&& mask == mask

/-- Set or clear all bits of `mask` in the status byte (`set_flag`). Bit 5 stays set. -/
def assign (p : Status) (mask : UInt8) (value : Bool) : Status :=
  ofBits (if value then p.bits ||| mask else p.bits &&& ~~~mask)

/-- Zero and negative as the result `v` has them (`set_flags_zn`). -/
def setResult (p : Status) (v : UInt8) : Status :=
  { p with zero := v == 0, negative := v &&& 0x80 != 0 }

/-- The byte pushed by a software interrupt or by `PHP`, where the break flag is always set. -/
def pushedBits (p : Status) : UInt8 := { p with brk := true }.bits

/-- The flags taken from a byte pulled off the stack, where the break flag is always clear
(`restore_status`). -/
def ofPulled (b : UInt8) : Status := { ofBits b with brk := false }

/-- One character a flag from `N` to `C`, a point for a clear flag and `-` for bit 5. -/
def text (p : Status) : String :=
  let mark (flag : Bool) (name : Char) : Char := if flag then name else '.'
  String.ofList [mark p.negative 'N', mark p.overflow 'V', '-', mark p.brk 'B',
    mark p.decimal 'D', mark p.interrupt 'I', mark p.zero 'Z', mark p.carry 'C']

/-- The names of the bits of the status byte. -/
def names : FlagNames where
  register := "StatusFlags"
  flags := [("CARRY", 0x01), ("ZERO", 0x02), ("INTERRUPT", 0x04), ("DECIMAL", 0x08),
    ("BREAK", 0x10), ("RESERVED", 0x20), ("OVERFLOW", 0x40), ("NEGATIVE", 0x80)]

/-! ## Flags and bytes -/

theorem ofBits_bits (p : Status) : ofBits p.bits = p := by
  rcases p with ⟨c, z, i, d, b, v, n⟩
  cases c <;> cases z <;> cases i <;> cases d <;> cases b <;> cases v <;> cases n <;> rfl

theorem bits_ofBits (b : UInt8) : (ofBits b).bits = b ||| 0x20 := by
  revert b
  decide +kernel

end Status

end Nes
