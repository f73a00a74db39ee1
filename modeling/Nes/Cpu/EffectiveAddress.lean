import Nes.Cpu.Basic

/-!
# Effective addresses

Every mode turns the bytes after the opcode into one address and steps over them. Addresses in
page 0 wrap inside the page, all others modulo `$10000`, and a pointer's high byte is read from
the pointer's own page.

Results:

* `nextInPage_toNat`: the address of a pointer's high byte, as a number.
-/

namespace Nes.Cpu

variable {β : Type} [Bus β]

/-- The address after `pointer` in the same page; the one after the last is the first. -/
def nextInPage (pointer : UInt16) : UInt16 := word (lowByte pointer + 1) (highByte pointer)

/-- The word at an address whose high byte is read from the same page. -/
def readPointer (pointer : UInt16) : Action β UInt16 := do
  let lo ← read pointer
  let hi ← read (nextInPage pointer)
  return word lo hi

/-- The address that the operand bytes at the program counter name. -/
def resolve : AddressMode → Action β UInt16
  | .immediate => do
    let address := (← getRegisters).pc
    jump (address + 1)
    return address
  | .zeroPage => do
    let offset ← fetch
    return offset.toUInt16
  | .zeroPageX => do
    let offset ← fetch
    return (offset + (← getRegisters).x).toUInt16
  | .zeroPageY => do
    let offset ← fetch
    return (offset + (← getRegisters).y).toUInt16
  | .absolute => fetchWord
  | .absoluteX => do
    let base ← fetchWord
    return base + (← getRegisters).x.toUInt16
  | .absoluteY => do
    let base ← fetchWord
    return base + (← getRegisters).y.toUInt16
  | .indirect => do
    let pointer ← fetchWord
    readPointer pointer
  | .indirectX => do
    let pointer ← fetch
    readPointer (pointer + (← getRegisters).x).toUInt16
  | .indirectY => do
    let pointer ← fetch
    let base ← readPointer pointer.toUInt16
    return base + (← getRegisters).y.toUInt16
  | .relative => do
    let offset ← fetch
    return (← getRegisters).pc + signExtend offset

/-- Step over the operand bytes of a mode, following what it follows. -/
def skipOperand : Mode → Action β Unit
  | .implied | .accumulator => return
  | .address mode => do
    let _ ← resolve mode

theorem nextInPage_toNat (pointer : UInt16) :
    (nextInPage pointer).toNat = pointer.toNat / 256 * 256 + (pointer.toNat + 1) % 256 := by
  simp only [nextInPage, word_toNat, highByte_toNat, UInt8.toNat_add, lowByte_toNat,
    UInt8.reduceToNat]
  omega

end Nes.Cpu
