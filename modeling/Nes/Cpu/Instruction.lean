import Nes.Cpu.Operation

/-!
# Instructions

An instruction is an operation together with the way it finds its operand. Each family of
operations takes only the modes that it can work with, so an instruction always has a meaning.

Results:

* `Instruction.length_mnemonic`, `Opcode.length_mnemonic`: every mnemonic has three characters.
-/

namespace Nes

/-- Modes that name an address. -/
inductive AddressMode where
  /-- The operand is the byte after the opcode itself. -/
  | immediate
  | zeroPage | zeroPageX | zeroPageY
  | absolute | absoluteX | absoluteY
  /-- Through a pointer at an absolute address. -/
  | indirect
  /-- Through a pointer in page 0 that is indexed before it is followed. -/
  | indirectX
  /-- Through a pointer in page 0; the index is added to where it leads. -/
  | indirectY
  /-- A signed distance from the next instruction. -/
  | relative
deriving DecidableEq

/-- The number of bytes that follow the opcode. -/
def AddressMode.operandBytes : AddressMode → Nat
  | immediate | zeroPage | zeroPageX | zeroPageY | indirectX | indirectY | relative => 1
  | absolute | absoluteX | absoluteY | indirect => 2

/-- How an instruction finds its operand. -/
inductive Mode where
  /-- There is no operand. -/
  | implied
  /-- The operand is the accumulator. -/
  | accumulator
  | address (mode : AddressMode)
deriving DecidableEq

/-- The number of bytes that follow the opcode. -/
def Mode.operandBytes : Mode → Nat
  | implied | accumulator => 0
  | address mode => mode.operandBytes

/-- The instructions that the processor carries out. -/
inductive Instruction where
  | read (op : ReadOp) (mode : AddressMode)
  | write (op : WriteOp) (mode : AddressMode)
  | modify (op : ModifyOp) (mode : AddressMode)
  /-- The operation on the accumulator. -/
  | modifyA (op : ModifyOp)
  | combined (op : CombinedOp) (mode : AddressMode)
  | register (op : RegisterOp)
  | stack (op : StackOp)
  | branch (condition : Condition)
  | jmp (mode : AddressMode)
  | jsr
  | rts
  | rti
  | brk
  /-- Passes over its operand bytes and does nothing with them. -/
  | nop (mode : Mode)
deriving DecidableEq

namespace Instruction

/-- The name of an instruction, that of its operation where it has one. -/
def mnemonic : Instruction → String
  | read op _ => op.mnemonic
  | write op _ => op.mnemonic
  | modify op _ => op.mnemonic
  | modifyA op => op.mnemonic
  | combined op _ => op.mnemonic
  | register op => op.mnemonic
  | stack op => op.mnemonic
  | branch condition => condition.mnemonic
  | jmp _ => "JMP"
  | jsr => "JSR"
  | rts => "RTS"
  | rti => "RTI"
  | brk => "BRK"
  | nop _ => "NOP"

/-- The mode that an instruction is written with. Where the kind leaves no choice, it is fixed. -/
def mode : Instruction → Mode
  | read _ mode | write _ mode | modify _ mode | combined _ mode | jmp mode => .address mode
  | modifyA _ => .accumulator
  | register _ | stack _ | rts | rti | brk => .implied
  | branch _ => .address .relative
  | jsr => .address .absolute
  | nop mode => mode

theorem length_mnemonic (i : Instruction) : i.mnemonic.toList.length = 3 := by
  cases i with
  | read op => change op.mnemonic.toList.length = 3; cases op <;> decide
  | write op => change op.mnemonic.toList.length = 3; cases op <;> decide
  | modify op => change op.mnemonic.toList.length = 3; cases op <;> decide
  | modifyA op => cases op <;> decide
  | combined op => change op.mnemonic.toList.length = 3; cases op <;> decide
  | register op => cases op <;> decide
  | stack op => cases op <;> decide
  | branch condition => cases condition <;> decide
  | jmp => simp [mnemonic]
  | nop => simp [mnemonic]
  | jsr | rts | rti | brk => decide

end Instruction

/-- What an opcode byte stands for. -/
inductive Opcode where
  | instruction (i : Instruction)
  /-- An operation that the processor refuses. It has a length all the same. -/
  | unstable (op : UnstableOp) (mode : Mode)
deriving DecidableEq

namespace Opcode

/-- The name that an opcode is listed under. -/
def mnemonic : Opcode → String
  | instruction i => i.mnemonic
  | unstable op _ => op.mnemonic

/-- The mode that an opcode is listed with. -/
def mode : Opcode → Mode
  | instruction i => i.mode
  | unstable _ mode => mode

/-- The processor carries it out. -/
def isSupported : Opcode → Bool
  | instruction _ => true
  | unstable .. => false

/-- The number of bytes that the opcode and its operand take. -/
def length (opcode : Opcode) : Nat := 1 + opcode.mode.operandBytes

theorem length_mnemonic (opcode : Opcode) : opcode.mnemonic.toList.length = 3 := by
  cases opcode with
  | instruction i => exact i.length_mnemonic
  | unstable op mode => change op.mnemonic.toList.length = 3; cases op <;> decide

theorem length_le_three (opcode : Opcode) : opcode.length ≤ 3 := by
  have : ∀ mode : AddressMode, mode.operandBytes ≤ 2 := by intro mode; cases mode <;> decide
  unfold length
  cases opcode.mode with
  | implied => decide
  | accumulator => decide
  | address mode => have := this mode; simp only [Mode.operandBytes]; omega

end Opcode

end Nes
