import Nes.Bus
import Nes.Cpu.Instruction

/-!
# The processor on its bus

A processor is a register file, a count of instructions and the bus that it drives. What it does
is an `Action`: it ends with a value or with the cause of a failed access, and either way it
leaves the processor as far as it had come.

Results:

* `vectors_toNat`: where the three vectors are.
* `read_registers`, `write_registers`: an access changes no register.
* `CpuError.message`: the one text of each cause of a stop.
-/

namespace Nes

/-- The first address of the page that holds the stack. -/
def stackBase : UInt16 := 0x0100

/-- Where the target of the non-maskable interrupt is stored. -/
def nmiVector : UInt16 := 0xFFFA

/-- Where the first address of the program is stored. -/
def resetVector : UInt16 := 0xFFFC

/-- Where the target of the software interrupt is stored. -/
def irqVector : UInt16 := 0xFFFE

/-- The vectors are the last three words of the address space. -/
theorem vectors_toNat :
    nmiVector.toNat = 0xFFFA ∧ resetVector.toNat = 0xFFFC ∧ irqVector.toNat = 0xFFFE := by
  decide

/-- A processor on a bus of type `β`. -/
structure Cpu (β : Type) where
  registers : Registers := {}
  /-- Instructions completed since the last reset. -/
  instructions : Nat := 0
  bus : β

/-- Why the processor cannot go on. -/
inductive CpuError where
  /-- The opcode names an operation that is not carried out. -/
  | unsupportedOpcode (opcode : UInt8) (op : UnstableOp) (pc : UInt16)
  /-- The opcode could not be read. -/
  | fetch (pc : UInt16) (source : BusError)
  /-- An access of the instruction failed. -/
  | bus (opcode : UInt8) (pc : UInt16) (source : BusError)
  /-- An access of an interrupt or reset sequence failed. -/
  | interrupt (vector : UInt16) (source : BusError)
deriving DecidableEq

/-- What is said of a stop. Behind a failed access stands what the bus says of it. -/
def CpuError.message : CpuError → String
  | .unsupportedOpcode opcode op pc =>
    "unsupported opcode $" ++ Hex.byte opcode ++ " (" ++ op.mnemonic ++ ") at $" ++ Hex.word pc
  | .fetch pc source => "opcode fetch at $" ++ Hex.word pc ++ ": " ++ source.message
  | .bus opcode pc source =>
    "opcode $" ++ Hex.byte opcode ++ " at $" ++ Hex.word pc ++ ": " ++ source.message
  | .interrupt vector source =>
    "interrupt sequence through vector $" ++ Hex.word vector ++ ": " ++ source.message

/-- The failed access behind a stop, if there is one. -/
def CpuError.source? : CpuError → Option BusError
  | .unsupportedOpcode .. => none
  | .fetch _ source | .bus _ _ source | .interrupt _ source => some source

namespace Cpu

variable {β : Type}

/-- Something the processor does that may fail with an access. -/
abbrev Action (β α : Type) := EStateM BusError (Cpu β) α

/-! ## Registers -/

/-- The registers as they are. -/
def getRegisters : Action β Registers := fun cpu => .ok cpu.registers cpu

/-- Change the registers. -/
def update (f : Registers → Registers) : Action β Unit := fun ⟨registers, instructions, bus⟩ =>
  .ok () ⟨f registers, instructions, bus⟩

/-- Continue at `address`. -/
def jump (address : UInt16) : Action β Unit := update fun r => { r with pc := address }

variable [Bus β]

/-! ## Accesses -/

/-- Read an address of the bus. -/
def read (address : UInt16) : Action β UInt8 := fun ⟨registers, instructions, bus⟩ =>
  match Bus.read address bus with
  | .ok value bus => .ok value ⟨registers, instructions, bus⟩
  | .error cause bus => .error cause ⟨registers, instructions, bus⟩

/-- Write to an address of the bus. -/
def write (address : UInt16) (value : UInt8) : Action β Unit :=
  fun ⟨registers, instructions, bus⟩ =>
    match Bus.write address value bus with
    | .ok _ bus => .ok () ⟨registers, instructions, bus⟩
    | .error cause bus => .error cause ⟨registers, instructions, bus⟩

/-- The word whose bytes are at `address` and the address after it (`read_word`). -/
def readWord (address : UInt16) : Action β UInt16 := do
  let lo ← read address
  let hi ← read (address + 1)
  return word lo hi

/-! ## The instruction stream -/

/-- Read the byte at the program counter and step over it. A byte that cannot be read is not
    stepped over. -/
def fetch : Action β UInt8 := do
  let value ← read (← getRegisters).pc
  update fun r => { r with pc := r.pc + 1 }
  return value

/-- Read the word at the program counter and step over it (`fetch_word`). -/
def fetchWord : Action β UInt16 := do
  let lo ← fetch
  let hi ← fetch
  return word lo hi

/-! ## The stack -/

/-- The address of an offset into the stack page. -/
def stackAddress (offset : UInt8) : UInt16 := stackBase + offset.toUInt16

/-- Store a byte, then move the stack pointer down. -/
def push (value : UInt8) : Action β Unit := do
  write (stackAddress (← getRegisters).sp) value
  update fun r => { r with sp := r.sp - 1 }

/-- Move the stack pointer up, then read a byte. -/
def pull : Action β UInt8 := do
  update fun r => { r with sp := r.sp + 1 }
  read (stackAddress (← getRegisters).sp)

/-- Push a word, high byte first. -/
def pushWord (w : UInt16) : Action β Unit := do
  push (highByte w)
  push (lowByte w)

/-- Pull a word, low byte first. -/
def pullWord : Action β UInt16 := do
  let lo ← pull
  let hi ← pull
  return word lo hi

/-! ## What accesses leave alone -/

/-- The processor that an action leaves, whether it failed or not. -/
def after {ε α : Type} : EStateM.Result ε (Cpu β) α → Cpu β
  | .ok _ cpu => cpu
  | .error _ cpu => cpu

theorem read_registers (address : UInt16) (cpu : Cpu β) :
    (after (read address cpu)).registers = cpu.registers ∧
      (after (read address cpu)).instructions = cpu.instructions := by
  obtain ⟨registers, instructions, bus⟩ := cpu
  simp only [read]
  cases Bus.read address bus <;> exact ⟨rfl, rfl⟩

theorem write_registers (address : UInt16) (value : UInt8) (cpu : Cpu β) :
    (after (write address value cpu)).registers = cpu.registers ∧
      (after (write address value cpu)).instructions = cpu.instructions := by
  obtain ⟨registers, instructions, bus⟩ := cpu
  simp only [write]
  cases Bus.write address value bus <;> exact ⟨rfl, rfl⟩

end Cpu

end Nes
