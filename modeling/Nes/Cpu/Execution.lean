import Nes.Cpu.EffectiveAddress
import Nes.Cpu.Opcode

/-!
# Execution

One step reads an opcode, finds the operand and carries the instruction out. Interrupts and reset
are sequences of their own. A step that fails leaves what it did before the access that failed.

Results:

* `step_eq`: a step, by the opcode that it reads.
-/

namespace Nes

namespace Instruction

open Cpu

variable {β : Type} [Bus β]

/-- Replace the byte at `address` (`modify`). The flags are set before the new byte is written. -/
def modifyAt (op : ModifyOp) (address : UInt16) : Action β UInt8 := do
  let old ← Cpu.read address
  let (new, p) := op.apply old (← getRegisters).p
  update fun r => { r with p := p }
  Cpu.write address new
  return new

/-- Push what an interrupt saves and disable further interrupts. -/
def enterInterrupt (returnAddress : UInt16) (status : UInt8) (vector : UInt16) :
    Action β Unit := do
  pushWord returnAddress
  push status
  update fun r => { r with p := { r.p with interrupt := true } }
  jump (← readWord vector)

/-- Carry out an operation on the stack. -/
def runStack : StackOp → Action β Unit
  | .pha => do push (← getRegisters).a
  | .php => do push (← getRegisters).p.pushedBits
  | .pla => do
    let value ← pull
    update fun r => r.setA value
  | .plp => do
    let value ← pull
    update fun r => { r with p := .ofPulled value }

/-- Carry out an instruction whose opcode has been read. -/
def run : Instruction → Action β Unit
  | read op mode => do
    let value ← Cpu.read (← resolve mode)
    update (op.apply value)
  | write op mode => do
    let address ← resolve mode
    Cpu.write address (op.value (← getRegisters))
  | modify op mode => do
    let _ ← modifyAt op (← resolve mode)
  | modifyA op => update op.applyA
  | combined op mode => do
    let value ← modifyAt op.first (← resolve mode)
    update (op.second.apply value)
  | register op => update op.apply
  | stack op => runStack op
  | branch condition => do
    let target ← resolve .relative
    if condition.holds (← getRegisters).p then jump target
  | jmp mode => do jump (← resolve mode)
  | jsr => do
    let target ← resolve .absolute
    pushWord ((← getRegisters).pc - 1)
    jump target
  | rts => do jump ((← pullWord) + 1)
  | rti => do
    let status ← pull
    update fun r => { r with p := .ofPulled status }
    jump (← pullWord)
  | brk => do
    let r ← getRegisters
    enterInterrupt (r.pc + 1) r.p.pushedBits irqVector
  | nop mode => skipOperand mode

end Instruction

namespace Cpu

variable {β : Type} [Bus β]

/-- Count an instruction as completed. -/
def countInstruction (cpu : Cpu β) : Cpu β := { cpu with instructions := cpu.instructions + 1 }

/-- Run one instruction. -/
def step : EStateM CpuError (Cpu β) Unit := do
  let pc := (← get).registers.pc
  let opcode ← fetch.adaptExcept (.fetch pc)
  match Opcode.ofByte opcode with
  | .unstable op _ => throw (.unsupportedOpcode opcode op pc)
  | .instruction i => do
    i.run.adaptExcept (.bus opcode pc)
    modify countInstruction

/-- Run `n` instructions, or fewer if one fails. -/
def run : Nat → EStateM CpuError (Cpu β) Unit
  | 0 => return
  | n + 1 => do
    step
    run n

/-- Deliver a non-maskable interrupt between two instructions (`enter_nmi`). The break flag is
    pushed as it stands. -/
def nmi : EStateM CpuError (Cpu β) Unit := do
  let r := (← get).registers
  (Instruction.enterInterrupt r.pc r.p.bits nmiVector).adaptExcept (.interrupt nmiVector)

/-- Load the first registers and start at the address that the reset vector holds. -/
def reset : EStateM CpuError (Cpu β) Unit := do
  modify fun cpu => { cpu with registers := {} }
  let start ← (readWord resetVector).adaptExcept (.interrupt resetVector)
  modify fun cpu => { cpu with registers := { cpu.registers with pc := start }, instructions := 0 }

theorem step_eq (cpu : Cpu β) :
    step cpu = match fetch cpu with
      | .error cause cpu' => .error (.fetch cpu.registers.pc cause) cpu'
      | .ok opcode cpu' => match Opcode.ofByte opcode with
        | .unstable op _ => .error (.unsupportedOpcode opcode op cpu.registers.pc) cpu'
        | .instruction i => match i.run cpu' with
          | .error cause cpu'' => .error (.bus opcode cpu.registers.pc cause) cpu''
          | .ok _ cpu'' => .ok () cpu''.countInstruction := by
  simp only [step, bind, EStateM.bind, get, getThe, MonadStateOf.get, EStateM.adaptExcept]
  have hget : EStateM.get cpu = (.ok cpu cpu : EStateM.Result CpuError (Cpu β) (Cpu β)) := rfl
  rw [hget]
  dsimp only
  cases fetch cpu with
  | error cause cpu' => rfl
  | ok opcode cpu' =>
    dsimp only
    cases Opcode.ofByte opcode with
    | unstable op mode => rfl
    | instruction i =>
      simp only [EStateM.bind, EStateM.adaptExcept]
      cases i.run cpu' <;> rfl

end Cpu

end Nes
