import Nes.Cpu.Execution
import Nes.Proofs.Bare.Console
import Nes.Proofs.Bare.Table
import Nes.Proofs.Cpu.Simulation

/-!
# The bare processor

A bus that is lost as soon as an access goes out of bounds, and a processor that takes its
instructions apart: a name and a mode are looked up by number, the operand is found, and then what
the name stands for is carried out on whatever operand it gets. Where a name is not expected or has
no use for an operand the bus is lost, too, and so it is when the count of instructions does not fit
in a machine word any more.

Results:

* `execute_parts`: no instruction of the table gets an operand that it has no use for, and none has
  a name that is not expected.
* `simulation_backed`: the bus is not lost while the console stands behind it.
* `simulates_step`: a step of the bare processor does what a step of the processor does.
* `bus_step_of_lost`, `bus_nmi_of_lost`, `bus_reset_of_lost`: a lost bus stays lost.
-/

namespace Nes

namespace Bare

/-- A console that is lost once an access goes out of bounds. Everything can be done with a lost
    console, but it does not come back. -/
instance : Bus (Option Console) where
  read address := fun
    | none => .ok 0 none
    | some console => match console.read address with
      | none => .ok 0 none
      | some (.ok value console) => .ok value (some console)
      | some (.error cause console) => .error cause (some console)
  write address value := fun
    | none => .ok () none
    | some console => match console.write address value with
      | none => .ok () none
      | some (.ok _ console) => .ok () (some console)
      | some (.error cause console) => .error cause (some console)
  peek console address := (console.bind (·.peek address)).getD 0

/-! ## Operands -/

/-- What an operation works on. -/
inductive Operand where
  | implied
  | accumulator
  | address (address : UInt16)
deriving DecidableEq

/-- What the bare processor does. -/
abbrev Action (α : Type) := Cpu.Action (Option Console) α

/-- Lose the console. -/
def lose {ε α : Type} (value : α) : EStateM ε (Cpu (Option Console)) α := fun cpu =>
  .ok value { cpu with bus := none }

/-- Find the operand of a mode. -/
def resolve : Mode → Action Operand
  | .implied => return .implied
  | .accumulator => return .accumulator
  | .address mode => do return .address (← Cpu.resolve mode)

/-- The value of an operand. -/
def load : Operand → Action UInt8
  | .address address => Cpu.read address
  | .accumulator => do return (← Cpu.getRegisters).a
  | .implied => lose 0

/-- Replace the value of an operand. -/
def store (value : UInt8) : Operand → Action Unit
  | .address address => Cpu.write address value
  | .accumulator => Cpu.update fun r => { r with a := value }
  | .implied => lose ()

/-- Where an operand leads. -/
def target : Operand → Action UInt16
  | .address address => return address
  | .accumulator | .implied => lose 0

/-- Read an operand, change it and write it back. -/
def modify (op : ModifyOp) (operand : Operand) : Action UInt8 := do
  let old ← load operand
  let (new, p) := op.apply old (← Cpu.getRegisters).p
  Cpu.update fun r => { r with p := p }
  store new operand
  return new

/-! ## Execution -/

/-- Carry out an operation on an operand. -/
def Operation.run (operand : Operand) : Operation → Action Unit
  | .read op => do
    let value ← load operand
    Cpu.update (op.apply value)
  | .write op => do store (op.value (← Cpu.getRegisters)) operand
  | .modify op => do
    let _ ← Bare.modify op operand
  | .combined op => do
    let value ← Bare.modify op.first operand
    Cpu.update (op.second.apply value)
  | .register op => Cpu.update op.apply
  | .stack op => Instruction.runStack op
  | .branch condition => do
    if condition.holds (← Cpu.getRegisters).p then Cpu.jump (← target operand)
  | .jmp => do Cpu.jump (← target operand)
  | .jsr => do
    let address ← target operand
    Cpu.pushWord ((← Cpu.getRegisters).pc - 1)
    Cpu.jump address
  | .rts => do Cpu.jump ((← Cpu.pullWord) + 1)
  | .rti => do
    let status ← Cpu.pull
    Cpu.update fun r => { r with p := .ofPulled status }
    Cpu.jump (← Cpu.pullWord)
  | .brk => do
    let r ← Cpu.getRegisters
    Instruction.enterInterrupt (r.pc + 1) r.p.pushedBits irqVector
  | .nop => return

/-- Carry out what a name stands for. -/
def execute (operand : Operand) (mnemonic : Mnemonic) : Action Unit :=
  match mnemonic.operation? with
  | some operation => operation.run operand
  | none => lose ()

/-- The number after a counter's, if it fits in a machine word. -/
def increment (n : Nat) : Option Nat := if n + 1 < UInt64.size then some (n + 1) else none

/-- Count an instruction as completed. -/
def countInstruction (cpu : Cpu (Option Console)) : Cpu (Option Console) :=
  match increment cpu.instructions with
  | some instructions => { cpu with instructions }
  | none => { cpu with bus := none }

/-- Run one instruction. -/
def step : EStateM CpuError (Cpu (Option Console)) Unit := do
  let pc := (← get).registers.pc
  let opcode ← Cpu.fetch.adaptExcept (.fetch pc)
  match table[opcode.toNat]? with
  | none => lose ()
  | some (mnemonic, mode) =>
    match mnemonic.refused? with
    | some op => throw (.unsupportedOpcode opcode op pc)
    | none =>
      (do execute (← resolve mode) mnemonic).adaptExcept (.bus opcode pc)
      modifyThe (Cpu (Option Console)) countInstruction

/-! ## Instructions -/

theorem execute_name (operand : Operand) (operation : Operation) :
    execute operand operation.name = operation.run operand := by
  rw [execute, operation?_name]

theorem resolve_bind {α : Type} (mode : AddressMode) (f : Operand → Action α) :
    (resolve (.address mode) >>= f) = Cpu.resolve mode >>= fun address => f (.address address) := by
  show ((Cpu.resolve mode >>= fun address => pure (.address address)) >>= f) = _
  rw [bind_assoc]
  simp only [pure_bind]

/-- No instruction of the table gets an operand that it has no use for. -/
theorem run_parts (i : Instruction) :
    (do (parts i).1.run (← resolve (parts i).2)) = (i.run : Action Unit) := by
  cases i with
  | read op mode => exact resolve_bind mode _
  | write op mode => exact resolve_bind mode _
  | modify op mode => exact resolve_bind mode _
  | modifyA op => rfl
  | combined op mode => exact resolve_bind mode _
  | register op => rfl
  | stack op => rfl
  | branch condition =>
    refine (resolve_bind .relative _).trans ?_
    rfl
  | jmp mode => exact resolve_bind mode _
  | jsr => exact resolve_bind .absolute _
  | rts => rfl
  | rti => rfl
  | brk => rfl
  | nop mode =>
    cases mode with
    | implied => rfl
    | accumulator => rfl
    | address mode => exact resolve_bind mode _

theorem execute_parts (i : Instruction) :
    (do execute (← resolve (parts i).2) (parts i).1.name) = (i.run : Action Unit) := by
  simp only [execute_name]
  exact run_parts i

/-! ## Steps -/

theorem step_eq (cpu : Cpu (Option Console)) :
    step cpu = match Cpu.fetch cpu with
      | .error cause cpu' => .error (.fetch cpu.registers.pc cause) cpu'
      | .ok opcode cpu' => match Opcode.ofByte opcode with
        | .unstable op _ => .error (.unsupportedOpcode opcode op cpu.registers.pc) cpu'
        | .instruction i => match i.run cpu' with
          | .error cause cpu'' => .error (.bus opcode cpu.registers.pc cause) cpu''
          | .ok _ cpu'' => .ok () (countInstruction cpu'') := by
  simp only [step, bind, EStateM.bind, get, getThe, MonadStateOf.get, EStateM.adaptExcept]
  have hget : EStateM.get cpu = (.ok cpu cpu : EStateM.Result CpuError _ _) := rfl
  rw [hget]
  dsimp only
  cases Cpu.fetch cpu with
  | error cause cpu' => rfl
  | ok opcode cpu' =>
    dsimp only
    rw [getElem?_table]
    cases Opcode.ofByte opcode with
    | unstable op mode =>
      dsimp only [entry]
      rw [refused?_unstableName]
      rfl
    | instruction i =>
      have he : EStateM.bind (resolve (parts i).2)
          (fun operand => execute operand (parts i).1.name) = i.run :=
        execute_parts i
      dsimp only [entry]
      rw [refused?_name]
      dsimp only
      rw [he]
      simp only [EStateM.bind, EStateM.adaptExcept]
      cases i.run cpu' <;> rfl

theorem step_eq_of_lt {cpu : Cpu (Option Console)}
    (h : (final (Cpu.step cpu)).instructions < UInt64.size) : step cpu = Cpu.step cpu := by
  rw [Cpu.step_eq] at h ⊢
  rw [step_eq]
  cases hf : Cpu.fetch cpu with
  | error cause cpu' => rfl
  | ok opcode cpu' =>
    rw [hf] at h
    dsimp only at h ⊢
    cases ho : Opcode.ofByte opcode with
    | unstable op mode => rfl
    | instruction i =>
      rw [ho] at h
      dsimp only at h ⊢
      cases hi : i.run cpu' with
      | error cause cpu'' => rfl
      | ok _ cpu'' =>
        rw [hi] at h
        have hc : increment cpu''.instructions = some (cpu''.instructions + 1) := if_pos h
        dsimp only [countInstruction]
        rw [hc]
        rfl

/-! ## The bus -/

/-- The bus is not lost, and the console stands behind it. -/
def Backed (bus : Option Console) (console : Nes.Console) : Prop := bus = some console.bare

theorem simulation_backed : Bus.Simulation Backed where
  read address := by
    rintro _ console rfl
    simp only [Bus.read, Nes.Console.bare_read]
    cases Nes.Console.read address console with
    | ok value console => exact .ok value rfl
    | error cause console => exact .error cause rfl
  write address value := by
    rintro _ console rfl
    simp only [Bus.write, Nes.Console.bare_write]
    cases Nes.Console.write address value console with
    | ok _ console => exact .ok () rfl
    | error cause console => exact .error cause rfl

theorem simulates_step {n : Nat} {x : Cpu (Option Console)} {y : Cpu Nes.Console}
    (h : Cpu.Related Backed n x y) (hlt : (final (Cpu.step y)).instructions < UInt64.size) :
    Agree (Cpu.RelatedFrom Backed n) (step x) (Cpu.step y) := by
  have hs := Cpu.simulates_step simulation_backed h
  obtain ⟨m, -, hm⟩ := hs.final
  have hlt : (final (Cpu.step x)).instructions < UInt64.size := by
    rw [hm.left_instructions, ← hm.right_instructions]
    exact hlt
  rwa [step_eq_of_lt hlt]

/-! ## Lost buses -/

/-- Two buses that are both lost. -/
def Lost (x y : Option Console) : Prop := x = none ∧ y = none

theorem simulation_lost : Bus.Simulation Lost where
  read address := by
    rintro _ _ ⟨rfl, rfl⟩
    exact .ok 0 ⟨rfl, rfl⟩
  write address value := by
    rintro _ _ ⟨rfl, rfl⟩
    exact .ok () ⟨rfl, rfl⟩

theorem related_of_lost {cpu : Cpu (Option Console)} (h : cpu.bus = none) :
    Cpu.Related Lost cpu.instructions cpu cpu :=
  ⟨rfl, rfl, rfl, h, h⟩

theorem bus_nmi_of_lost {cpu : Cpu (Option Console)} (h : cpu.bus = none) :
    (final (Cpu.nmi cpu)).bus = none :=
  (Cpu.simulates_nmi simulation_lost (related_of_lost h)).final.bus.1

theorem bus_reset_of_lost {cpu : Cpu (Option Console)} (h : cpu.bus = none) :
    (final (Cpu.reset cpu)).bus = none := by
  obtain ⟨_, hr⟩ := (Cpu.simulates_reset simulation_lost (related_of_lost h)).final
  exact hr.bus.1

/-- A lost bus stays lost: a step that ends with a bus has never gone out of bounds. -/
theorem bus_step_of_lost {cpu : Cpu (Option Console)} (h : cpu.bus = none) :
    (final (step cpu)).bus = none := by
  have hf := Cpu.simulates_fetch simulation_lost (related_of_lost h)
  rw [step_eq]
  cases hc : Cpu.fetch cpu with
  | error cause cpu' =>
    rw [hc] at hf
    exact hf.final.bus.1
  | ok opcode cpu' =>
    rw [hc] at hf
    have hr := hf.final
    dsimp only
    cases Opcode.ofByte opcode with
    | unstable op mode => exact hr.bus.1
    | instruction i =>
      have hi := (Cpu.simulates_instruction simulation_lost i hr).final.bus.1
      dsimp only [final] at hi ⊢
      cases hc : i.run cpu' with
      | error cause cpu'' =>
        rw [hc] at hi
        exact hi
      | ok _ cpu'' =>
        rw [hc] at hi
        dsimp only [countInstruction]
        cases increment cpu''.instructions with
        | some n => exact hi
        | none => rfl

end Bare

end Nes
