import Nes.Bus.Recorder
import Nes.Proofs.Cpu.Simulation

/-!
# Calls of the processor

A processor is asked to run an instruction or to take an interrupt. Calls come in lists: made one
after another up to the first that fails, or made all of them whatever comes of each. What a
processor does on its bus is what a recorder around the bus lists; it changes nothing else.

Results:

* `agree_perform`, `agree_performAll`: processors on related buses do the same.
* `step_of_instruction`: a step, by the instruction that comes next.
* `perform_watched`, `performAll_watched`: a processor that is watched does what it does unwatched.
-/

namespace Nes

/-! ## Recorders -/

/-- The recorder is around the bus. -/
def Recorder.Around {β : Type} (recorder : Recorder β) (bus : β) : Prop := recorder.bus = bus

theorem Recorder.simulation_around (β : Type) [Bus β] :
    Bus.Simulation (@Recorder.Around β) where
  read address := by
    rintro ⟨bus, accesses⟩ _ rfl
    simp only [Bus.read]
    cases Bus.read address bus with
    | ok value bus => exact .ok value rfl
    | error cause bus => exact .error cause rfl
  write address value := by
    rintro ⟨bus, accesses⟩ _ rfl
    simp only [Bus.write]
    cases Bus.write address value bus with
    | ok _ bus => exact .ok () rfl
    | error cause bus => exact .error cause rfl

namespace Cpu

section

variable {β : Type} [Bus β] (registers : Registers) (instructions : Nat) (bus : β)
  (log : Array Access)

theorem read_recorder (address : UInt16) :
    read address ⟨registers, instructions, (⟨bus, log⟩ : Recorder β)⟩ =
      match Bus.read address bus with
      | .ok value bus => .ok value ⟨registers, instructions, bus, log.push (.read address value)⟩
      | .error cause bus =>
        .error cause ⟨registers, instructions, bus, log.push (.readFailed address)⟩ := by
  simp only [Cpu.read, Bus.read]
  cases Bus.read address bus <;> rfl

theorem write_recorder (address : UInt16) (value : UInt8) :
    write address value ⟨registers, instructions, (⟨bus, log⟩ : Recorder β)⟩ =
      match Bus.write address value bus with
      | .ok _ bus => .ok () ⟨registers, instructions, bus, log.push (.write address value)⟩
      | .error cause bus =>
        .error cause ⟨registers, instructions, bus, log.push (.writeFailed address value)⟩ := by
  simp only [Cpu.write, Bus.write]
  cases Bus.write address value bus <;> rfl

end

/-! ## Calls -/

/-- What a processor is asked to do. -/
inductive Call where
  /-- Run one instruction. -/
  | step
  /-- Take a non-maskable interrupt. -/
  | nmi
deriving DecidableEq

section

variable {β : Type} [Bus β]

/-- Do what is asked. -/
def perform : Call → EStateM CpuError (Cpu β) Unit
  | .step => step
  | .nmi => nmi

/-- Do what is asked, one after another, up to the first call that fails. -/
def performAll : List Call → EStateM CpuError (Cpu β) Unit
  | [] => return
  | call :: rest => do
    perform call
    performAll rest

/-- The processor after some calls, each of which may have failed. -/
def afterCalls (cpu : Cpu β) (calls : List Call) : Cpu β :=
  calls.foldl (fun cpu call => final (perform call cpu)) cpu

/-- The processor with its accesses watched from now on. -/
def watched (cpu : Cpu β) : Cpu (Recorder β) :=
  ⟨cpu.registers, cpu.instructions, { bus := cpu.bus }⟩

/-- The accesses of a call. -/
def accesses (cpu : Cpu β) (call : Call) : List Access :=
  (final (perform call cpu.watched)).bus.accesses.toList

/-- The accesses of calls that are made up to the first that fails. -/
def accessesAll (cpu : Cpu β) (calls : List Call) : List Access :=
  (final (performAll calls cpu.watched)).bus.accesses.toList

/-- The accesses of calls that are all made, oldest first. -/
def history (cpu : Cpu β) : List Call → List Access
  | [] => []
  | call :: rest => cpu.accesses call ++ history (final (perform call cpu)) rest

theorem performAll_cons (call : Call) (rest : List Call) (cpu : Cpu β) :
    performAll (call :: rest) cpu = match perform call cpu with
      | .ok _ cpu => performAll rest cpu
      | .error cause cpu => .error cause cpu := by
  simp only [performAll, bind, EStateM.bind]
  cases perform call cpu <;> rfl

theorem afterCalls_cons (cpu : Cpu β) (call : Call) (rest : List Call) :
    cpu.afterCalls (call :: rest) = (final (perform call cpu)).afterCalls rest := rfl

/-! ## The next instruction -/

/-- The instruction that the next step carries out, if its opcode can be read. -/
def instruction? (cpu : Cpu β) : Option Instruction :=
  match fetch cpu with
  | .error _ _ => none
  | .ok opcode _ => match Opcode.ofByte opcode with
    | .unstable _ _ => none
    | .instruction i => some i

/-- The processor with the next opcode read. -/
def fetched (cpu : Cpu β) : Cpu β := final (fetch cpu)

theorem fetch_eq (cpu : Cpu β) :
    fetch cpu = match Bus.read cpu.registers.pc cpu.bus with
      | .error cause bus => .error cause { cpu with bus := bus }
      | .ok opcode bus => .ok opcode
        ⟨{ cpu.registers with pc := cpu.registers.pc + 1 }, cpu.instructions, bus⟩ := by
  simp only [fetch, bind, EStateM.bind, getRegisters, read]
  cases Bus.read cpu.registers.pc cpu.bus <;> rfl

theorem registers_fetch {cpu cpu' : Cpu β} {value : UInt8} (h : fetch cpu = .ok value cpu') :
    cpu'.registers = { cpu.registers with pc := cpu.registers.pc + 1 } := by
  rw [fetch_eq] at h
  cases hr : Bus.read cpu.registers.pc cpu.bus with
  | error cause bus =>
    rw [hr] at h
    cases h
  | ok value bus =>
    rw [hr] at h
    cases h
    rfl

theorem fetch_of_instruction {cpu : Cpu β} {i : Instruction} (h : cpu.instruction? = some i) :
    ∃ opcode, fetch cpu = .ok opcode cpu.fetched ∧ Opcode.ofByte opcode = .instruction i := by
  unfold instruction? at h
  unfold fetched
  cases hf : fetch cpu with
  | error cause cpu' =>
    rw [hf] at h
    cases h
  | ok opcode cpu' =>
    rw [hf] at h
    refine ⟨opcode, rfl, ?_⟩
    dsimp only at h
    cases ho : Opcode.ofByte opcode with
    | unstable op mode =>
      rw [ho] at h
      cases h
    | instruction j =>
      rw [ho] at h
      cases h
      rfl

theorem registers_fetched {cpu : Cpu β} {i : Instruction} (h : cpu.instruction? = some i) :
    cpu.fetched.registers = { cpu.registers with pc := cpu.registers.pc + 1 } := by
  obtain ⟨opcode, hf, -⟩ := fetch_of_instruction h
  exact registers_fetch hf

theorem step_of_instruction {cpu : Cpu β} {i : Instruction} (h : cpu.instruction? = some i) :
    ∃ opcode, step cpu = match i.run cpu.fetched with
      | .error cause cpu' => .error (.bus opcode cpu.registers.pc cause) cpu'
      | .ok _ cpu' => .ok () cpu'.countInstruction := by
  obtain ⟨opcode, hf, ho⟩ := fetch_of_instruction h
  refine ⟨opcode, ?_⟩
  rw [step_eq, hf]
  cases hr : i.run cpu.fetched <;> simp only [ho, hr]

/-- A step leaves the processor where the instruction does, but for the count of instructions. -/
theorem final_step {cpu : Cpu β} {i : Instruction} (h : cpu.instruction? = some i) :
    (final (step cpu)).registers = (final (i.run cpu.fetched)).registers ∧
      (final (step cpu)).bus = (final (i.run cpu.fetched)).bus := by
  obtain ⟨opcode, hs⟩ := step_of_instruction h
  rw [hs]
  cases i.run cpu.fetched <;> exact ⟨rfl, rfl⟩

theorem final_step_of_none {cpu : Cpu β} (h : cpu.instruction? = none) :
    final (step cpu) = cpu.fetched := by
  unfold instruction? at h
  rw [step_eq, fetched]
  cases hf : fetch cpu with
  | error cause cpu' => rfl
  | ok opcode cpu' =>
    rw [hf] at h
    dsimp only at h ⊢
    cases ho : Opcode.ofByte opcode with
    | unstable op mode => rfl
    | instruction i =>
      rw [ho] at h
      cases h

theorem final_nmi (cpu : Cpu β) :
    final (nmi cpu) = final (Instruction.enterInterrupt cpu.registers.pc cpu.registers.p.bits
      nmiVector cpu) := by
  show final (EStateM.adaptExcept _ _ cpu) = _
  unfold EStateM.adaptExcept
  cases Instruction.enterInterrupt cpu.registers.pc cpu.registers.p.bits nmiVector cpu <;> rfl

theorem enterInterrupt_of_nmi {cpu entered : Cpu β} (h : nmi cpu = .ok () entered) :
    Instruction.enterInterrupt cpu.registers.pc cpu.registers.p.bits nmiVector cpu =
      .ok () entered := by
  have h : EStateM.adaptExcept _ _ cpu = .ok () entered := h
  unfold EStateM.adaptExcept at h
  cases hc : Instruction.enterInterrupt cpu.registers.pc cpu.registers.p.bits nmiVector cpu with
  | error cause y =>
    rw [hc] at h
    cases h
  | ok _ y =>
    rw [hc] at h
    cases h
    rfl

end

/-! ## Related processors -/

section

variable {β γ : Type} [Bus β] [Bus γ] {rel : β → γ → Prop} (hb : Bus.Simulation rel)

include hb

theorem agree_perform (call : Call) {x : Cpu β} {y : Cpu γ} (h : ∃ n, Related rel n x y) :
    Agree (fun x y => ∃ n, Related rel n x y) (perform call x) (perform call y) := by
  obtain ⟨n, h⟩ := h
  cases call with
  | step => exact (simulates_step hb h).mono fun ⟨m, _, hm⟩ => ⟨m, hm⟩
  | nmi => exact (simulates_nmi hb h).mono fun h => ⟨n, h⟩

theorem agree_performAll (calls : List Call) {x : Cpu β} {y : Cpu γ}
    (h : ∃ n, Related rel n x y) :
    Agree (fun x y => ∃ n, Related rel n x y) (performAll calls x) (performAll calls y) := by
  induction calls generalizing x y with
  | nil => exact .ok () h
  | cons call rest ih =>
    have hc := agree_perform hb call h
    rw [performAll_cons, performAll_cons]
    generalize perform call x = p at hc ⊢
    generalize perform call y = q at hc ⊢
    cases hc with
    | ok _ h => exact ih h
    | error cause h => exact .error cause h

end

section

variable {β : Type} [Bus β] (cpu : Cpu β)

theorem perform_watched (call : Call) :
    Agree (fun x y => ∃ n, Related Recorder.Around n x y) (perform call cpu.watched)
      (perform call cpu) :=
  agree_perform (Recorder.simulation_around β) call ⟨_, rfl, rfl, rfl, rfl⟩

theorem performAll_watched (calls : List Call) :
    Agree (fun x y => ∃ n, Related Recorder.Around n x y) (performAll calls cpu.watched)
      (performAll calls cpu) :=
  agree_performAll (Recorder.simulation_around β) calls ⟨_, rfl, rfl, rfl, rfl⟩

end

end Cpu

end Nes
