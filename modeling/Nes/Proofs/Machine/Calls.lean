import Nes.Machine.Basic
import Nes.Proofs.Cpu.Simulation

/-!
# Calls of the machine

A machine is used from outside through calls: it is run, reset and looked at, its buttons are
pressed, its registers are set and its bus is accessed. Every call gets an answer and leaves a
machine, whether it succeeds or not, and a history is a list of calls.

Results:

* `after_append`: a history can be cut anywhere.
* `renderFrame_eq`: a frame, by how its instructions end.
* `instructions_endFrame`: a frame counts no instruction after its run.
* `reset_eq`: a reset always succeeds, and goes on where the reset vector leads.
-/

namespace Nes.Machine

/-! ## Calls and answers -/

/-- What a machine can be asked. -/
inductive Call where
  | step
  | nmi
  | frame
  | reset
  | press (socket : Socket) (button : Button) (pressed : Bool)
  | setRegisters (registers : Registers)
  | read (address : UInt16)
  | write (address : UInt16) (value : UInt8)
  | peek (address : UInt16)
  | vector (address : UInt16)
  | disassemble (address : UInt16)
deriving DecidableEq

/-- The call runs the machine. -/
def Call.isRun : Call → Bool
  | .step | .nmi | .frame => true
  | _ => false

/-- What a call is answered with. -/
inductive Answer where
  | done
  | picture (pixels : Array UInt32)
  | byte (value : UInt8)
  | word (value : UInt16)
  | line (text : String)
  /-- The machine has halted. -/
  | stopped (cause : CpuError)
  /-- The bus has refused an access. -/
  | refused (cause : BusError)
deriving DecidableEq

/-- The answer to an action that has ended, with the state that it left. -/
def Answer.of {ε σ α : Type} (ok : α → σ → Answer) (error : ε → Answer) :
    EStateM.Result ε σ α → Answer × σ
  | .ok value state => (ok value state, state)
  | .error cause state => (error cause, state)

/-- The answer to a call and the machine after it. -/
def perform (machine : Machine) : Call → Answer × Machine
  | .step => Answer.of (fun _ _ => .done) .stopped (step machine)
  | .nmi => Answer.of (fun _ _ => .done) .stopped (nmi machine)
  | .frame => Answer.of (fun _ m => .picture m.frame.toArray) .stopped (renderFrame machine)
  | .reset => Answer.of (fun _ _ => .done) .stopped (reset machine)
  | .press socket button pressed => (.done, machine.press socket button pressed)
  | .setRegisters registers => (.done, { machine with cpu := { machine.cpu with registers } })
  | .read address =>
    Answer.of (fun value _ => .byte value) .refused (onConsole (Bus.read address) machine)
  | .write address value =>
    Answer.of (fun _ _ => .done) .refused (onConsole (Bus.write address value) machine)
  | .peek address => (.byte (Bus.peek machine.cpu.bus address), machine)
  | .vector address => (.word (machine.vector address), machine)
  | .disassemble address => (.line (machine.disassemble address), machine)

/-! ## Histories -/

/-- The answers to a list of calls, each with the machine after it. -/
def outcomes (machine : Machine) : List Call → List (Answer × Machine)
  | [] => []
  | call :: rest => machine.perform call :: outcomes (machine.perform call).2 rest

/-- The machine after a list of calls. -/
def after (machine : Machine) (calls : List Call) : Machine :=
  calls.foldl (fun machine call => (machine.perform call).2) machine

theorem after_nil (machine : Machine) : machine.after [] = machine := rfl

theorem after_cons (machine : Machine) (call : Call) (calls : List Call) :
    machine.after (call :: calls) = (machine.perform call).2.after calls := rfl

theorem after_append (machine : Machine) (calls later : List Call) :
    machine.after (calls ++ later) = (machine.after calls).after later :=
  List.foldl_append ..

/-! ## What calls leave -/

theorem cpu_final_onCpu {machine : Machine} (h : machine.halted = none)
    (action : EStateM CpuError (Cpu Console) Unit) :
    (final (onCpu action machine)).cpu = final (action machine.cpu) := by
  obtain ⟨cpu, config, frame, frames, halted⟩ := machine
  cases h
  simp only [onCpu]
  cases action cpu <;> rfl

/-- What holds before an action of the processor and after it, holds whether or not the machine has
halted. -/
theorem holds_onCpu {P : Cpu Console → Prop} {machine : Machine}
    {action : EStateM CpuError (Cpu Console) Unit} (h₀ : P machine.cpu)
    (h : P (final (action machine.cpu))) : P (final (onCpu action machine)).cpu := by
  cases hh : machine.halted with
  | some cause => rwa [onCpu_of_halted hh]
  | none => rwa [cpu_final_onCpu hh]

theorem onCpu_eq_ok {machine : Machine} {action : EStateM CpuError (Cpu Console) Unit}
    {cpu : Cpu Console} (h : machine.halted = none) (ha : action machine.cpu = .ok () cpu) :
    onCpu action machine = .ok () { machine with cpu } := by
  obtain ⟨_, config, frame, frames, halted⟩ := machine
  cases h
  simp only [onCpu, ha]

theorem onCpu_eq_error {machine : Machine} {action : EStateM CpuError (Cpu Console) Unit}
    {cause : CpuError} {cpu : Cpu Console} (h : machine.halted = none)
    (ha : action machine.cpu = .error cause cpu) :
    onCpu action machine = .error cause { machine with cpu, halted := some cause } := by
  obtain ⟨_, config, frame, frames, halted⟩ := machine
  cases h
  simp only [onCpu, ha]

theorem final_onConsole {α : Type} (machine : Machine) (action : EStateM BusError Console α) :
    (final (onConsole action machine)).cpu.bus = final (action machine.cpu.bus) := by
  simp only [onConsole]
  cases action machine.cpu.bus <;> rfl

theorem state_of {α ε : Type} (ok : α → Machine → Answer) (error : ε → Answer)
    (result : EStateM.Result ε Machine α) : (Answer.of ok error result).2 = final result := by
  cases result <;> rfl

/-! ## Runs and frames -/

theorem run_zero (machine : Machine) : run 0 machine = .ok () machine := rfl

theorem run_succ (n : Nat) (machine : Machine) :
    run (n + 1) machine = match step machine with
      | .ok _ machine => run n machine
      | .error cause machine => .error cause machine := by
  simp only [run, bind, EStateM.bind]
  cases step machine <;> rfl

/-- A machine whose vertical blank has begun. -/
def blanked (machine : Machine) : Machine := machine.mapConsole (Console.mapPpu Ppu.startVblank)

/-- The end of a frame: vertical blank, its interrupt if that is enabled, and the picture. -/
def endFrame : EStateM CpuError Machine Unit := fun machine =>
  if machine.blanked.cpu.bus.ppu.nmiEnabled then
    match nmi machine.blanked with
    | .error cause machine => .error cause machine
    | .ok _ machine => .ok () machine.finishFrame
  else .ok () machine.blanked.finishFrame

theorem renderFrame_eq (machine : Machine) :
    renderFrame machine = match run machine.config.stepsPerFrame machine with
      | .error cause machine => .error cause machine
      | .ok _ machine => endFrame machine := by
  show EStateM.bind (run machine.config.stepsPerFrame) _ machine = _
  unfold EStateM.bind
  cases run machine.config.stepsPerFrame machine with
  | error cause machine => rfl
  | ok _ machine =>
    show (if machine.blanked.cpu.bus.ppu.nmiEnabled then (do nmi; modify finishFrame)
      else modify finishFrame) machine.blanked = endFrame machine
    unfold endFrame
    by_cases hn : machine.blanked.cpu.bus.ppu.nmiEnabled = true
    · rw [if_pos hn, if_pos hn]
      show EStateM.bind nmi _ machine.blanked = _
      unfold EStateM.bind
      cases nmi machine.blanked <;> rfl
    · rw [if_neg hn, if_neg hn]
      rfl

/-- An interrupt is no instruction. -/
theorem instructions_nmi (machine : Machine) :
    (final (nmi machine)).cpu.instructions = machine.cpu.instructions :=
  holds_onCpu (P := fun cpu => cpu.instructions = machine.cpu.instructions) rfl
    (Cpu.instructions_nmi _)

/-- The instructions of a frame are all in its run. -/
theorem instructions_endFrame (machine : Machine) :
    (final (endFrame machine)).cpu.instructions = machine.cpu.instructions := by
  have hn := instructions_nmi machine.blanked
  unfold endFrame
  split
  · cases hc : nmi machine.blanked with
    | error cause machine' =>
      rw [hc] at hn
      exact hn
    | ok _ machine' =>
      rw [hc] at hn
      exact hn
  · rfl

/-! ## Resets -/

/-- A vector is read from the program, as it shows. -/
theorem readWord_of_program {address : UInt16} (hlo : Region.ofAddress address = .program)
    (hhi : Region.ofAddress (address + 1) = .program) (cpu : Cpu Console) :
    Cpu.readWord address cpu = .ok (Bus.peekWord cpu.bus address) cpu := by
  obtain ⟨registers, instructions, bus⟩ := cpu
  simp only [Cpu.readWord, Cpu.read, Bus.read, bind, EStateM.bind, Console.read_of_program hlo,
    Console.read_of_program hhi, pure, EStateM.pure]
  rfl

theorem reset_eq (machine : Machine) :
    reset machine = .ok () { machine with
      cpu := {
        registers := { pc := machine.vector resetVector }
        bus := machine.cpu.bus.reset }
      halted := none } := by
  obtain ⟨⟨registers, instructions, bus⟩, config, frame, frames, halted⟩ := machine
  have hlo : Region.ofAddress resetVector = .program := by decide
  have hhi : Region.ofAddress (resetVector + 1) = .program := by decide
  show onCpu Cpu.reset ⟨⟨registers, instructions, bus.reset⟩, config, frame, frames, none⟩ = _
  simp only [onCpu, Cpu.reset_eq, readWord_of_program hlo hhi]
  -- a reset of the devices does not show in the program
  rfl

end Nes.Machine
