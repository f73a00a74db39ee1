import Nes.Proofs.Bare.Picture
import Nes.Proofs.Bare.Processor
import Nes.Proofs.Machine.Halting

/-!
# The bare machine

The whole machine without bounds: a call of it gives `none` where an array would be used out of
bounds, a difference would be negative, an operation would meet an operand that it has no use for,
or a counter would not fit in a machine word. As long as the counters fit, that never happens.

Results:

* `bare_powerOn`: a machine with an accepted image.
* `bare_perform`: one call.
* `bare_outcomes`: every call of any history ends, and with the answer of the machine.
-/

namespace Nes

namespace Bare

/-- The whole machine. -/
structure Machine where
  registers : Registers
  instructions : Nat
  console : Console
  config : MachineConfig
  frame : Array UInt32
  frames : Nat
  halted : Option CpuError

/-! ## Looking -/

/-- The line for the instruction at an address. -/
def Console.disassemble (console : Console) (address : UInt16) : Option String := do
  let b₀ ← console.peek address
  let b₁ ← console.peek (address + 1)
  let b₂ ← console.peek (address + 2)
  let _ ← table[b₀.toNat]?
  return String.ofList (Disassembly.lineChars address b₀ b₁ b₂)

/-- The line for the instruction at the program counter, followed by the registers. -/
def Console.traceLine (console : Console) (r : Registers) : Option String := do
  let line ← console.disassemble r.pc
  return line ++ String.ofList (Disassembly.registersChars r)

namespace Machine

/-- The machine as it is before its first reset. -/
def powerOn (cartridge : Cartridge) (config : MachineConfig) : Option Machine := do
  let console ← Console.ofCartridge cartridge
  return {
    registers := {}
    instructions := 0
    console
    config
    frame := Array.replicate (256 * 240) 0
    frames := 0
    halted := none }

/-! ## Running -/

/-- Put back the processor, if its bus has not been lost. -/
def withCpu (machine : Machine) (cpu : Cpu (Option Console)) : Option Machine := do
  return { machine with
    registers := cpu.registers, instructions := cpu.instructions, console := ← cpu.bus }

/-- Let the processor do something unless the machine is halted, and halt if it fails. -/
def onCpu (machine : Machine) (action : EStateM CpuError (Cpu (Option Console)) Unit) :
    Option (EStateM.Result CpuError Machine Unit) :=
  match machine.halted with
  | some cause => some (.error cause machine)
  | none =>
    match action ⟨machine.registers, machine.instructions, some machine.console⟩ with
    | .ok _ cpu => do return .ok () (← machine.withCpu cpu)
    | .error cause cpu => do
      return .error cause { (← machine.withCpu cpu) with halted := some cause }

/-- Run one instruction, and say so before if that is wanted. -/
def step (machine : Machine) : Option (EStateM.Result CpuError Machine Unit) := do
  if machine.halted.isNone && machine.config.trace then
    let _ ← machine.console.traceLine machine.registers
  machine.onCpu Bare.step

/-- Run `n` instructions, or fewer if one fails. -/
def run : Nat → Machine → Option (EStateM.Result CpuError Machine Unit)
  | 0, machine => some (.ok () machine)
  | n + 1, machine => do
    match ← machine.step with
    | .ok _ machine => run n machine
    | .error cause machine => return .error cause machine

/-- Draw the picture and count the frame. -/
def finishFrame (machine : Machine) : Option Machine := do
  let frame ← Picture.draw machine.console.ppu machine.frame
  let frames ← increment machine.frames
  return { machine with frame, frames }

/-- Vertical blank begins. -/
def blanked (machine : Machine) : Machine :=
  { machine with console := { machine.console with ppu := machine.console.ppu.startVblank } }

/-- Vertical blank, with its interrupt if that is enabled, and the picture. -/
def blank (machine : Machine) : Option (EStateM.Result CpuError Machine Unit) := do
  let machine := machine.blanked
  if machine.console.ppu.nmiEnabled then
    match ← machine.onCpu Cpu.nmi with
    | .error cause machine => return .error cause machine
    | .ok _ machine => return .ok () (← machine.finishFrame)
  else return .ok () (← machine.finishFrame)

/-- Run one frame. -/
def renderFrame (machine : Machine) : Option (EStateM.Result CpuError Machine Unit) := do
  match ← machine.run machine.config.stepsPerFrame with
  | .error cause machine => return .error cause machine
  | .ok _ machine => machine.blank

/-- Reset the devices and the processor. -/
def reset (machine : Machine) : Option (EStateM.Result CpuError Machine Unit) :=
  { machine with console := machine.console.reset, halted := none }.onCpu Cpu.reset

/-! ## Calls -/

open Nes.Machine (Call Answer)

/-- Put back the console after an access. -/
def withConsole {α : Type} (machine : Machine) (result : EStateM.Result BusError Console α) :
    EStateM.Result BusError Machine α :=
  mapState (fun console => { machine with console }) result

/-- The answer to an action that has ended, with the state that it left. -/
def answer {ε α : Type} (ok : α → Machine → Answer) (error : ε → Answer) :
    EStateM.Result ε Machine α → Answer × Machine
  | .ok value machine => (ok value machine, machine)
  | .error cause machine => (error cause, machine)

/-- The answer to a call and the machine after it. -/
def perform (machine : Machine) : Call → Option (Answer × Machine)
  | .step => do return answer (fun _ _ => .done) .stopped (← machine.step)
  | .nmi => do return answer (fun _ _ => .done) .stopped (← machine.onCpu Cpu.nmi)
  | .frame => do return answer (fun _ m => .picture m.frame) .stopped (← machine.renderFrame)
  | .reset => do return answer (fun _ _ => .done) .stopped (← machine.reset)
  | .press socket button pressed => do
    let pads ← machine.console.pads.press socket button pressed
    return (.done, { machine with console := { machine.console with pads } })
  | .setRegisters registers => return (.done, { machine with registers })
  | .read address => do
    let result ← machine.console.read address
    return answer (fun value _ => .byte value) .refused (machine.withConsole result)
  | .write address value => do
    let result ← machine.console.write address value
    return answer (fun _ _ => .done) .refused (machine.withConsole result)
  | .peek address => do return (.byte (← machine.console.peek address), machine)
  | .vector address => do return (.word (← machine.console.peekWord address), machine)
  | .disassemble address => do return (.line (← machine.console.disassemble address), machine)

/-- The answers to a list of calls, each with the machine after it. -/
def outcomes (machine : Machine) : List Call → Option (List (Answer × Machine))
  | [] => some []
  | call :: rest => do
    let outcome ← machine.perform call
    let others ← outcomes outcome.2 rest
    return outcome :: others

end Machine

end Bare

namespace Machine

open Bare (mapState Backed)

/-- The machine without bounds. -/
def bare (machine : Machine) : Bare.Machine where
  registers := machine.cpu.registers
  instructions := machine.cpu.instructions
  console := machine.cpu.bus.bare
  config := machine.config
  frame := machine.frame.toArray
  frames := machine.frames
  halted := machine.halted

theorem bare_powerOn {image : Array UInt8} {cartridge : Cartridge}
    (h : Cartridge.ofImage image = .ok cartridge) (config : MachineConfig) :
    Bare.Machine.powerOn cartridge config = some (powerOn cartridge config).bare := by
  rw [Bare.Machine.powerOn, Console.bare_ofCartridge h]
  rfl

/-! ## Looking -/

theorem bare_disassemble (console : Console) (address : UInt16) :
    console.bare.disassemble address = some (Disassembly.line console address) := by
  unfold Bare.Console.disassemble
  simp only [Console.bare_peek, Option.bind_eq_bind, Option.bind_some, Bare.getElem?_table]
  rfl

theorem bare_traceLine (console : Console) (r : Registers) :
    console.bare.traceLine r = some (Disassembly.traceLine console r) := by
  unfold Bare.Console.traceLine
  rw [bare_disassemble]
  rfl

/-! ## The processor -/

/-- The bare processor of a machine. -/
def bareCpu (machine : Machine) : Cpu (Option Bare.Console) :=
  ⟨machine.cpu.registers, machine.cpu.instructions, some machine.cpu.bus.bare⟩

theorem related_bareCpu (machine : Machine) :
    Cpu.Related Backed machine.cpu.instructions machine.bareCpu machine.cpu :=
  ⟨rfl, rfl, rfl, rfl⟩

theorem eq_of_related {n : Nat} {x : Cpu (Option Bare.Console)} {y : Cpu Console}
    (h : Cpu.Related Backed n x y) : x = ⟨y.registers, y.instructions, some y.bus.bare⟩ := by
  obtain ⟨registers, instructions, bus⟩ := x
  obtain ⟨rfl, hl, hr, hb⟩ := h
  subst hr
  cases hl
  cases hb
  rfl

theorem bare_onCpu (machine : Machine)
    {action : EStateM CpuError (Cpu (Option Bare.Console)) Unit}
    {action' : EStateM CpuError (Cpu Console) Unit}
    (h : machine.halted = none → Agree (fun x y => ∃ n, Cpu.Related Backed n x y)
      (action machine.bareCpu) (action' machine.cpu)) :
    machine.bare.onCpu action = some (mapState bare (onCpu action' machine)) := by
  obtain ⟨cpu, config, frame, frames, halted⟩ := machine
  cases halted with
  | some cause => rfl
  | none =>
    have h := h rfl
    simp only [onCpu, Bare.Machine.onCpu]
    show (match action (bareCpu ⟨cpu, config, frame, frames, none⟩) with
      | .ok _ cpu => _
      | .error cause cpu => _) = _
    dsimp only at h
    generalize action (bareCpu ⟨cpu, config, frame, frames, none⟩) = p at h ⊢
    generalize action' cpu = q at h ⊢
    cases h with
    | ok _ h =>
      obtain ⟨n, h⟩ := h
      rw [eq_of_related h]
      rfl
    | error cause h =>
      obtain ⟨n, h⟩ := h
      rw [eq_of_related h]
      rfl

theorem bare_nmi (machine : Machine) :
    machine.bare.onCpu Cpu.nmi = some (mapState bare (nmi machine)) := by
  refine bare_onCpu machine fun _ => ?_
  exact (Cpu.simulates_nmi Bare.simulation_backed machine.related_bareCpu).mono fun h => ⟨_, h⟩

theorem bare_reset (machine : Machine) :
    machine.bare.reset = some (mapState bare (reset machine)) := by
  let cleared : Machine := { machine.mapConsole Console.reset with halted := none }
  have hcleared : { machine.bare with console := machine.bare.console.reset, halted := none } =
      cleared.bare :=
    congrArg (fun console => { machine.bare with console, halted := none })
      (Console.bare_reset machine.cpu.bus).symm
  rw [Bare.Machine.reset, hcleared]
  refine bare_onCpu cleared fun _ => ?_
  exact Cpu.simulates_reset Bare.simulation_backed cleared.related_bareCpu

/-! ## Steps and runs -/

theorem bare_step (machine : Machine) (h : (final (step machine)).cpu.instructions < UInt64.size) :
    machine.bare.step = some (mapState bare (step machine)) := by
  have hs : machine.bare.onCpu Bare.step = some (mapState bare (step machine)) := by
    refine bare_onCpu machine fun hh => ?_
    rw [step, cpu_final_onCpu hh] at h
    refine (Bare.simulates_step machine.related_bareCpu h).mono fun hm => ?_
    obtain ⟨m, -, hm⟩ := hm
    exact ⟨m, hm⟩
  unfold Bare.Machine.step
  split
  · show (machine.cpu.bus.bare.traceLine machine.cpu.registers).bind _ = _
    rw [bare_traceLine]
    exact hs
  · exact hs

theorem instructions_le_step (machine : Machine) :
    machine.cpu.instructions ≤ (final (step machine)).cpu.instructions :=
  holds_onCpu (P := fun cpu => machine.cpu.instructions ≤ cpu.instructions) (Nat.le_refl _)
    (Cpu.instructions_le_step _)

theorem instructions_le_run (n : Nat) (machine : Machine) :
    machine.cpu.instructions ≤ (final (run n machine)).cpu.instructions := by
  induction n generalizing machine with
  | zero => exact Nat.le_refl _
  | succ n ih =>
    have hs := instructions_le_step machine
    rw [run_succ]
    cases hc : step machine with
    | ok _ machine' =>
      rw [hc] at hs
      exact Nat.le_trans hs (ih machine')
    | error cause machine' =>
      rw [hc] at hs
      exact hs

theorem bare_run (n : Nat) (machine : Machine)
    (h : (final (run n machine)).cpu.instructions < UInt64.size) :
    machine.bare.run n = some (mapState bare (run n machine)) := by
  induction n generalizing machine with
  | zero => rfl
  | succ n ih =>
    have hlt : (final (step machine)).cpu.instructions < UInt64.size := by
      refine Nat.lt_of_le_of_lt ?_ h
      rw [run_succ]
      cases step machine with
      | ok _ machine' => exact instructions_le_run n machine'
      | error cause machine' => exact Nat.le_refl _
    rw [run_succ] at h ⊢
    rw [Bare.Machine.run, bare_step machine hlt]
    cases hc : step machine with
    | ok _ machine' =>
      rw [hc] at h
      exact ih machine' h
    | error cause machine' => rfl

/-! ## Frames -/

theorem bare_finishFrame (machine : Machine) (h : machine.frames + 1 < UInt64.size) :
    machine.bare.finishFrame = some machine.finishFrame.bare := by
  have hd : Bare.Picture.draw machine.bare.console.ppu machine.bare.frame =
      some (Picture.draw machine.cpu.bus.ppu machine.frame).toArray :=
    Picture.bare_draw machine.cpu.bus.ppu machine.frame
  have hi : Bare.increment machine.bare.frames = some (machine.frames + 1) := if_pos h
  unfold Bare.Machine.finishFrame
  rw [hd, hi]
  rfl

theorem bare_blanked (machine : Machine) : machine.bare.blanked = machine.blanked.bare :=
  congrArg (fun ppu => { machine.bare with console := { machine.bare.console with ppu } })
    (Ppu.bare_startVblank machine.cpu.bus.ppu).symm

theorem bare_endFrame (machine : Machine) (h : (final (endFrame machine)).frames < UInt64.size) :
    machine.bare.blank = some (mapState bare (endFrame machine)) := by
  have hn := bare_nmi machine.blanked
  unfold Bare.Machine.blank endFrame at *
  rw [bare_blanked]
  show (if machine.blanked.cpu.bus.ppu.nmiEnabled = true then
    (machine.blanked.bare.onCpu Cpu.nmi).bind _ else _) = _
  by_cases hi : machine.blanked.cpu.bus.ppu.nmiEnabled = true
  · rw [if_pos hi] at h ⊢
    rw [if_pos hi, hn, Option.bind_some]
    cases hc : nmi machine.blanked with
    | error cause machine' => rfl
    | ok _ machine' =>
      rw [hc] at h
      show (machine'.bare.finishFrame).bind _ = _
      rw [bare_finishFrame machine' h]
      rfl
  · rw [if_neg hi] at h ⊢
    rw [if_neg hi]
    show (machine.blanked.bare.finishFrame).bind _ = _
    rw [bare_finishFrame machine.blanked h]
    rfl

theorem bare_renderFrame (machine : Machine)
    (hi : (final (renderFrame machine)).cpu.instructions < UInt64.size)
    (hf : (final (renderFrame machine)).frames < UInt64.size) :
    machine.bare.renderFrame = some (mapState bare (renderFrame machine)) := by
  have hr := bare_run machine.config.stepsPerFrame machine
  unfold Bare.Machine.renderFrame
  show (machine.bare.run machine.config.stepsPerFrame).bind _ = _
  rw [renderFrame_eq] at hi hf ⊢
  cases hc : run machine.config.stepsPerFrame machine with
  | error cause machine' =>
    rw [hc] at hi hr
    rw [hr hi]
    rfl
  | ok _ machine' =>
    rw [hc] at hi hf hr
    dsimp only at hi hf
    rw [instructions_endFrame] at hi
    rw [hr hi]
    exact bare_endFrame machine' hf

/-! ## Calls -/

/-- The counters of the machine fit in machine words. -/
def Counts (machine : Machine) : Prop :=
  machine.cpu.instructions < UInt64.size ∧ machine.frames < UInt64.size

theorem bare_perform (machine : Machine) (call : Call) (h : (machine.perform call).2.Counts) :
    machine.bare.perform call =
      some ((machine.perform call).1, (machine.perform call).2.bare) := by
  cases call with
  | step =>
    rw [perform, state_of] at h
    unfold Bare.Machine.perform
    rw [bare_step machine h.1]
    rw [perform]
    cases step machine <;> rfl
  | nmi =>
    unfold Bare.Machine.perform
    rw [bare_nmi machine, perform]
    cases nmi machine <;> rfl
  | frame =>
    rw [perform, state_of] at h
    unfold Bare.Machine.perform
    rw [bare_renderFrame machine h.1 h.2, perform]
    cases renderFrame machine <;> rfl
  | reset =>
    unfold Bare.Machine.perform
    rw [bare_reset machine, perform]
    cases reset machine <;> rfl
  | press socket button pressed =>
    have hp := Controllers.bare_press machine.cpu.bus.controllers socket button pressed
    unfold Bare.Machine.perform
    show (machine.cpu.bus.controllers.bare.press socket button pressed).bind _ = _
    rw [hp]
    rfl
  | setRegisters registers => rfl
  | read address =>
    unfold Bare.Machine.perform
    show (machine.cpu.bus.bare.read address).bind _ = _
    rw [Console.bare_read, perform]
    simp only [onConsole, Bus.read]
    cases Console.read address machine.cpu.bus <;> rfl
  | write address value =>
    unfold Bare.Machine.perform
    show (machine.cpu.bus.bare.write address value).bind _ = _
    rw [Console.bare_write, perform]
    simp only [onConsole, Bus.write]
    cases Console.write address value machine.cpu.bus <;> rfl
  | peek address =>
    unfold Bare.Machine.perform
    show (machine.cpu.bus.bare.peek address).bind _ = _
    rw [Console.bare_peek]
    rfl
  | vector address =>
    unfold Bare.Machine.perform
    show (machine.cpu.bus.bare.peekWord address).bind _ = _
    rw [Console.bare_peekWord]
    rfl
  | disassemble address =>
    unfold Bare.Machine.perform
    show (machine.cpu.bus.bare.disassemble address).bind _ = _
    rw [bare_disassemble]
    rfl

theorem bare_outcomes (machine : Machine) (calls : List Call)
    (h : ∀ outcome ∈ machine.outcomes calls, outcome.2.Counts) :
    machine.bare.outcomes calls =
      some ((machine.outcomes calls).map fun outcome => (outcome.1, outcome.2.bare)) := by
  induction calls generalizing machine with
  | nil => rfl
  | cons call rest ih =>
    rw [outcomes, List.forall_mem_cons] at h
    unfold Bare.Machine.outcomes
    rw [bare_perform machine call h.1]
    show ((machine.perform call).2.bare.outcomes rest).bind _ = _
    rw [ih _ h.2]
    rfl

/-- **Main theorem.** For every accepted image, every configuration and every history in which the
counters fit in machine words, the bare machine is built and answers every call, and answers and
leaves what the machine does. So no array is used out of bounds, no difference is negative and no
operation meets an operand that it has no use for, in any call. -/
theorem bare_outcomes_powerOn (image : Array UInt8) (cartridge : Cartridge)
    (h : Cartridge.ofImage image = .ok cartridge) (config : MachineConfig) (calls : List Call)
    (hc : ∀ outcome ∈ (powerOn cartridge config).outcomes calls, outcome.2.Counts) :
    ((Bare.Machine.powerOn cartridge config).bind fun machine => machine.outcomes calls) =
      some (((powerOn cartridge config).outcomes calls).map fun outcome =>
        (outcome.1, outcome.2.bare)) := by
  rw [bare_powerOn h, Option.bind_some]
  exact bare_outcomes _ calls hc

theorem outcomes_stop (config : MachineConfig) (h : config.stepsPerFrame = 2) :
    (powerOn stopCartridge config).outcomes [.reset, .frame, .frame] =
      [(.done, (powerOn stopCartridge config).after [.reset]),
        (.picture (atStop config).blanked.finishFrame.frame.toArray,
          (atStop config).blanked.finishFrame),
        (.stopped stopCause, stopped config)] := by
  have hfirst : ((powerOn stopCartridge config).after [.reset]).perform .frame =
      (.picture (atStop config).blanked.finishFrame.frame.toArray,
        (atStop config).blanked.finishFrame) := by
    rw [perform, renderFrame_stop h, Answer.of]
  have hsecond : (atStop config).blanked.finishFrame.perform .frame =
      (.stopped stopCause, stopped config) := by
    rw [perform, renderFrame_atStop h, Answer.of]
  have hreset : (powerOn stopCartridge config).perform .reset =
      (.done, (powerOn stopCartridge config).after [.reset]) := by
    rw [after_cons, after_nil, perform, reset_eq, Answer.of]
  simp only [outcomes, hreset, hfirst, hsecond]

/-- A frame of two instructions goes through, and the next halts the machine. Every instruction is
shown before it runs. -/
theorem bare_outcomes_stop :
    Cartridge.ofImage (Cartridge.bankImage (Cartridge.codeBank stopCode)) = .ok stopCartridge ∧
      ((Bare.Machine.powerOn stopCartridge { stepsPerFrame := 2, trace := true }).bind
          fun machine => machine.outcomes [.reset, .frame, .frame]).map
        (·.map fun outcome => (outcome.2.instructions, outcome.2.frames, outcome.2.halted)) =
      some [(0, 0, none), (2, 1, none), (2, 1, some stopCause)] := by
  have h : Cartridge.ofImage (Cartridge.bankImage (Cartridge.codeBank stopCode)) =
      .ok stopCartridge :=
    Cartridge.ofImage_bankImage (Cartridge.codeBank stopCode)
  have hs := outcomes_stop { stepsPerFrame := 2, trace := true } rfl
  rw [reset_stop] at hs
  have hc : ∀ outcome ∈ (powerOn stopCartridge { stepsPerFrame := 2, trace := true }).outcomes
      [.reset, .frame, .frame], outcome.2.Counts := by
    rw [hs, List.forall_mem_cons, List.forall_mem_cons, List.forall_mem_singleton]
    exact ⟨⟨by decide, by decide⟩, ⟨by decide, by decide⟩, by decide, by decide⟩
  refine ⟨h, ?_⟩
  rw [bare_outcomes_powerOn _ _ h _ _ hc, hs, Option.map_some]
  simp only [List.map_cons, List.map_nil]
  rfl

end Machine

end Nes
