import Nes.Console
import Nes.Cpu.Disassembly
import Nes.Cpu.Execution
import Nes.Graphics.Picture

/-!
# The machine

The whole machine is a processor on the console's bus, driven frame by frame. A step that fails
halts the machine: from then on no instruction and no interrupt runs until a reset.

A name in brackets in the text above a definition, such as `render_frame` above `renderFrame`, is
that of the routine of the machine which the definition describes.

Results:

* `step_of_halted`, `nmi_of_halted`: a halted machine repeats its error and changes nothing.
-/

namespace Nes

/-- How the machine is run. -/
structure MachineConfig where
  /-- Instructions before vertical blank begins. -/
  stepsPerFrame : Nat := 10000
  /-- Report every instruction. -/
  trace : Bool := false
deriving DecidableEq

/-- The whole machine. -/
structure Machine where
  cpu : Cpu Console
  config : MachineConfig := {}
  /-- The pixels of the last frame. -/
  frame : Vector UInt32 (Picture.columns * Picture.rows) := Vector.replicate _ 0
  /-- Frames completed since the machine was built. -/
  frames : Nat := 0
  /-- Why the machine stands still, if it does. -/
  halted : Option CpuError := none

namespace Machine

/-- Let the processor do something unless the machine is halted, and halt if it fails (`halt`). -/
def onCpu (action : EStateM CpuError (Cpu Console) Unit) : EStateM CpuError Machine Unit
  | ⟨cpu, config, frame, frames, some cause⟩ =>
    .error cause ⟨cpu, config, frame, frames, some cause⟩
  | ⟨cpu, config, frame, frames, none⟩ =>
    match action cpu with
    | .ok _ cpu => .ok () ⟨cpu, config, frame, frames, none⟩
    | .error cause cpu => .error cause ⟨cpu, config, frame, frames, some cause⟩

/-- Change the console outside of the processor's control. -/
def mapConsole (f : Console → Console) : Machine → Machine
  | ⟨⟨registers, instructions, bus⟩, config, frame, frames, halted⟩ =>
    ⟨⟨registers, instructions, f bus⟩, config, frame, frames, halted⟩

/-- Access the console outside of the processor's control. The machine does not halt if the
    access fails. -/
def onConsole {α : Type} (action : EStateM BusError Console α) : EStateM BusError Machine α
  | ⟨⟨registers, instructions, bus⟩, config, frame, frames, halted⟩ =>
    match action bus with
    | .ok value bus => .ok value ⟨⟨registers, instructions, bus⟩, config, frame, frames, halted⟩
    | .error cause bus =>
      .error cause ⟨⟨registers, instructions, bus⟩, config, frame, frames, halted⟩

/-! ## Running -/

/-- Run one instruction. -/
def step : EStateM CpuError Machine Unit := onCpu Cpu.step

/-- Run `n` instructions, or fewer if one fails. -/
def run : Nat → EStateM CpuError Machine Unit
  | 0 => return
  | n + 1 => do
    step
    run n

/-- Deliver a non-maskable interrupt. -/
def nmi : EStateM CpuError Machine Unit := onCpu Cpu.nmi

/-- Reset the devices and the processor. A halted machine runs again. -/
def reset : EStateM CpuError Machine Unit := fun machine =>
  onCpu Cpu.reset { machine.mapConsole Console.reset with halted := none }

/-- Draw the picture and count the frame. -/
def finishFrame : Machine → Machine
  | ⟨cpu, config, frame, frames, halted⟩ =>
    ⟨cpu, config, Picture.draw cpu.bus.ppu frame, frames + 1, halted⟩

/-- Run one frame (`render_frame`): the instructions before vertical blank, vertical blank with its
    interrupt if that is enabled, and the picture. -/
def renderFrame : EStateM CpuError Machine Unit := do
  run (← get).config.stepsPerFrame
  modify (mapConsole (Console.mapPpu Ppu.startVblank))
  if (← get).cpu.bus.ppu.nmiEnabled then nmi
  modify finishFrame

/-- Press or release a button (`set_controller_line`). -/
def press (machine : Machine) (socket : Socket) (button : Button) (pressed : Bool) : Machine :=
  machine.mapConsole (Console.mapControllers (·.press socket button pressed))

/-! ## Construction -/

/-- The machine as it is before its first reset. -/
def powerOn (cartridge : Cartridge) (config : MachineConfig) : Machine where
  cpu := { bus := .ofCartridge cartridge }
  config := config

/-- A machine ready to run (`with_config`). -/
def start (cartridge : Cartridge) (config : MachineConfig) : Except CpuError Machine :=
  match reset (powerOn cartridge config) with
  | .ok _ machine => .ok machine
  | .error cause _ => .error cause

/-! ## Looking -/

/-- The address that an interrupt vector holds. -/
def vector (machine : Machine) (address : UInt16) : UInt16 := Bus.peekWord machine.cpu.bus address

/-- The line for the instruction at an address (`disassemble_at`). -/
def disassemble (machine : Machine) (address : UInt16) : String :=
  Disassembly.line machine.cpu.bus address

/-! ## Halting -/

theorem onCpu_of_halted {machine : Machine} {cause : CpuError} (h : machine.halted = some cause)
    (action : EStateM CpuError (Cpu Console) Unit) :
    onCpu action machine = .error cause machine := by
  obtain ⟨cpu, config, frame, frames, halted⟩ := machine
  cases h
  rfl

theorem step_of_halted {machine : Machine} {cause : CpuError} (h : machine.halted = some cause) :
    step machine = .error cause machine :=
  onCpu_of_halted h _

theorem nmi_of_halted {machine : Machine} {cause : CpuError} (h : machine.halted = some cause) :
    nmi machine = .error cause machine :=
  onCpu_of_halted h _

end Machine

end Nes
