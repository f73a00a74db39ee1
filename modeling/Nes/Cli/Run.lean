import Nes.Cli.Arguments
import Nes.Machine.Notice

/-!
# Running a cartridge from the command line

A run loads the cartridge, starts the machine, renders frames until enough are done or one fails,
and then shows what was asked for. Its outcome is a value: an exit code, the lines of standard
output and the lines of the log.

Results:

* `run_of_not_loaded`: without a cartridge the exit code is 1 and nothing is shown.
-/

namespace Nes.Cli

/-- The exit code of a run that could not load its cartridge. -/
def exitNotLoaded : Nat := 1

/-- The exit code of a run that was halted, and of arguments that cannot be read. -/
def exitHalted : Nat := 2

/-- What a run leaves behind. -/
structure Outcome where
  exitCode : Nat
  output : List String := []
  log : List LogLine := []

/-- A line of the log that the program itself writes. -/
def complaint (text : String) : LogLine := ⟨.error, "famicom_cli", text⟩

/-! ## What is shown -/

/-- What is shown of a cartridge. -/
def cartridgeLines (cartridge : Cartridge) : List String :=
  ["Loaded cartridge:",
    "  PRG ROM: " ++ toString cartridge.program.bytes.size ++ " bytes",
    "  CHR ROM: " ++ toString cartridge.graphics.size ++ " bytes",
    "  Mapper: " ++ toString cartridge.header.mapper.toNat,
    "  Mirroring: " ++ Notice.arrangement cartridge.mirroring,
    "  Save RAM: " ++ toString cartridge.header.hasSaveRam]

/-- A vector, where it leads and the instruction there. The name fills five columns. -/
def vectorLine (machine : Machine) (name : String) (address : UInt16) : String :=
  let target := machine.vector address
  "  " ++ name ++ " $" ++ Hex.word target ++ "  " ++ Disassembly.shortLine machine.cpu.bus target

/-- What is shown of the three vectors (`dump_vectors`). -/
def vectorLines (machine : Machine) : List String :=
  ["", "Vectors:", vectorLine machine "NMI  " nmiVector,
    vectorLine machine "RESET" resetVector, vectorLine machine "IRQ  " irqVector]

/-- What is shown of the processor (`dump_cpu_state`). -/
def cpuLines (machine : Machine) : List String :=
  let r := machine.cpu.registers
  ["", "CPU State:",
    "  A:    $" ++ Hex.byte r.a,
    "  X:    $" ++ Hex.byte r.x,
    "  Y:    $" ++ Hex.byte r.y,
    "  PC:   $" ++ Hex.word r.pc,
    "  SP:   $" ++ Hex.byte r.sp,
    "  P:    $" ++ Hex.byte r.p.bits ++ " (" ++ r.p.text ++ ")",
    "  Instructions: " ++ toString machine.cpu.instructions,
    "  Next: " ++ Disassembly.shortLine machine.cpu.bus r.pc]

/-- What is shown of the picture unit (`dump_ppu_state`). -/
def ppuLines (machine : Machine) : List String :=
  let ppu := machine.cpu.bus.ppu
  let latches := ppu.latches
  ["", "PPU State:",
    "  CTRL:   " ++ Ppu.controlNames.text latches.control,
    "  MASK:   " ++ Ppu.maskNames.text latches.mask,
    "  STATUS: " ++ Ppu.statusNames.text ppu.status,
    "  VRAM address: $" ++ Hex.word latches.vramAddress,
    "  Scroll: (" ++ toString latches.scrollX.toNat ++ ", " ++ toString latches.scrollY.toNat
      ++ ")",
    "  OAM address: $" ++ Hex.byte latches.oamAddress,
    "  Palette: [" ++ ", ".intercalate (ppu.memory.palette.toList.map Hex.byte) ++ "]"]

/-- The lines about a machine that were asked for when the frames are done. -/
def stateLines (options : Options) (machine : Machine) : List String :=
  (if options.dumpCpu then cpuLines machine else [])
    ++ (if options.dumpPpu then ppuLines machine else [])

/-! ## Frames -/

/-- Render `n` frames, or fewer if one fails, and add what they report to `notices`. Everything is
    reported if the machine's configuration says so, and otherwise only a halt. -/
def renderFrames :
    Nat → Array Notice → Machine → Array Notice × EStateM.Result CpuError Machine Unit
  | 0, notices, machine => (notices, .ok () machine)
  | n + 1, notices, machine =>
    let notices := if machine.config.trace then notices ++ machine.frameNotices else notices
    match machine.renderFrame with
    | .ok _ machine => renderFrames n notices machine
    | .error cause machine =>
      (if machine.config.trace then notices else notices.push (.halted cause),
        .error cause machine)

/-! ## Runs -/

/-- Run a machine that is ready, and show what was asked for. -/
def runMachine (options : Options) (machine : Machine) : Outcome :=
  let vectors := if options.vectors then vectorLines machine else []
  let (notices, result) := renderFrames options.frames #[] machine
  let shown (machine : Machine) : List String :=
    vectors ++ ["", "Running " ++ toString options.frames ++ " frames...",
      "Completed " ++ toString machine.frames ++ " frames."] ++ stateLines options machine
  let log := notices.toList.map Notice.line
  match result with
  | .ok _ machine => { exitCode := 0, output := shown machine, log := log }
  | .error cause machine =>
    { exitCode := exitHalted
      output := shown machine
      log := log ++ [complaint ("stopped after " ++ toString machine.frames ++ " frames: "
        ++ cause.message)] }

/-- Run a cartridge. -/
def runCartridge (options : Options) (cartridge : Cartridge) : Outcome :=
  let config : MachineConfig := { stepsPerFrame := options.stepsPerFrame, trace := options.trace }
  let reset := ((Machine.powerOn cartridge config).resetNotices.map Notice.line).toList
  let outcome : Outcome := match Machine.start cartridge config with
    | .ok machine => runMachine options machine
    | .error cause =>
      { exitCode := exitHalted, log := [complaint ("reset failed: " ++ cause.message)] }
  { outcome with output := cartridgeLines cartridge ++ outcome.output, log := reset ++ outcome.log }

/-- Run the cartridge that a file holds. -/
def run (options : Options) (file : FileContents) : Outcome :=
  let loading := (Notice.ofFile file).map Notice.line
  match Cartridge.ofFile options.rom file with
  | .ok cartridge =>
    let outcome := runCartridge options cartridge
    { outcome with log := loading ++ outcome.log }
  | .error cause =>
    { exitCode := exitNotLoaded
      log := loading ++ [complaint ("failed to load " ++ options.rom ++ ": " ++ cause.message)] }

theorem run_of_not_loaded {options : Options} {file : FileContents} {cause : CartridgeError}
    (h : Cartridge.ofFile options.rom file = .error cause) :
    (run options file).exitCode = exitNotLoaded ∧ (run options file).output = [] := by
  simp [run, h]

/-! ## Command lines -/

/-- What is shown when help is asked for. -/
def helpLines : List String :=
  ["Run an iNES cartridge headless and inspect the machine",
    "",
    "Usage: famicom-cli [OPTIONS] --rom <ROM>",
    "",
    "Options:",
    "  -r, --rom <ROM>",
    "          Path to the iNES ROM file",
    "  -f, --frames <FRAMES>",
    "          Number of frames to run [default: 60]",
    "  -s, --steps-per-frame <STEPS_PER_FRAME>",
    "          CPU instructions executed per frame [default: 10000]",
    "  -c, --dump-cpu",
    "          Dump CPU state after execution",
    "  -p, --dump-ppu",
    "          Dump PPU state after execution",
    "  -v, --vectors",
    "          Print interrupt vectors with the instruction at each target",
    "  -t, --trace",
    "          Log every executed instruction",
    "  -h, --help",
    "          Print help"]

/-- What a command line leads to, where `lookup` says what a path leads to. -/
def execute (args : List String) (lookup : String → FileContents) : Outcome :=
  match read args with
  | .misused => { exitCode := exitHalted }
  | .help => { exitCode := 0, output := helpLines }
  | .run options => run options (lookup options.rom)

end Nes.Cli
