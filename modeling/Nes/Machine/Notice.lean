import Nes.Bus.Recorder
import Nes.Machine.Basic
import Nes.Text.PlainText

/-!
# Notices

What the machine has to report is a function of what it does: a notice follows from an image that
is read, from a write to a device, from an instruction that is about to run, or from a step that
fails. So the machine itself keeps no record, and the notices of a run are found by watching the
accesses of the same run.
-/

namespace Nes

/-- How much a notice matters, from most to least. -/
inductive Level where
  | error | warn | info | debug | trace
deriving DecidableEq

namespace Level

/-- The level as it stands in a line of the log. -/
def name : Level → String
  | error => "ERROR" | warn => "WARN" | info => "INFO" | debug => "DEBUG" | trace => "TRACE"

end Level

/-- One line of a log. -/
structure LogLine where
  level : Level
  /-- The part of the program that speaks. -/
  target : String
  text : String

/-- A line as it is printed, with the newline that ends it. A log is plain text, and if the text
    goes over several lines, those after the first are set in by four spaces. -/
def LogLine.render (line : LogLine) : String :=
  PlainText.ofString (line.level.name ++ " " ++ line.target ++ ": "
    ++ line.text.replace "\n" "\n    " ++ "\n")

/-- Something that the machine reports. -/
inductive Notice where
  /-- A trainer was passed over. -/
  | trainerSkipped
  /-- A cartridge was loaded. -/
  | cartridgeLoaded (header : Header)
  /-- A reset ended with this program counter. -/
  | resetDone (pc : UInt16)
  /-- The machine came to a halt. -/
  | halted (cause : CpuError)
  /-- The control register of the picture unit was written. -/
  | controlWritten (value : UInt8)
  /-- A copy of a page to object memory began. -/
  | copyStarted (page : UInt8)
  /-- An instruction is about to run. -/
  | instruction (line : String)

namespace Notice

/-- The word for an arrangement of name tables. -/
def arrangement : Mirroring → String
  | .horizontal => "Horizontal" | .vertical => "Vertical" | .fourScreen => "FourScreen"

/-- What a notice says in a log, and who says it. -/
def line : Notice → LogLine
  | trainerSkipped =>
    ⟨.warn, "famicom_core::cartridge",
      "skipping " ++ toString Header.trainerSize ++ "-byte trainer"⟩
  | cartridgeLoaded header =>
    ⟨.info, "famicom_core::cartridge",
      "cartridge: " ++ toString header.programBanks.toNat ++ " x 16KB PRG, "
        ++ toString header.graphicsBanks.toNat ++ " x 8KB CHR, mapper "
        ++ toString header.mapper.toNat ++ ", " ++ arrangement header.mirroring ++ " mirroring"⟩
  | resetDone pc => ⟨.info, "famicom_core::system", "reset: PC = $" ++ Hex.word pc⟩
  | halted cause => ⟨.error, "famicom_core::system", "machine halted: " ++ cause.message⟩
  | controlWritten value => ⟨.debug, "famicom_core::ppu", "PPUCTRL = $" ++ Hex.byte value⟩
  | copyStarted page => ⟨.debug, "famicom_core::bus", "OAM DMA from $" ++ Hex.byte page ++ "00"⟩
  | instruction text => ⟨.trace, "famicom_core::system", text⟩

/-! ## Images -/

/-- What reading an image reports. The trainer comes up before the size is checked. -/
def ofImage (image : Array UInt8) : List Notice :=
  match Header.parse image with
  | .error _ => []
  | .ok header =>
    if header.fault?.isSome then []
    else
      (if header.hasTrainer then [trainerSkipped] else [])
        ++ (if image.size < header.imageSize then [] else [cartridgeLoaded header])

/-- What loading a file reports. -/
def ofFile : FileContents → List Notice
  | .bytes image => ofImage image
  | .missing | .unreadable _ => []

/-! ## Writes -/

/-- What a write to a register of the picture unit reports. -/
def ofRegisterWrite? (address : UInt16) (value : UInt8) : Option Notice :=
  match PpuRegister.ofAddress address with
  | .control => some (controlWritten value)
  | _ => none

/-- What a write to the console reports, whether it fails or not. -/
def ofWrite? (address : UInt16) (value : UInt8) : Option Notice :=
  match Region.ofAddress address with
  | .ppu => ofRegisterWrite? address value
  | .io => if address = Console.oamDma then some (copyStarted value) else none
  | _ => none

/-- What an access to the console reports. -/
def ofAccess? (access : Access) : Option Notice :=
  access.attempt?.bind fun (address, value) => ofWrite? address value

end Notice

namespace Machine

/-! ## Runs -/

/-- The processor with its accesses watched. -/
def watched (machine : Machine) : Cpu (Recorder Console) :=
  ⟨machine.cpu.registers, machine.cpu.instructions, { bus := machine.cpu.bus }⟩

/-- What the processor's doing something reports: the accesses, and the halt if it fails. -/
def noticesOf (action : EStateM CpuError (Cpu (Recorder Console)) Unit) (machine : Machine) :
    Array Notice :=
  match action machine.watched with
  | .ok _ cpu => cpu.bus.accesses.filterMap Notice.ofAccess?
  | .error cause cpu => (cpu.bus.accesses.filterMap Notice.ofAccess?).push (.halted cause)

/-- What a step reports. -/
def stepNotices (machine : Machine) : Array Notice :=
  if machine.halted.isSome then #[]
  else
    let announced : Array Notice :=
      if machine.config.trace then
        #[.instruction (Disassembly.traceLine machine.cpu.bus machine.cpu.registers)]
      else #[]
    announced ++ machine.noticesOf Cpu.step

/-- What an interrupt reports. -/
def nmiNotices (machine : Machine) : Array Notice :=
  if machine.halted.isSome then #[] else machine.noticesOf Cpu.nmi

/-- What a reset reports. -/
def resetNotices (machine : Machine) : Array Notice :=
  match reset machine with
  | .ok _ machine => #[.resetDone machine.cpu.registers.pc]
  | .error cause _ => #[.halted cause]

/-- Add to `notices` what a run of `n` steps reports, and give how the run ends. -/
def runNotices : Nat → Array Notice → Machine → Array Notice × EStateM.Result CpuError Machine Unit
  | 0, notices, machine => (notices, .ok () machine)
  | n + 1, notices, machine =>
    let notices := notices ++ machine.stepNotices
    match step machine with
    | .ok _ machine => runNotices n notices machine
    | .error cause machine => (notices, .error cause machine)

/-- What a frame reports. -/
def frameNotices (machine : Machine) : Array Notice :=
  match runNotices machine.config.stepsPerFrame #[] machine with
  | (notices, .error ..) => notices
  | (notices, .ok _ machine) =>
    if machine.cpu.bus.ppu.nmiEnabled then notices ++ machine.nmiNotices else notices

end Machine

end Nes
