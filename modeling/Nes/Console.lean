import Nes.Cartridge.Image
import Nes.Controllers
import Nes.Graphics.Ppu

/-!
# The console's bus

The processor's addresses fall into six regions.

* `$0000`-`$1FFF`: 2048 bytes of memory, four times over.
* `$2000`-`$3FFF`: the registers of the picture unit, every eight bytes.
* `$4000`-`$401F`: the pads and the copy to object memory. The other addresses read as zero and
  ignore what is written.
* `$4020`-`$5FFF`: the expansion area, which is not supported.
* `$6000`-`$7FFF`: 8192 bytes of save memory.
* `$8000`-`$FFFF`: program memory, which cannot be written.

What changes a part takes the console apart first, so that memory is held once and updated in
place.

Results:

* `read_of_ram`, `read_of_saveRam`, `read_of_program`: reading memory changes nothing.
* `read_of_expansion`: what is never read.
-/

namespace Nes

/-- The regions of the processor's address space. -/
inductive Region where
  | ram | ppu | io | expansion | saveRam | program
deriving DecidableEq

/-- The region that an address falls into. -/
def Region.ofAddress (address : UInt16) : Region :=
  if address < 0x2000 then ram
  else if address < 0x4000 then ppu
  else if address < 0x4020 then io
  else if address < 0x6000 then expansion
  else if address < 0x8000 then saveRam
  else program

/-- Everything that the processor's bus reaches. -/
structure Console where
  ram : Vector UInt8 0x800 := Vector.replicate 0x800 0
  saveRam : Vector UInt8 0x2000 := Vector.replicate 0x2000 0
  program : ProgramRom
  ppu : Ppu
  controllers : Controllers := {}

namespace Console

/-- Writing a page number here copies the page to object memory. -/
def oamDma : UInt16 := 0x4014

/-- The first pad, and the strobe line of both. -/
def firstPad : UInt16 := 0x4016

/-- The second pad. -/
def secondPad : UInt16 := 0x4017

/-- The console with a cartridge in it. -/
def ofCartridge (cartridge : Cartridge) : Console where
  program := cartridge.program
  ppu := .ofPattern cartridge.graphics cartridge.mirroring

/-- Reset the devices. Memory stays. -/
def reset : Console → Console
  | ⟨ram, saveRam, program, ppu, controllers⟩ =>
    ⟨ram, saveRam, program, ppu.reset, controllers.reset⟩

/-! ## Devices -/

/-- Do something with the picture unit. -/
def onPpu {α : Type} (action : EStateM BusError Ppu α) : EStateM BusError Console α
  | ⟨ram, saveRam, program, ppu, controllers⟩ =>
    match action ppu with
    | .ok value ppu => .ok value ⟨ram, saveRam, program, ppu, controllers⟩
    | .error cause ppu => .error cause ⟨ram, saveRam, program, ppu, controllers⟩

/-- Change the picture unit. -/
def mapPpu (f : Ppu → Ppu) : Console → Console
  | ⟨ram, saveRam, program, ppu, controllers⟩ => ⟨ram, saveRam, program, f ppu, controllers⟩

/-- Change the pads. -/
def mapControllers (f : Controllers → Controllers) (console : Console) : Console :=
  { console with controllers := f console.controllers }

/-- Read the next button of a pad. -/
def readPad (socket : Socket) (console : Console) : UInt8 × Console :=
  let (bit, controllers) := console.controllers.read socket
  (bit, { console with controllers := controllers })

/-! ## Reading -/

/-- The place of an address in memory. -/
def ramOffset (address : UInt16) : Fin 0x800 := Fin.ofNat 0x800 address.toNat

/-- The place of an address in save memory. -/
def saveRamOffset (address : UInt16) : Fin 0x2000 := Fin.ofNat 0x2000 address.toNat

/-- Read from the pads (`read_io`); the rest of the region reads as zero. -/
def readInput (address : UInt16) (console : Console) : UInt8 × Console :=
  if address = firstPad then console.readPad .one
  else if address = secondPad then console.readPad .two
  else (0, console)

/-- Read an address. A device may change when it is read. -/
def read (address : UInt16) : EStateM BusError Console UInt8 := fun console =>
  match Region.ofAddress address with
  | .ram => .ok console.ram[ramOffset address] console
  | .ppu => onPpu (Ppu.readRegister address) console
  | .io =>
    let (value, console) := console.readInput address
    .ok value console
  | .expansion => .error (.expansionAccess address) console
  | .saveRam => .ok console.saveRam[saveRamOffset address] console
  | .program => .ok (console.program.read address) console

/-- What an address shows without being read. -/
def peek (console : Console) (address : UInt16) : UInt8 :=
  match Region.ofAddress address with
  | .ram => console.ram[ramOffset address]
  | .ppu => console.ppu.peekRegister address
  | .io | .expansion => 0
  | .saveRam => console.saveRam[saveRamOffset address]
  | .program => console.program.read address

/-! ## Writing -/

/-- Read a byte and store it in object memory. -/
def copyToOam (address : UInt16) : EStateM BusError Console Unit := do
  let value ← read address
  modify (mapPpu (Ppu.writeOam value))

/-- Copy a page to object memory, byte after byte, up to the first that cannot be read
(`oam_dma`). -/
def copyPage (page : UInt8) : EStateM BusError Console Unit :=
  (List.finRange 256).forM fun i => copyToOam (word (UInt8.ofNat i) page)

/-- Write to the strobe line or start a copy (`write_io`); the rest of the region ignores what is
written. -/
def writeOutput (address : UInt16) (value : UInt8) : EStateM BusError Console Unit :=
  if address = oamDma then copyPage value
  else if address = firstPad then modify (mapControllers (·.strobe value))
  else return

/-- Write to an address. -/
def write (address : UInt16) (value : UInt8) : EStateM BusError Console Unit := fun console =>
  match Region.ofAddress address with
  | .ram => .ok () { console with ram := console.ram.set (ramOffset address) value }
  | .ppu => onPpu (Ppu.writeRegister address value) console
  | .io => writeOutput address value console
  | .expansion => .error (.expansionAccess address) console
  | .saveRam =>
    .ok () { console with saveRam := console.saveRam.set (saveRamOffset address) value }
  | .program => .error (.programRomWrite address value) console

/-- The console is the bus that a machine's processor is on. -/
instance : Bus Console where
  read := read
  write := write
  peek := peek

/-! ## Reading memory -/

theorem read_of_ram {address : UInt16} (h : Region.ofAddress address = .ram)
    (console : Console) : read address console = .ok (console.peek address) console := by
  simp [read, peek, h]

theorem read_of_saveRam {address : UInt16} (h : Region.ofAddress address = .saveRam)
    (console : Console) : read address console = .ok (console.peek address) console := by
  simp [read, peek, h]

theorem read_of_program {address : UInt16} (h : Region.ofAddress address = .program)
    (console : Console) : read address console = .ok (console.peek address) console := by
  simp [read, peek, h]

/-! ## Refused accesses -/

theorem read_of_expansion {address : UInt16} (h : Region.ofAddress address = .expansion)
    (console : Console) : read address console = .error (.expansionAccess address) console := by
  simp [read, h]

end Console

end Nes
