import Nes.Graphics.Memory
import Nes.Text.FlagSet

/-!
# The picture unit

The processor meets the picture unit through eight registers. Two of them take a pair of bytes and
share one toggle; one is a window on graphics memory, with reads that come one late.

Results:

* `addressStep_toNat`: how far the data register moves its address.
* `readRegister_error`, `writeRegister_error`: an access that fails leaves the unit as it was.
-/

namespace Nes

/-- The eight registers, in the order of their addresses. -/
inductive PpuRegister where
  | control | mask | status | oamAddress | oamData | scroll | address | data
deriving DecidableEq

/-- The register at an address: they repeat every eight bytes. -/
def PpuRegister.ofAddress (address : UInt16) : PpuRegister :=
  match address.toNat % 8 with
  | 0 => control
  | 1 => mask
  | 2 => status
  | 3 => oamAddress
  | 4 => oamData
  | 5 => scroll
  | 6 => PpuRegister.address
  | _ => data

/-- What the registers hold. A reset clears all of it. -/
structure PpuLatches where
  control : UInt8 := 0
  mask : UInt8 := 0
  /-- Vertical blank has begun and the status has not been read since. -/
  vblank : Bool := false
  oamAddress : UInt8 := 0
  scrollX : UInt8 := 0
  scrollY : UInt8 := 0
  /-- The next write to the scroll or address register is the second of a pair. -/
  second : Bool := false
  vramAddress : UInt16 := 0
  /-- What the next delayed read of the data register gives. -/
  readBuffer : UInt8 := 0
deriving DecidableEq

/-- The picture unit: its latches, its object memory and its graphics memory. -/
structure Ppu where
  latches : PpuLatches := {}
  oam : Vector UInt8 256 := Vector.replicate 256 0
  memory : GraphicsMemory

namespace Ppu

/-! ## Flags -/

/-- The flags of the control register. -/
def controlNames : FlagNames where
  register := "PpuCtrl"
  flags := [("NMI_ENABLE", 0x80), ("MASTER_SLAVE", 0x40), ("SPRITE_SIZE", 0x20),
    ("BG_PATTERN_TABLE", 0x10), ("SPR_PATTERN_TABLE", 0x08), ("VRAM_INC", 0x04),
    ("NAMETABLE", 0x03)]

/-- The flags of the mask register. -/
def maskNames : FlagNames where
  register := "PpuMask"
  flags := [("EMPHASIZE_BLUE", 0x80), ("EMPHASIZE_GREEN", 0x40), ("EMPHASIZE_RED", 0x20),
    ("RENDER_SPR", 0x10), ("RENDER_BG", 0x08), ("RENDER_SPR_LEFT", 0x04),
    ("RENDER_BG_LEFT", 0x02), ("GRAYSCALE", 0x01)]

/-- The flags of the status register. -/
def statusNames : FlagNames where
  register := "PpuStatus"
  flags := [("VBLANK", 0x80), ("SPRITE_ZERO_HIT", 0x40), ("SPRITE_OVERFLOW", 0x20)]

/-- The status register. Vertical blank is the only thing that it ever shows. -/
def status (ppu : Ppu) : UInt8 := if ppu.latches.vblank then 0x80 else 0

/-- Vertical blank interrupts the processor (`nmi_enabled`). -/
def nmiEnabled (ppu : Ppu) : Bool := ppu.latches.control &&& 0x80 != 0

/-- The pattern table of the background (`background_pattern_table`). -/
def backgroundTable (ppu : Ppu) : Nat := if ppu.latches.control &&& 0x10 != 0 then 1 else 0

/-- How far an access of the data register moves its address (`increment_vram_addr`). -/
def addressStep (ppu : Ppu) : UInt16 := if ppu.latches.control &&& 0x04 != 0 then 32 else 1

/-- Bit 2 of the control register chooses between the next address and the one 32 further on. -/
theorem addressStep_toNat (ppu : Ppu) :
    ppu.addressStep.toNat = if ppu.latches.control.toNat / 4 % 2 = 1 then 32 else 1 := by
  have hbit : ∀ byte : UInt8, (byte &&& 0x04 != 0) = decide (byte.toNat / 4 % 2 = 1) := by
    decide +kernel
  simp only [addressStep, hbit, decide_eq_true_eq]
  split <;> rfl

/-! ## Construction and reset -/

/-- A picture unit over the pattern bytes of a cartridge. -/
def ofPattern (pattern : Array UInt8) (mirroring : Mirroring) : Ppu where
  memory := .ofPattern pattern mirroring

/-- Clear the latches. Graphics memory, the palette and object memory stay. -/
def reset (ppu : Ppu) : Ppu := { ppu with latches := {} }

/-- Vertical blank begins (`start_vblank`). -/
def startVblank (ppu : Ppu) : Ppu := { ppu with latches := { ppu.latches with vblank := true } }

/-! ## Object memory -/

/-- The byte at the object address. -/
def oamByte (ppu : Ppu) : UInt8 := ppu.oam[(ppu.latches.oamAddress.toFin : Fin 256)]

/-- Move the object address on by one. -/
def advanceOam (latches : PpuLatches) : PpuLatches :=
  { latches with oamAddress := latches.oamAddress + 1 }

/-- Store a byte at the object address and move on (`write_oam`). -/
def writeOam (value : UInt8) : Ppu → Ppu
  | ⟨latches, oam, memory⟩ =>
    let address := latches.oamAddress
    ⟨advanceOam latches, oam.set address.toNat value address.toNat_lt, memory⟩

/-! ## The data register -/

/-- The first address of the palette. -/
def paletteStart : Nat := 0x3F00

/-- What a read of the data register gives: the byte itself from the palette, and otherwise the
    byte that the read before it fetched. -/
def dataValue (ppu : Ppu) : UInt8 :=
  if ppu.latches.vramAddress.toNat % 0x4000 < paletteStart then ppu.latches.readBuffer
  else ppu.memory.read ppu.latches.vramAddress

/-- Read the data register (`read_data`): keep the byte at the address for the next read and move
on. -/
def readData (ppu : Ppu) : UInt8 × Ppu :=
  (ppu.dataValue, { ppu with latches := { ppu.latches with
    readBuffer := ppu.memory.read ppu.latches.vramAddress
    vramAddress := ppu.latches.vramAddress + ppu.addressStep } })

/-- Store a byte in graphics memory and move on. -/
def storeData (value : UInt8) (ppu : Ppu) : Ppu :=
  let step := ppu.addressStep
  match ppu with
  | ⟨latches, oam, memory⟩ =>
    ⟨{ latches with vramAddress := latches.vramAddress + step }, oam,
      memory.write latches.vramAddress value⟩

/-- Write the data register (`write_data`). Nothing happens if graphics memory refuses. -/
def writeData (value : UInt8) : EStateM BusError Ppu Unit := fun ppu =>
  if ppu.memory.accepts ppu.latches.vramAddress then .ok () (ppu.storeData value)
  else .error (.patternRomWrite (UInt16.ofNat (ppu.latches.vramAddress.toNat % 0x4000)) value) ppu

/-! ## The registers -/

/-- The first byte of a pair is horizontal, the second vertical. -/
def writeScroll (value : UInt8) (latches : PpuLatches) : PpuLatches :=
  if latches.second then { latches with scrollY := value, second := false }
  else { latches with scrollX := value, second := true }

/-- The first byte of a pair is the high one, the second the low one. -/
def writeAddress (value : UInt8) (latches : PpuLatches) : PpuLatches :=
  if latches.second then
    { latches with vramAddress := word value (highByte latches.vramAddress), second := false }
  else { latches with vramAddress := word (lowByte latches.vramAddress) value, second := true }

/-- Read a register (`read_register`). Reading the status ends vertical blank and starts the next
pair over. -/
def readRegister (address : UInt16) : EStateM BusError Ppu UInt8 := fun ppu =>
  match PpuRegister.ofAddress address with
  | .status =>
    .ok ppu.status { ppu with latches := { ppu.latches with vblank := false, second := false } }
  | .oamData => .ok ppu.oamByte { ppu with latches := advanceOam ppu.latches }
  | .data =>
    let (value, ppu) := ppu.readData
    .ok value ppu
  | .control | .mask | .oamAddress | .scroll | .address =>
    .error (.writeOnlyRegister address) ppu

/-- Write a register (`write_register`). -/
def writeRegister (address : UInt16) (value : UInt8) : EStateM BusError Ppu Unit := fun ppu =>
  match PpuRegister.ofAddress address with
  | .control => .ok () { ppu with latches := { ppu.latches with control := value } }
  | .mask => .ok () { ppu with latches := { ppu.latches with mask := value } }
  | .status => .error (.readOnlyRegister address) ppu
  | .oamAddress => .ok () { ppu with latches := { ppu.latches with oamAddress := value } }
  | .oamData => .ok () (ppu.writeOam value)
  | .scroll => .ok () { ppu with latches := writeScroll value ppu.latches }
  | .address => .ok () { ppu with latches := writeAddress value ppu.latches }
  | .data => writeData value ppu

/-- What a register shows without being read (`peek_register`). -/
def peekRegister (ppu : Ppu) (address : UInt16) : UInt8 :=
  match PpuRegister.ofAddress address with
  | .status => ppu.status
  | .oamData => ppu.oamByte
  | .data => ppu.latches.readBuffer
  | .control | .mask | .oamAddress | .scroll | .address => 0

/-! ## Failed accesses -/

theorem readRegister_error {address : UInt16} {cause : BusError} {ppu ppu' : Ppu}
    (h : readRegister address ppu = .error cause ppu') :
    cause = .writeOnlyRegister address ∧ ppu' = ppu := by
  unfold readRegister at h
  split at h <;> cases h <;> exact ⟨rfl, rfl⟩

theorem writeData_error {value : UInt8} {cause : BusError} {ppu ppu' : Ppu}
    (h : writeData value ppu = .error cause ppu') : ppu' = ppu := by
  unfold writeData at h
  split at h <;> cases h
  rfl

theorem writeRegister_error {address : UInt16} {value : UInt8} {cause : BusError}
    {ppu ppu' : Ppu} (h : writeRegister address value ppu = .error cause ppu') : ppu' = ppu := by
  unfold writeRegister at h
  split at h
  case h_3 => cases h; rfl
  case h_8 => exact writeData_error h
  all_goals cases h

end Ppu

end Nes
