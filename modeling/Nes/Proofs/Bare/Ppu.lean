import Nes.Graphics.Ppu
import Nes.Proofs.Bare.Arrays

/-!
# The bare picture unit

Registers, object memory, palette, pattern memory and name table memory, and a table of sixteen
windows that says where in pattern or name table memory each of them begins. The status register is
a byte here, in which vertical blank is set and cleared as one of its bits: that no other bit is
ever set is proved.

Results:

* `bare_ofPattern`: the table of windows as it is filled in.
* `bare_readRegister`, `bare_writeRegister`, `bare_peekRegister`, `bare_writeOam`: no access goes
  out of bounds, and each does what the picture unit does.
-/

namespace Nes

namespace Bare

/-- What lies behind a window, and where it begins there. -/
inductive Source where
  | pattern (base : Nat)
  | nametable (base : Nat)
deriving DecidableEq

/-- The picture unit. -/
structure Ppu where
  control : UInt8 := 0
  mask : UInt8 := 0
  status : UInt8 := 0
  oamAddress : UInt8 := 0
  oam : Array UInt8
  /-- Horizontal and vertical. -/
  scroll : Array UInt8 := #[0, 0]
  second : Bool := false
  vramAddress : UInt16 := 0
  readBuffer : UInt8 := 0
  palette : Array UInt8
  banks : Array Source
  pattern : Array UInt8
  writable : Bool
  nametables : Array UInt8

namespace Ppu

/-! ## Construction -/

/-- The table of windows: pattern memory from end to end, and the name tables twice. -/
def mapBanks (mirroring : Mirroring) : Option (Array Source) :=
  let banks := Array.ofFn fun w : Fin 16 =>
    if w.val < 8 then Source.pattern (w.val * pageSize) else .pattern 0
  (List.finRange 4).foldlM (fun banks i => do
    let source := Source.nametable (mirroring.pages[i].val * pageSize)
    let banks ← put banks (8 + i.val) source
    put banks (8 + 4 + i.val) source) banks

/-- Cut an array or fill it up with zeros. -/
def resize (bytes : Array UInt8) (n : Nat) : Array UInt8 :=
  bytes.extract 0 n ++ Array.replicate (n - bytes.size) 0

/-- A picture unit over the pattern bytes of a cartridge. -/
def ofPattern (pattern : Array UInt8) (mirroring : Mirroring) : Option Ppu := do
  let banks ← mapBanks mirroring
  return {
    oam := Array.replicate 256 0
    palette := Array.replicate 32 0
    banks
    pattern := resize pattern 0x2000
    writable := pattern.isEmpty
    nametables := Array.replicate 0x1000 0 }

/-- Clear the registers. -/
def reset (ppu : Ppu) : Ppu :=
  { ppu with
    control := 0, mask := 0, status := 0, oamAddress := 0, scroll := #[0, 0], second := false
    vramAddress := 0, readBuffer := 0 }

/-- Vertical blank begins. -/
def startVblank (ppu : Ppu) : Ppu := { ppu with status := ppu.status ||| 0x80 }

/-! ## Flags -/

/-- Vertical blank interrupts the processor. -/
def nmiEnabled (ppu : Ppu) : Bool := ppu.control &&& 0x80 != 0

/-- Move the address of the data register on. -/
def advance (ppu : Ppu) : Ppu :=
  let step : UInt16 := if ppu.control &&& 0x04 != 0 then 32 else 1
  { ppu with vramAddress := ppu.vramAddress + step }

/-! ## Memory -/

/-- The byte at an address below the palette. -/
def bankByte (ppu : Ppu) (address : UInt16) : Option UInt8 := do
  let offset := address.toNat % pageSize
  match ← ppu.banks[address.toNat / pageSize]? with
  | .pattern base => ppu.pattern[base + offset]?
  | .nametable base => ppu.nametables[base + offset]?

/-- `length` bytes from the beginning of a window. -/
def window (ppu : Ppu) (w length : Nat) : Option (Array UInt8) := do
  match ← ppu.banks[w]? with
  | .pattern base => slice? ppu.pattern base length
  | .nametable base => slice? ppu.nametables base length

/-- A name table with its attribute bytes. -/
def nametable (ppu : Ppu) (index : Nat) : Option (Array UInt8) :=
  ppu.window (8 + (index &&& 3)) 0x400

/-- A pattern table. -/
def patternTable (ppu : Ppu) (index : Nat) : Option (Array UInt8) :=
  ppu.window ((index &&& 1) * 4) 0x1000

/-- The pattern table of the background. -/
def backgroundTable (ppu : Ppu) : Option (Array UInt8) :=
  ppu.patternTable (ppu.control &&& 0x10 != 0).toNat

/-- Store in the palette. -/
def writePalette (ppu : Ppu) (address : UInt16) (value : UInt8) : Option Ppu := do
  let value := value &&& 0x3F
  if address &&& 0x0003 != 0 then
    let palette ← put ppu.palette (address &&& 0x1F).toNat value
    return { ppu with palette }
  else
    let entry := (address &&& 0x0F).toNat
    let palette ← put ppu.palette entry value
    let palette ← put palette (entry ||| 0x10) value
    return { ppu with palette }

/-- Store a byte at the object address and move on. -/
def writeOam (ppu : Ppu) (value : UInt8) : Option Ppu := do
  let oam ← put ppu.oam ppu.oamAddress.toNat value
  return { ppu with oam, oamAddress := ppu.oamAddress + 1 }

/-! ## Registers -/

/-- Read the data register. -/
def readData (ppu : Ppu) : Option (UInt8 × Ppu) := do
  let address := ppu.vramAddress &&& 0x3FFF
  if address < 0x3F00 then
    let byte ← ppu.bankByte address
    return (ppu.readBuffer, { ppu with readBuffer := byte })
  else
    let value ← ppu.palette[(address &&& 0x1F).toNat]?
    return (value, { ppu with readBuffer := value })

/-- Write the data register. -/
def writeData (ppu : Ppu) (value : UInt8) : Option (EStateM.Result BusError Ppu Unit) := do
  let address := ppu.vramAddress &&& 0x3FFF
  if address ≥ 0x3F00 then
    return .ok () (← ppu.writePalette address value).advance
  else
    let offset := address.toNat % pageSize
    match ← ppu.banks[address.toNat / pageSize]? with
    | .pattern base =>
      if ppu.writable then
        let pattern ← put ppu.pattern (base + offset) value
        return .ok () { ppu with pattern }.advance
      else return .error (.patternRomWrite address value) ppu
    | .nametable base =>
      let nametables ← put ppu.nametables (base + offset) value
      return .ok () { ppu with nametables }.advance

/-- Read a register. -/
def readRegister (ppu : Ppu) (address : UInt16) :
    Option (EStateM.Result BusError Ppu UInt8) := do
  match PpuRegister.ofAddress address with
  | .status =>
    return .ok ppu.status { ppu with status := ppu.status &&& ~~~0x80, second := false }
  | .oamData =>
    let value ← ppu.oam[ppu.oamAddress.toNat]?
    return .ok value { ppu with oamAddress := ppu.oamAddress + 1 }
  | .data =>
    let (value, ppu) ← ppu.readData
    return .ok value ppu.advance
  | .control | .mask | .oamAddress | .scroll | .address =>
    return .error (.writeOnlyRegister address) ppu

/-- Write a register. -/
def writeRegister (ppu : Ppu) (address : UInt16) (value : UInt8) :
    Option (EStateM.Result BusError Ppu Unit) := do
  match PpuRegister.ofAddress address with
  | .control => return .ok () { ppu with control := value }
  | .mask => return .ok () { ppu with mask := value }
  | .status => return .error (.readOnlyRegister address) ppu
  | .oamAddress => return .ok () { ppu with oamAddress := value }
  | .oamData => return .ok () (← ppu.writeOam value)
  | .scroll =>
    let scroll ← put ppu.scroll ppu.second.toNat value
    return .ok () { ppu with scroll, second := !ppu.second }
  | .address =>
    let vramAddress :=
      if ppu.second then word value (highByte ppu.vramAddress)
      else word (lowByte ppu.vramAddress) value
    return .ok () { ppu with vramAddress, second := !ppu.second }
  | .data => ppu.writeData value

/-- What a register shows without being read. -/
def peekRegister (ppu : Ppu) (address : UInt16) : Option UInt8 :=
  match PpuRegister.ofAddress address with
  | .status => some ppu.status
  | .oamData => ppu.oam[ppu.oamAddress.toNat]?
  | .data => some ppu.readBuffer
  | .control | .mask | .oamAddress | .scroll | .address => some 0

end Ppu

end Bare

/-- A bank by where it begins. -/
def Bank.bare : Bank → Bare.Source
  | .pattern page => .pattern (page.val * pageSize)
  | .nametable page => .nametable (page.val * pageSize)

/-- The bank behind each window. -/
def Mirroring.banks (mirroring : Mirroring) : Vector Bare.Source 16 :=
  Vector.ofFn fun w => (mirroring.bank w).bare

namespace Ppu

open Bare (mapState put put_toArray getElem?_toArray)

/-- The picture unit without bounds. -/
def bare (ppu : Ppu) : Bare.Ppu where
  control := ppu.latches.control
  mask := ppu.latches.mask
  status := ppu.status
  oamAddress := ppu.latches.oamAddress
  oam := ppu.oam.toArray
  scroll := #[ppu.latches.scrollX, ppu.latches.scrollY]
  second := ppu.latches.second
  vramAddress := ppu.latches.vramAddress
  readBuffer := ppu.latches.readBuffer
  palette := ppu.memory.palette.toArray
  banks := ppu.memory.mirroring.banks.toArray
  pattern := ppu.memory.pattern.toArray
  writable := ppu.memory.writable
  nametables := ppu.memory.nametables.toArray

theorem bare_reset (ppu : Ppu) : ppu.reset.bare = ppu.bare.reset := rfl

/-- Without vertical blank the status register is zero. -/
theorem status_and_not (ppu : Ppu) : ppu.status &&& ~~~0x80 = 0 := by
  unfold status
  split <;> decide

/-- Vertical blank is set as one bit of the byte. -/
theorem bare_startVblank (ppu : Ppu) : ppu.startVblank.bare = ppu.bare.startVblank := by
  have hstatus : ppu.status ||| 0x80 = 0x80 := by
    unfold status
    split <;> decide
  exact congrArg (fun status => { ppu.bare with status }) hstatus.symm

/-! ## Construction -/

/-- The sixteen windows come out as the arrangement has them. -/
theorem mapBanks_eq (mirroring : Mirroring) :
    Bare.Ppu.mapBanks mirroring = some mirroring.banks.toArray := by
  cases mirroring <;> decide

/-- Memory that is cut or filled up to a size. -/
theorem resize_eq (bytes : Array UInt8) (n : Nat) :
    Bare.Ppu.resize bytes n = (Vector.ofFn fun i : Fin n => bytes[i.val]?.getD 0).toArray := by
  apply Array.ext
  · rw [Bare.Ppu.resize, Array.size_append, Array.size_extract, Array.size_replicate,
      Vector.size_toArray]
    omega
  · intro i _ hi
    rw [Vector.size_toArray] at hi
    rw [Vector.getElem_toArray, Vector.getElem_ofFn]
    simp only [Bare.Ppu.resize, Array.getElem_append, Array.size_extract, Array.getElem_extract,
      Array.getElem_replicate, Nat.zero_add]
    split
    next h => rw [Array.getElem?_eq_getElem (by omega), Option.getD_some]
    next h => rw [Array.getElem?_eq_none (by omega), Option.getD_none]

/-- No index fails at power on. -/
theorem bare_ofPattern (pattern : Array UInt8) (mirroring : Mirroring) :
    Bare.Ppu.ofPattern pattern mirroring = some (ofPattern pattern mirroring).bare := by
  rw [Bare.Ppu.ofPattern, mapBanks_eq, resize_eq]
  rfl

/-! ## Object memory -/

/-- The address of object memory is a byte, and there are 256 of them. -/
theorem getElem?_oam (ppu : Ppu) : ppu.bare.oam[ppu.bare.oamAddress.toNat]? = some ppu.oamByte :=
  getElem?_toArray _ ppu.latches.oamAddress.toNat_lt

theorem bare_writeOam (ppu : Ppu) (value : UInt8) :
    ppu.bare.writeOam value = some (ppu.writeOam value).bare := by
  have h := put_toArray ppu.oam ppu.latches.oamAddress.toNat_lt value
  show (put ppu.oam.toArray ppu.latches.oamAddress.toNat value).bind _ = _
  rw [h]
  rfl

/-! ## Graphics memory -/

theorem address_and (a : UInt16) : (a &&& 0x3FFF).toNat = a.toNat % 0x4000 := by
  rw [UInt16.toNat_and]
  exact Nat.and_two_pow_sub_one_eq_mod _ 14

/-- The table of windows has all sixteen. -/
theorem getElem?_banks (ppu : Ppu) {w : Nat} (h : w < 16) :
    ppu.bare.banks[w]? = some (ppu.memory.mirroring.bank ⟨w, h⟩).bare := by
  refine (getElem?_toArray _ h).trans ?_
  rw [Mirroring.banks, Vector.getElem_ofFn]

section

variable {mirroring : Mirroring} {address : UInt16}

theorem window_lt (h : address.toNat % 0x4000 < 0x3F00) :
    address.toNat % 0x4000 / pageSize < 16 := by
  rw [pageSize]
  omega

/-- A place in a page is a place in the memory that the page belongs to. -/
theorem place_lt {pages : Nat} (page : Fin pages) (a : Nat) :
    page.val * pageSize + a % pageSize < pages * pageSize := by
  have h : (page.val + 1) * pageSize ≤ pages * pageSize := Nat.mul_le_mul_right _ page.isLt
  have ha : a % pageSize < pageSize := Nat.mod_lt _ (by decide)
  rw [Nat.succ_mul] at h
  omega

theorem cell_of_pattern (h : address.toNat % 0x4000 < 0x3F00) {page : Fin 8}
    (hb : mirroring.bank ⟨address.toNat % 0x4000 / pageSize, window_lt h⟩ = .pattern page) :
    mirroring.cell address =
      .pattern ⟨page.val * pageSize + address.toNat % 0x4000 % pageSize, place_lt page _⟩ := by
  unfold Mirroring.cell
  simp only [dif_pos h, hb]

theorem cell_of_nametable (h : address.toNat % 0x4000 < 0x3F00) {page : Fin 4}
    (hb : mirroring.bank ⟨address.toNat % 0x4000 / pageSize, window_lt h⟩ = .nametable page) :
    mirroring.cell address =
      .nametable ⟨page.val * pageSize + address.toNat % 0x4000 % pageSize, place_lt page _⟩ := by
  unfold Mirroring.cell
  simp only [dif_pos h, hb]

theorem cell_of_palette (h : ¬address.toNat % 0x4000 < 0x3F00) :
    mirroring.cell address = .palette ⟨address.toNat % 0x4000 % 32, Nat.mod_lt _ (by decide)⟩ := by
  unfold Mirroring.cell
  exact dif_neg h

end

/-- What a window shows is what memory has at that address. -/
theorem bare_bankByte (ppu : Ppu) {address : UInt16} (h : address.toNat % 0x4000 < 0x3F00) :
    ppu.bare.bankByte (address &&& 0x3FFF) = some (ppu.memory.read address) := by
  rw [Bare.Ppu.bankByte, address_and, getElem?_banks ppu (window_lt h), GraphicsMemory.read]
  cases hb : ppu.memory.mirroring.bank ⟨_, window_lt h⟩ with
  | pattern page =>
    rw [cell_of_pattern h hb]
    exact getElem?_toArray _ _
  | nametable page =>
    rw [cell_of_nametable h hb]
    exact getElem?_toArray _ _

/-! ## The palette -/

theorem and_1F (a : UInt16) : ((a &&& 0x3FFF) &&& 0x1F).toNat = a.toNat % 0x4000 % 32 := by
  rw [UInt16.toNat_and, address_and]
  exact Nat.and_two_pow_sub_one_eq_mod _ 5

theorem and_0F (a : UInt16) : ((a &&& 0x3FFF) &&& 0x0F).toNat = a.toNat % 0x4000 % 32 % 16 := by
  rw [UInt16.toNat_and, address_and, Nat.mod_mod_of_dvd _ (by decide : 16 ∣ 32)]
  exact Nat.and_two_pow_sub_one_eq_mod _ 4

theorem and_03 (a : UInt16) :
    ((a &&& 0x3FFF) &&& 0x0003 != 0) = decide (a.toNat % 0x4000 % 32 % 4 ≠ 0) := by
  have h : ((a &&& 0x3FFF) &&& 0x0003).toNat = a.toNat % 0x4000 % 32 % 4 := by
    rw [UInt16.toNat_and, address_and, Nat.mod_mod_of_dvd _ (by decide : 4 ∣ 32)]
    exact Nat.and_two_pow_sub_one_eq_mod _ 2
  rw [← h, bne, Bool.eq_iff_iff]
  simp [← UInt16.toNat_inj]

theorem or_10 {n : Nat} (h : n < 16) : n ||| 0x10 = n + 16 := by
  have key : ∀ n : Fin 16, n.val ||| 0x10 = n.val + 16 := by decide
  exact key ⟨n, h⟩

/-- The masked address is one of the 32 entries. -/
theorem getElem?_palette (ppu : Ppu) {address : UInt16} (h : ¬address.toNat % 0x4000 < 0x3F00) :
    ppu.bare.palette[((address &&& 0x3FFF) &&& 0x1F).toNat]? =
      some (ppu.memory.read address) := by
  rw [and_1F, GraphicsMemory.read, cell_of_palette h]
  exact getElem?_toArray _ _

/-- A colour gets into both halves of the palette by the masks. -/
theorem bare_writePalette (ppu : Ppu) {address : UInt16}
    (h : ¬address.toNat % 0x4000 < 0x3F00) (value : UInt8) :
    ppu.bare.writePalette (address &&& 0x3FFF) value =
      some { ppu with memory := ppu.memory.write address value }.bare := by
  have h₁ : address.toNat % 0x4000 % 32 < 32 := Nat.mod_lt _ (by decide)
  have h₂ : address.toNat % 0x4000 % 32 % 16 < 16 := Nat.mod_lt _ (by decide)
  rw [Bare.Ppu.writePalette, and_03, and_1F, and_0F, GraphicsMemory.write, cell_of_palette h]
  simp only [GraphicsMemory.setPalette, or_10 h₂]
  split
  next hm =>
    show (put ppu.memory.palette.toArray _ _).bind _ = _
    rw [put_toArray _ h₁, if_pos (of_decide_eq_true hm)]
    rfl
  next hm =>
    show (put ppu.memory.palette.toArray _ _).bind _ = _
    rw [put_toArray _ (by omega), Option.bind_some]
    show (put _ _ _).bind _ = _
    rw [put_toArray _ (by omega), if_neg (fun h => hm (decide_eq_true h))]
    rfl

/-! ## The data register -/

theorem lt_paletteStart_iff (a : UInt16) :
    a &&& 0x3FFF < 0x3F00 ↔ a.toNat % 0x4000 < 0x3F00 := by
  rw [UInt16.lt_iff_toNat_lt, address_and]
  rfl

/-- A read of the data register comes out the same and never fails. -/
theorem bare_readData (ppu : Ppu) :
    ppu.bare.readData = some (ppu.dataValue, { ppu with latches := { ppu.latches with
      readBuffer := ppu.memory.read ppu.latches.vramAddress } }.bare) := by
  have hlt := lt_paletteStart_iff ppu.latches.vramAddress
  unfold Bare.Ppu.readData dataValue paletteStart
  by_cases h : ppu.latches.vramAddress.toNat % 0x4000 < 0x3F00
  · have hb := bare_bankByte ppu h
    show (if ppu.latches.vramAddress &&& 0x3FFF < 0x3F00 then
      (ppu.bare.bankByte (ppu.latches.vramAddress &&& 0x3FFF)).bind _ else _) = _
    rw [if_pos (hlt.2 h), if_pos h, hb]
    rfl
  · have hp := getElem?_palette ppu h
    show (if ppu.latches.vramAddress &&& 0x3FFF < 0x3F00 then _ else
      (ppu.bare.palette[((ppu.latches.vramAddress &&& 0x3FFF) &&& 0x1F).toNat]?).bind _) = _
    rw [if_neg (mt hlt.1 h), if_neg h, hp]
    rfl

/-- So does a write to it, refused or not. -/
theorem bare_writeData (ppu : Ppu) (value : UInt8) :
    ppu.bare.writeData value = some (mapState bare (writeData value ppu)) := by
  have ha : (ppu.bare.vramAddress &&& 0x3FFF).toNat = ppu.latches.vramAddress.toNat % 0x4000 :=
    address_and _
  have hlt := lt_paletteStart_iff ppu.latches.vramAddress
  unfold Bare.Ppu.writeData writeData
  by_cases h : ppu.latches.vramAddress.toNat % 0x4000 < 0x3F00
  · have hw := window_lt h
    have hb := getElem?_banks ppu hw
    have hge : ¬ppu.latches.vramAddress &&& 0x3FFF ≥ 0x3F00 := by
      rw [ge_iff_le, UInt16.not_le]
      exact hlt.2 h
    show (if ppu.latches.vramAddress &&& 0x3FFF ≥ 0x3F00 then _ else
      (ppu.bare.banks[(ppu.bare.vramAddress &&& 0x3FFF).toNat / pageSize]?).bind _) = _
    rw [if_neg hge, ha, hb, Option.bind_some]
    cases hbank : ppu.memory.mirroring.bank ⟨_, hw⟩ with
    | pattern page =>
      have hcell := cell_of_pattern h hbank
      simp only [GraphicsMemory.accepts, storeData, GraphicsMemory.write, hcell]
      by_cases hwr : ppu.memory.writable = true
      · show (if ppu.memory.writable = true then
          (put ppu.memory.pattern.toArray _ value).bind _ else _) = _
        rw [if_pos hwr, if_pos hwr, if_pos hwr, put_toArray _ (by simp only [pageSize]; omega)]
        rfl
      · have hc : UInt16.ofNat (ppu.latches.vramAddress.toNat % 0x4000) =
            ppu.bare.vramAddress &&& 0x3FFF := by
          rw [← ha, UInt16.ofNat_toNat]
        show (if ppu.memory.writable = true then _ else _) = _
        rw [if_neg hwr, if_neg hwr, hc]
        rfl
    | nametable page =>
      have hcell := cell_of_nametable h hbank
      simp only [GraphicsMemory.accepts, storeData, GraphicsMemory.write, hcell]
      show (put ppu.memory.nametables.toArray _ value).bind _ = _
      rw [put_toArray _ (by simp only [pageSize]; omega)]
      rfl
  · have hge : ppu.latches.vramAddress &&& 0x3FFF ≥ 0x3F00 := by
      rw [ge_iff_le, ← UInt16.not_lt]
      exact mt hlt.1 h
    show (if ppu.latches.vramAddress &&& 0x3FFF ≥ 0x3F00 then
      (ppu.bare.writePalette (ppu.latches.vramAddress &&& 0x3FFF) value).bind _ else _) = _
    rw [if_pos hge, bare_writePalette ppu h value]
    unfold GraphicsMemory.accepts
    rw [cell_of_palette h]
    rfl

/-! ## The registers -/

/-- All eight registers are read alike. -/
theorem bare_readRegister (ppu : Ppu) (address : UInt16) :
    ppu.bare.readRegister address = some (mapState bare (readRegister address ppu)) := by
  unfold Bare.Ppu.readRegister readRegister
  cases PpuRegister.ofAddress address with
  | status =>
    have hstatus : ppu.bare.status &&& ~~~0x80 = 0 := ppu.status_and_not
    simp only [hstatus]
    rfl
  | oamData =>
    show (ppu.bare.oam[ppu.bare.oamAddress.toNat]?).bind _ = _
    rw [getElem?_oam]
    rfl
  | data =>
    show (ppu.bare.readData).bind _ = _
    rw [bare_readData]
    rfl
  | control | mask | oamAddress | scroll | address => rfl

/-- All eight registers are written alike. -/
theorem bare_writeRegister (ppu : Ppu) (address : UInt16) (value : UInt8) :
    ppu.bare.writeRegister address value =
      some (mapState bare (writeRegister address value ppu)) := by
  unfold Bare.Ppu.writeRegister writeRegister
  cases PpuRegister.ofAddress address with
  | control | mask | status | oamAddress => rfl
  | oamData =>
    show (ppu.bare.writeOam value).bind _ = _
    rw [bare_writeOam]
    rfl
  | scroll =>
    obtain ⟨⟨_, _, _, _, _, _, second, _, _⟩, _, _⟩ := ppu
    cases second <;> rfl
  | address =>
    obtain ⟨⟨_, _, _, _, _, _, second, _, _⟩, _, _⟩ := ppu
    cases second <;> rfl
  | data => exact bare_writeData ppu value

theorem bare_peekRegister (ppu : Ppu) (address : UInt16) :
    ppu.bare.peekRegister address = some (ppu.peekRegister address) := by
  unfold Bare.Ppu.peekRegister peekRegister
  cases PpuRegister.ofAddress address with
  | oamData => exact getElem?_oam ppu
  | control | mask | status | oamAddress | scroll | address | data => rfl

/-! ## Whole tables -/

/-- A name table is taken whole without an index that fails. -/
theorem bare_nametable (ppu : Ppu) (index : Nat) :
    ppu.bare.nametable index = some (ppu.memory.nametable index).toArray := by
  have hi : index &&& 3 = index % 4 := Nat.and_two_pow_sub_one_eq_mod _ 2
  have hw : 8 + (index &&& 3) < 16 := by omega
  have hb : ppu.memory.mirroring.bank ⟨8 + (index &&& 3), hw⟩ =
      .nametable ppu.memory.mirroring.pages[Fin.ofNat 4 index] := by
    have hf : Fin.ofNat 4 (8 + (index &&& 3)) = Fin.ofNat 4 index := by
      apply Fin.ext
      simp only [Fin.val_ofNat, hi]
      omega
    unfold Mirroring.bank
    simp only [hf]
    exact dif_neg (by omega)
  have hp := (ppu.memory.mirroring.pages[Fin.ofNat 4 index]).isLt
  rw [Bare.Ppu.nametable, Bare.Ppu.window, getElem?_banks ppu hw, hb]
  show Bare.slice? ppu.memory.nametables.toArray _ _ = _
  refine Bare.slice?_toArray _ (by simp only [pageSize]; omega) fun i hi => ?_
  rw [GraphicsMemory.nametable, Vector.getElem_ofFn]
  rfl

/-- So is a pattern table. -/
theorem bare_patternTable (ppu : Ppu) (index : Nat) :
    ppu.bare.patternTable index = some (ppu.memory.patternTable index).toArray := by
  have hi : index &&& 1 = index % 2 := Nat.and_two_pow_sub_one_eq_mod _ 1
  have hw : (index &&& 1) * 4 < 16 := by omega
  have hb : ppu.memory.mirroring.bank ⟨(index &&& 1) * 4, hw⟩ =
      .pattern ⟨(index &&& 1) * 4, by omega⟩ := by
    unfold Mirroring.bank
    rw [dif_pos (by simp only; omega)]
  rw [Bare.Ppu.patternTable, Bare.Ppu.window, getElem?_banks ppu hw, hb]
  show Bare.slice? ppu.memory.pattern.toArray _ _ = _
  refine Bare.slice?_toArray _ (by simp only [pageSize]; omega) fun i hi => ?_
  rw [GraphicsMemory.patternTable, Vector.getElem_ofFn]
  have ho : (index &&& 1) * 4 * pageSize + i = index % 2 * 0x1000 + i := by
    simp only [pageSize]
    omega
  simp only [ho]

theorem bare_backgroundTable (ppu : Ppu) :
    ppu.bare.backgroundTable = some (ppu.memory.patternTable ppu.backgroundTable).toArray := by
  have h : (ppu.bare.control &&& 0x10 != 0).toNat = ppu.backgroundTable := by
    show (ppu.latches.control &&& 0x10 != 0).toNat = ppu.backgroundTable
    unfold backgroundTable
    cases ppu.latches.control &&& 0x10 != 0 <;> rfl
  rw [Bare.Ppu.backgroundTable, h]
  exact bare_patternTable ppu _

end Ppu

end Nes
