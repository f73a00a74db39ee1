import Nes.Proofs.Bare.Pads
import Nes.Proofs.Bare.Ppu
import Nes.Proofs.Cartridge.Accepted
import Nes.Proofs.Console.Regions

/-!
# The bare console

Memory, save memory and program memory as arrays of whatever length, four numbers for where the
windows on program memory begin, and addresses told apart by their three high bits.

Results:

* `bare_ofCartridge`: a console that is put together from an accepted image.
* `bare_read`, `bare_write`, `bare_peek`: no access to the bus goes out of bounds, and each does
  what the console does.
-/

namespace Nes

namespace Bare

/-- Everything that the processor's bus reaches. -/
structure Console where
  ram : Array UInt8
  saveRam : Array UInt8
  program : Array UInt8
  /-- Where the four windows on program memory begin. -/
  windows : Array Nat
  ppu : Ppu
  pads : Pads

namespace Console

/-- The console with a cartridge in it. -/
def ofCartridge (cartridge : Cartridge) : Option Console := do
  let upper := (cartridge.header.programBanks &&& 2).toNat
  let ppu ← Ppu.ofPattern cartridge.graphics cartridge.mirroring
  return {
    ram := Array.replicate 0x800 0
    saveRam := Array.replicate 0x2000 0
    program := cartridge.program.bytes
    windows := #[0, 1, upper, upper + 1].map (· * 0x2000)
    ppu
    pads := .initial }

/-- Reset the devices. -/
def reset (console : Console) : Console :=
  { console with ppu := console.ppu.reset, pads := console.pads.reset }

/-- Put back the picture unit after an access. -/
def withPpu {α : Type} (console : Console) :
    EStateM.Result BusError Ppu α → EStateM.Result BusError Console α :=
  mapState fun ppu => { console with ppu }

/-- The three high bits of an address. -/
def block (address : UInt16) : Nat := (address >>> 13).toNat

/-- The place of an address in program memory. -/
def programOffset (console : Console) (address : UInt16) : Option Nat := do
  let start ← console.windows[← minus? (block address) 4]?
  return start + (address &&& 0x1FFF).toNat

/-! ## Reading -/

/-- Read from the pads. -/
def readInput (console : Console) (address : UInt16) : Option (UInt8 × Console) := do
  if address = Nes.Console.firstPad then
    let (bit, pads) ← console.pads.read .one
    return (bit, { console with pads })
  else if address = Nes.Console.secondPad then
    let (bit, pads) ← console.pads.read .two
    return (bit, { console with pads })
  else return (0, console)

/-- Read an address. -/
def read (console : Console) (address : UInt16) :
    Option (EStateM.Result BusError Console UInt8) := do
  match block address with
  | 0 => return .ok (← console.ram[address.toNat &&& 0x7FF]?) console
  | 1 => return console.withPpu (← console.ppu.readRegister address)
  | 2 =>
    if address < 0x4020 then
      let (value, console) ← console.readInput address
      return .ok value console
    else return .error (.expansionAccess address) console
  | 3 => return .ok (← console.saveRam[address.toNat &&& 0x1FFF]?) console
  | _ => return .ok (← console.program[← console.programOffset address]?) console

/-- What an address shows without being read. -/
def peek (console : Console) (address : UInt16) : Option UInt8 := do
  match block address with
  | 0 => console.ram[address.toNat &&& 0x7FF]?
  | 1 => console.ppu.peekRegister address
  | 2 => return 0
  | 3 => console.saveRam[address.toNat &&& 0x1FFF]?
  | _ => console.program[← console.programOffset address]?

/-- The word that peeks show. -/
def peekWord (console : Console) (address : UInt16) : Option UInt16 := do
  let lo ← console.peek address
  let hi ← console.peek (address + 1)
  return word lo hi

/-! ## Writing -/

/-- Copy bytes to object memory, up to the first that cannot be read. -/
def copy (console : Console) : List UInt16 → Option (EStateM.Result BusError Console Unit)
  | [] => some (.ok () console)
  | address :: rest => do
    match ← console.read address with
    | .error cause console => return .error cause console
    | .ok value console =>
      let ppu ← console.ppu.writeOam value
      copy { console with ppu } rest

/-- The addresses of a page. -/
def page (number : UInt8) : List UInt16 :=
  (List.finRange 256).map fun i => word (UInt8.ofNat i.val) number

/-- Write to the strobe line or start a copy. -/
def writeOutput (console : Console) (address : UInt16) (value : UInt8) :
    Option (EStateM.Result BusError Console Unit) :=
  if address = Nes.Console.oamDma then console.copy (page value)
  else if address = Nes.Console.firstPad then
    some (.ok () { console with pads := console.pads.strobe value })
  else some (.ok () console)

/-- Write to an address. -/
def write (console : Console) (address : UInt16) (value : UInt8) :
    Option (EStateM.Result BusError Console Unit) := do
  match block address with
  | 0 =>
    let ram ← put console.ram (address.toNat &&& 0x7FF) value
    return .ok () { console with ram }
  | 1 => return console.withPpu (← console.ppu.writeRegister address value)
  | 2 =>
    if address < 0x4020 then console.writeOutput address value
    else return .error (.expansionAccess address) console
  | 3 =>
    let saveRam ← put console.saveRam (address.toNat &&& 0x1FFF) value
    return .ok () { console with saveRam }
  | _ => return .error (.programRomWrite address value) console

end Console

end Bare

namespace Console

open Bare (mapState put put_toArray getElem?_toArray minus?)
open Bare.Console (block)

/-- The console without bounds. -/
def bare (console : Console) : Bare.Console where
  ram := console.ram.toArray
  saveRam := console.saveRam.toArray
  program := console.program.bytes
  windows := console.program.windows.toArray
  ppu := console.ppu.bare
  pads := console.controllers.bare

theorem bare_reset (console : Console) : console.reset.bare = console.bare.reset := by
  show { console.bare with
    ppu := console.ppu.reset.bare, pads := console.controllers.reset.bare } = _
  rw [Ppu.bare_reset, Controllers.bare_reset]
  rfl

/-! ## Construction -/

/-- The four windows of program memory, by the mask that one bank or two leave. -/
theorem windows_eq (rom : ProgramRom) {banks : UInt8} (h : rom.banks = banks.toNat) :
    #[0, 1, (banks &&& 2).toNat, (banks &&& 2).toNat + 1].map (· * 0x2000) =
      rom.windows.toArray := by
  have hu : (banks &&& 2).toNat * 0x2000 = rom.upperStart := by
    rw [ProgramRom.upperStart, UInt8.toNat_and, ← h]
    rcases rom.banks_eq with hb | hb <;> rw [hb] <;> decide
  simp only [List.map_toArray, List.map_cons, List.map_nil, Nat.add_mul, hu]
  rfl

/-- No index fails while a console is put together. -/
theorem bare_ofCartridge {image : Array UInt8} {cartridge : Cartridge}
    (h : Cartridge.ofImage image = .ok cartridge) :
    Bare.Console.ofCartridge cartridge = some (ofCartridge cartridge).bare := by
  have hw := windows_eq cartridge.program (Cartridge.banks_eq_programBanks h)
  unfold Bare.Console.ofCartridge
  simp only [Ppu.bare_ofPattern, hw]
  rfl

/-! ## Regions -/

/-- The upper three bits of an address. -/
theorem block_eq (address : UInt16) : block address = address.toNat / 0x2000 := by
  rw [block, UInt16.toNat_shiftRight]
  exact Nat.shiftRight_eq_div_pow ..

section

variable {address : UInt16}

/-- A region that lies within one block has its number. -/
theorem block_of_region {region : Region} (h : Region.ofAddress address = region) {n : Nat}
    (hf : n * 0x2000 ≤ region.first) (hs : region.stop ≤ (n + 1) * 0x2000) :
    block address = n := by
  have hr := (Region.ofAddress_eq_iff ..).1 h
  rw [block_eq]
  omega

theorem block_ram (h : Region.ofAddress address = .ram) : block address = 0 :=
  block_of_region h (by decide) (by decide)

theorem block_ppu (h : Region.ofAddress address = .ppu) : block address = 1 :=
  block_of_region h (by decide) (by decide)

theorem block_io (h : Region.ofAddress address = .io) : block address = 2 :=
  block_of_region h (by decide) (by decide)

theorem block_expansion (h : Region.ofAddress address = .expansion) : block address = 2 :=
  block_of_region h (by decide) (by decide)

theorem block_saveRam (h : Region.ofAddress address = .saveRam) : block address = 3 :=
  block_of_region h (by decide) (by decide)

theorem block_program (h : Region.ofAddress address = .program) :
    block address = (ProgramRom.window address).val + 4 := by
  have hr := (Region.ofAddress_eq_iff ..).1 h
  simp only [Region.first, Region.stop] at hr
  rw [block_eq]
  show address.toNat / 0x2000 = address.toNat / 0x2000 % 4 + 4
  omega

theorem lt_of_io (h : Region.ofAddress address = .io) : address < 0x4020 :=
  UInt16.lt_iff_toNat_lt.2 ((Region.ofAddress_eq_iff ..).1 h).2

theorem not_lt_of_expansion (h : Region.ofAddress address = .expansion) : ¬address < 0x4020 := by
  rw [UInt16.lt_iff_toNat_lt]
  exact Nat.not_lt.2 ((Region.ofAddress_eq_iff ..).1 h).1

end

/-! ## Reading -/

/-- The mask picks the place among the 2048. -/
theorem ram_place (address : UInt16) : address.toNat &&& 0x7FF = (ramOffset address).val :=
  Nat.and_two_pow_sub_one_eq_mod _ 11

theorem saveRam_place (address : UInt16) :
    address.toNat &&& 0x1FFF = (saveRamOffset address).val :=
  Nat.and_two_pow_sub_one_eq_mod _ 13

theorem getElem?_ram (console : Console) (address : UInt16) :
    console.bare.ram[address.toNat &&& 0x7FF]? =
      some (getElem console.ram (ramOffset address) (ramOffset address).isLt) := by
  rw [ram_place]
  exact getElem?_toArray _ (ramOffset address).isLt

theorem getElem?_saveRam (console : Console) (address : UInt16) :
    console.bare.saveRam[address.toNat &&& 0x1FFF]? =
      some (getElem console.saveRam (saveRamOffset address) (saveRamOffset address).isLt) := by
  rw [saveRam_place]
  exact getElem?_toArray _ (saveRamOffset address).isLt

/-- The table of windows has all four. -/
theorem getElem?_windows (rom : ProgramRom) (w : Fin 4) :
    rom.windows.toArray[w.val]? = some (rom.windowStart w) := by
  match w with
  | 0 => rfl
  | 1 => rfl
  | 2 => rfl
  | 3 => rfl

/-- Behind every window is program memory. -/
theorem getElem?_program (console : Console) {address : UInt16}
    (h : Region.ofAddress address = .program) :
    (console.bare.programOffset address).bind (console.bare.program[·]?) =
      some (console.program.read address) := by
  have hlow : (address &&& 0x1FFF).toNat = address.toNat % ProgramRom.windowSize := by
    rw [UInt16.toNat_and]
    exact Nat.and_two_pow_sub_one_eq_mod _ 13
  have hm : minus? (block address) 4 = some (ProgramRom.window address).val := by
    rw [block_program h, Bare.minus?_of_le (Nat.le_add_left ..), Nat.add_sub_cancel]
  have hstart : console.bare.windows[(ProgramRom.window address).val]? =
      some (console.program.windowStart (ProgramRom.window address)) :=
    getElem?_windows ..
  unfold Bare.Console.programOffset
  simp only [hm, Option.bind_eq_bind, Option.bind_some, hstart, hlow]
  exact Array.getElem?_eq_getElem _

theorem bare_readInput (console : Console) (address : UInt16) :
    console.bare.readInput address =
      some ((console.readInput address).1, (console.readInput address).2.bare) := by
  have h₁ := Controllers.bare_read console.controllers .one
  have h₂ := Controllers.bare_read console.controllers .two
  unfold Bare.Console.readInput readInput
  split
  · show (console.controllers.bare.read .one).bind _ = _
    rw [h₁]
    rfl
  · split
    · show (console.controllers.bare.read .two).bind _ = _
      rw [h₂]
      rfl
    · rfl

/-- **A read of the bare console does what a read of the console does.** -/
theorem bare_read (console : Console) (address : UInt16) :
    console.bare.read address = some (mapState bare (read address console)) := by
  unfold Bare.Console.read read
  cases h : Region.ofAddress address with
  | ram =>
    rw [block_ram h]
    show (console.bare.ram[_]?).bind _ = _
    rw [getElem?_ram]
    rfl
  | ppu =>
    rw [block_ppu h]
    show (console.ppu.bare.readRegister address).bind _ = _
    rw [Ppu.bare_readRegister, Option.bind_some]
    simp only [onPpu]
    cases Ppu.readRegister address console.ppu <;> rfl
  | io =>
    rw [block_io h]
    show (if address < 0x4020 then _ else _) = _
    rw [if_pos (lt_of_io h), bare_readInput]
    rfl
  | expansion =>
    rw [block_expansion h]
    show (if address < 0x4020 then _ else _) = _
    rw [if_neg (not_lt_of_expansion h)]
    rfl
  | saveRam =>
    rw [block_saveRam h]
    show (console.bare.saveRam[_]?).bind _ = _
    rw [getElem?_saveRam]
    rfl
  | program =>
    rw [block_program h]
    show ((console.bare.programOffset address).bind fun o =>
      (console.bare.program[o]?).bind _) = _
    rw [← Option.bind_assoc, getElem?_program console h]
    rfl

/-- A peek shows the same byte. -/
theorem bare_peek (console : Console) (address : UInt16) :
    console.bare.peek address = some (console.peek address) := by
  unfold Bare.Console.peek peek
  cases h : Region.ofAddress address with
  | ram => rw [block_ram h]; exact getElem?_ram console address
  | ppu => rw [block_ppu h]; exact Ppu.bare_peekRegister console.ppu address
  | io => rw [block_io h]; rfl
  | expansion => rw [block_expansion h]; rfl
  | saveRam => rw [block_saveRam h]; exact getElem?_saveRam console address
  | program => rw [block_program h]; exact getElem?_program console h

theorem bare_peekWord (console : Console) (address : UInt16) :
    console.bare.peekWord address = some (Bus.peekWord console address) := by
  unfold Bare.Console.peekWord
  rw [bare_peek, bare_peek]
  rfl

/-! ## Writing -/

/-- The copy to object memory does the same for as many bytes as it gets to. -/
theorem bare_copy (console : Console) (addresses : List UInt16) :
    console.bare.copy addresses = some (mapState bare (addresses.forM copyToOam console)) := by
  induction addresses generalizing console with
  | nil => rfl
  | cons address rest ih =>
    show (console.bare.read address).bind _ = some (mapState bare
      (EStateM.bind (copyToOam address) (fun _ => rest.forM copyToOam) console))
    have hc : copyToOam address console = match read address console with
        | .ok value console => .ok () (mapPpu (Ppu.writeOam value) console)
        | .error cause console => .error cause console := by
      show EStateM.bind (read address) _ console = _
      unfold EStateM.bind
      cases read address console <;> rfl
    rw [bare_read, Option.bind_some, EStateM.bind, hc]
    cases read address console with
    | error cause console => rfl
    | ok value console =>
      show (console.ppu.bare.writeOam value).bind _ = _
      rw [Ppu.bare_writeOam]
      exact ih (mapPpu (Ppu.writeOam value) console)

theorem copyPage_eq (number : UInt8) :
    copyPage number = (Bare.Console.page number).forM copyToOam := by
  exact List.forM_map.symm

theorem bare_writeOutput (console : Console) (address : UInt16) (value : UInt8) :
    console.bare.writeOutput address value =
      some (mapState bare (writeOutput address value console)) := by
  unfold Bare.Console.writeOutput writeOutput
  split
  · rw [bare_copy, copyPage_eq]
  · split
    · have hs := Controllers.bare_strobe console.controllers value
      show some (EStateM.Result.ok ()
        { console.bare with pads := console.controllers.bare.strobe value }) = _
      rw [← hs]
      rfl
    · rfl

/-- **A write to the bare console does what a write to the console does.** -/
theorem bare_write (console : Console) (address : UInt16) (value : UInt8) :
    console.bare.write address value = some (mapState bare (write address value console)) := by
  unfold Bare.Console.write write
  cases h : Region.ofAddress address with
  | ram =>
    rw [block_ram h, ram_place]
    show (put console.ram.toArray _ value).bind _ = _
    rw [put_toArray _ (ramOffset address).isLt]
    rfl
  | ppu =>
    rw [block_ppu h]
    show (console.ppu.bare.writeRegister address value).bind _ = _
    rw [Ppu.bare_writeRegister, Option.bind_some]
    simp only [onPpu]
    cases Ppu.writeRegister address value console.ppu <;> rfl
  | io =>
    rw [block_io h]
    show (if address < 0x4020 then _ else _) = _
    rw [if_pos (lt_of_io h), bare_writeOutput]
  | expansion =>
    rw [block_expansion h]
    show (if address < 0x4020 then _ else _) = _
    rw [if_neg (not_lt_of_expansion h)]
    rfl
  | saveRam =>
    rw [block_saveRam h, saveRam_place]
    show (put console.saveRam.toArray _ value).bind _ = _
    rw [put_toArray _ (saveRamOffset address).isLt]
    rfl
  | program =>
    rw [block_program h]
    rfl

end Console

end Nes
