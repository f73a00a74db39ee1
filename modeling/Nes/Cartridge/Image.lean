import Nes.Cartridge.Header

/-!
# Cartridges

A cartridge is cut out of an image: after the header, and a trainer that is passed over, come the
program banks and then the graphics banks. Anything after them is ignored. The processor sees
program memory through four windows of 8192 bytes.

Results:

* `ProgramRom.windowStart_add_le`: every window lies inside program memory.
* `Cartridge.ofImage_eq_ok`: what an accepted image holds.
-/

namespace Nes

/-- Program memory: one bank or two. -/
structure ProgramRom where
  bytes : Array UInt8
  banks : Nat
  banks_eq : banks = 1 ∨ banks = 2
  size_eq : bytes.size = banks * Header.programBankSize

namespace ProgramRom

/-- The size of a window. -/
def windowSize : Nat := 0x2000

/-- Where the upper half of the windows begins: the second bank, or the only one again. -/
def upperStart (rom : ProgramRom) : Nat := if rom.banks = 2 then 2 * windowSize else 0

/-- Where a window begins. -/
def windowStart (rom : ProgramRom) : Fin 4 → Nat
  | 0 => 0
  | 1 => windowSize
  | 2 => rom.upperStart
  | 3 => rom.upperStart + windowSize

/-- Where the four windows begin (`prg_windows`). -/
def windows (rom : ProgramRom) : List Nat := (List.finRange 4).map rom.windowStart

/-- The window that an address from `$8000` on falls into. -/
def window (address : UInt16) : Fin 4 :=
  ⟨address.toNat / windowSize % 4, Nat.mod_lt _ (by decide)⟩

theorem upperStart_add_le (rom : ProgramRom) :
    rom.upperStart + 2 * windowSize ≤ rom.bytes.size := by
  rw [rom.size_eq, upperStart]
  rcases rom.banks_eq with h | h <;> rw [h] <;> decide

theorem windowStart_add_le (rom : ProgramRom) (w : Fin 4) :
    rom.windowStart w + windowSize ≤ rom.bytes.size := by
  have h := rom.upperStart_add_le
  unfold windowStart
  split <;> omega

/-- The byte at an address from `$8000` on. -/
def read (rom : ProgramRom) (address : UInt16) : UInt8 :=
  have := rom.windowStart_add_le (window address)
  have : address.toNat % windowSize < windowSize := Nat.mod_lt _ (by decide)
  rom.bytes[rom.windowStart (window address) + address.toNat % windowSize]

end ProgramRom

/-- A cartridge that the console can take. -/
structure Cartridge where
  header : Header
  program : ProgramRom
  /-- Empty if the board carries graphics memory that can be written. -/
  graphics : Array UInt8

/-- What is found where a cartridge file should be. -/
inductive FileContents where
  | bytes (image : Array UInt8)
  | missing
  | unreadable (reason : String)

namespace Cartridge

theorem banks_of_supported {header : Header} (h : header.fault? = none) :
    header.programBanks.toNat = 1 ∨ header.programBanks.toNat = 2 := by
  rcases ((Header.fault?_eq_none_iff header).1 h).2.2.2.1 with h | h <;> simp [h]

/-- The bytes of an image that hold the program. -/
def programBytes (header : Header) (image : Array UInt8) : Array UInt8 :=
  image.extract header.programStart (header.programStart + header.programSize)

/-- The bytes of an image that hold the graphics. -/
def graphicsBytes (header : Header) (image : Array UInt8) : Array UInt8 :=
  image.extract (header.programStart + header.programSize) header.imageSize

theorem size_programBytes {header : Header} {image : Array UInt8}
    (h : ¬image.size < header.imageSize) :
    (programBytes header image).size = header.programBanks.toNat * Header.programBankSize := by
  simp only [programBytes, Array.size_extract, Header.imageSize] at *
  simp only [Header.programSize] at *
  omega

/-- The cartridge in an image (`from_bytes`). -/
def ofImage (image : Array UInt8) : Except CartridgeError Cartridge :=
  match Header.parse image with
  | .error e => .error e
  | .ok header =>
    match h : header.fault? with
    | some e => .error e
    | none =>
      if hs : image.size < header.imageSize then
        .error (.truncated header.imageSize image.size)
      else .ok {
        header := header
        program := {
          bytes := programBytes header image
          banks := header.programBanks.toNat
          banks_eq := banks_of_supported h
          size_eq := size_programBytes hs }
        graphics := graphicsBytes header image }

/-- The cartridge in a file (`load`). -/
def ofFile (path : String) : FileContents → Except CartridgeError Cartridge
  | .bytes image => ofImage image
  | .missing => .error (.fileNotFound path)
  | .unreadable reason => .error (.unreadable reason)

/-- How the name tables are arranged, as the header has it. -/
def mirroring (cartridge : Cartridge) : Mirroring := cartridge.header.mirroring

theorem ofImage_eq_ok {image : Array UInt8} {cartridge : Cartridge}
    (h : ofImage image = .ok cartridge) :
    Header.parse image = .ok cartridge.header ∧ cartridge.header.fault? = none ∧
      cartridge.header.imageSize ≤ image.size ∧
      cartridge.program.bytes = programBytes cartridge.header image ∧
      cartridge.graphics = graphicsBytes cartridge.header image := by
  unfold ofImage at h
  split at h
  · cases h
  next header hp =>
    split at h
    · cases h
    next hf =>
      split at h
      · cases h
      next hs =>
        cases h
        exact ⟨hp, hf, Nat.le_of_not_lt hs, rfl, rfl⟩

end Cartridge

end Nes
