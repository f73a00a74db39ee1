import Nes.Graphics.Memory

/-!
# Image headers

A cartridge image begins with sixteen bytes: a signature, the numbers of program and graphics
banks, two bytes of flags and eight reserved bytes. Only boards without bank switching are
supported, with one or two program banks and at most one graphics bank.

Results:

* `fault?_eq_none_iff`: which headers are supported.
* `CartridgeError.message`: the one text of each reason for refusing an image.
-/

namespace Nes

/-- Why a cartridge is not loaded. -/
inductive CartridgeError where
  /-- There is no file with the name. -/
  | fileNotFound (path : String)
  /-- The file could not be read. -/
  | unreadable (reason : String)
  /-- The signature is missing. -/
  | illegalFile
  | truncated (expected found : Nat)
  | unsupportedMapper (mapper : UInt8)
  | programBankCount (banks : UInt8)
  | graphicsBankCount (banks : UInt8)
  /-- The image is for an arcade machine. -/
  | unsupportedHardware
deriving DecidableEq

/-- What is said of a file that is not accepted. -/
def CartridgeError.message : CartridgeError → String
  | .fileNotFound path => "cartridge file " ++ path ++ " does not exist"
  | .unreadable reason => "failed to read cartridge: " ++ reason
  | .illegalFile => "not an iNES image (bad signature)"
  | .truncated expected found =>
    "cartridge image truncated: expected " ++ toString expected ++ " bytes, found "
      ++ toString found
  | .unsupportedMapper mapper => "mapper " ++ toString mapper.toNat ++ " is not supported"
  | .programBankCount banks =>
    toString banks.toNat ++ " program banks cannot be mapped (expected 1 or 2)"
  | .graphicsBankCount banks =>
    toString banks.toNat ++ " graphics banks cannot be mapped (expected 0 or 1)"
  | .unsupportedHardware => "VS Unisystem and PlayChoice-10 cartridges are not supported"

/-- The contents of a header. -/
structure Header where
  programBanks : UInt8
  graphicsBanks : UInt8
  flags6 : UInt8
  flags7 : UInt8
  reserved : Vector UInt8 8
deriving DecidableEq

namespace Header

/-- The size of a header. -/
def size : Nat := 16

/-- The size of a trainer, which may stand between header and program. -/
def trainerSize : Nat := 512

/-- The size of a program bank. -/
def programBankSize : Nat := 0x4000

/-- The size of a graphics bank. -/
def graphicsBankSize : Nat := 0x2000

/-- The bytes `NES` and `$1A`. -/
def signature : Array UInt8 := #[0x4E, 0x45, 0x53, 0x1A]

/-! ## Flags -/

/-- The number of the board's mapper, from the high halves of both bytes of flags
(`mapper_number`). -/
def mapper (header : Header) : UInt8 := header.flags6 >>> 4 ||| header.flags7 &&& 0xF0

/-- How the name tables are arranged. Four screens go before the other two. -/
def mirroring (header : Header) : Mirroring :=
  if header.flags6 &&& 0x08 != 0 then .fourScreen
  else if header.flags6 &&& 0x01 != 0 then .vertical
  else .horizontal

/-- The board keeps its save memory when it is switched off (`has_save_ram`). -/
def hasSaveRam (header : Header) : Bool := header.flags6 &&& 0x02 != 0

/-- A trainer stands between the header and the program (`has_trainer`). -/
def hasTrainer (header : Header) : Bool := header.flags6 &&& 0x04 != 0

/-- The image is for a VS Unisystem (`is_vs_unisystem`). -/
def isVsUnisystem (header : Header) : Bool := header.flags7 &&& 0x01 != 0

/-- The image is for a PlayChoice-10 (`is_playchoice`). -/
def isPlayChoice (header : Header) : Bool := header.flags7 &&& 0x02 != 0

/-! ## Layout -/

/-- Where program memory begins in the image. -/
def programStart (header : Header) : Nat := size + if header.hasTrainer then trainerSize else 0

/-- The size of all program banks. -/
def programSize (header : Header) : Nat := header.programBanks.toNat * programBankSize

/-- The size of all graphics banks. -/
def graphicsSize (header : Header) : Nat := header.graphicsBanks.toNat * graphicsBankSize

/-- The least size of an image with this header. -/
def imageSize (header : Header) : Nat :=
  header.programStart + header.programSize + header.graphicsSize

/-! ## Reading and checking -/

/-- The header of an image. -/
def parse (image : Array UInt8) : Except CartridgeError Header :=
  if image.extract 0 4 ≠ signature then .error .illegalFile
  else if h : image.size < 16 then .error (.truncated size image.size)
  else .ok {
    programBanks := image[4]
    graphicsBanks := image[5]
    flags6 := image[6]
    flags7 := image[7]
    reserved := Vector.ofFn fun i => image[8 + i.val] }

/-- The first reason for which a header is not supported (`validate`). -/
def fault? (header : Header) : Option CartridgeError :=
  if header.isVsUnisystem || header.isPlayChoice then some .unsupportedHardware
  else if header.mapper ≠ 0 then some (.unsupportedMapper header.mapper)
  else if header.programBanks < 1 ∨ 2 < header.programBanks then
    some (.programBankCount header.programBanks)
  else if 1 < header.graphicsBanks then some (.graphicsBankCount header.graphicsBanks)
  else none

theorem fault?_eq_none_iff (header : Header) :
    header.fault? = none ↔
      header.isVsUnisystem = false ∧ header.isPlayChoice = false ∧ header.mapper = 0 ∧
        (header.programBanks = 1 ∨ header.programBanks = 2) ∧
        (header.graphicsBanks = 0 ∨ header.graphicsBanks = 1) := by
  have h₁ : ¬(header.programBanks < 1 ∨ 2 < header.programBanks) ↔
      header.programBanks = 1 ∨ header.programBanks = 2 := by
    simp only [← UInt8.toNat_inj, UInt8.lt_iff_toNat_lt, UInt8.reduceToNat]; omega
  have h₂ : ¬1 < header.graphicsBanks ↔ header.graphicsBanks = 0 ∨ header.graphicsBanks = 1 := by
    simp only [← UInt8.toNat_inj, UInt8.lt_iff_toNat_lt, UInt8.reduceToNat]; omega
  rw [← h₁, ← h₂]
  unfold fault?
  split
  next h => rcases Bool.or_eq_true_iff.1 h with h | h <;> simp [h]
  · split
    · simp_all
    · split
      · simp_all
      · split <;> simp_all

end Header

end Nes
