import Nes.Cartridge.Image

/-!
# Accepted images

Which image is accepted, and which bytes of it the processor sees. A cartridge filled with one
byte is the smallest that can be taken: one program bank, and graphics memory that can be written.
Every vector of it holds the same word.

Results:

* `ofImage_of_supported`: an image with a supported header is accepted if it is long enough.
* `isEmpty_graphics_iff`: an accepted cartridge brings graphics memory if it has a bank of it.
* `getElem?_image`: the byte of the image that the processor sees at an address.
* `ofImage_filledImage`: the image of a filled cartridge is accepted.
* `read_filled`: the processor sees the same byte everywhere.
-/

namespace Nes

/-! ## Windows -/

namespace ProgramRom

theorem upperStart_eq (rom : ProgramRom) : rom.upperStart = (rom.banks - 1) * 0x4000 := by
  unfold upperStart
  rcases rom.banks_eq with h | h <;> rw [h] <;> decide

theorem windowStart_eq (rom : ProgramRom) (w : Fin 4) :
    rom.windowStart w = (if w.val < 2 then 0 else rom.upperStart) + w.val % 2 * windowSize := by
  match w with
  | 0 => rfl
  | 1 => exact (Nat.zero_add _).symm
  | 2 => rfl
  | 3 => rfl

theorem windowStart_add_eq (rom : ProgramRom) {address : UInt16} (h : 0x8000 ≤ address) :
    rom.windowStart (window address) + address.toNat % windowSize =
      (address.toNat - 0x8000) % (rom.banks * Header.programBankSize) := by
  have hlt := address.toNat_lt
  have hle : 0x8000 ≤ address.toNat := UInt16.le_iff_toNat_le.1 h
  have hw : (window address).val = address.toNat / 0x2000 % 4 := rfl
  rw [windowStart_eq, hw, upperStart_eq, windowSize, Header.programBankSize]
  rcases rom.banks_eq with hb | hb
  · rw [hb]
    split <;> omega
  · rw [hb]
    split <;> omega

end ProgramRom

namespace Cartridge

/-! ## The bytes of an image -/

theorem ofImage_of_supported {image : Array UInt8} {header : Header}
    (hp : Header.parse image = .ok header) (hf : header.fault? = none)
    (hs : ¬image.size < header.imageSize) :
    ofImage image = .ok {
      header := header
      program := {
        bytes := programBytes header image
        banks := header.programBanks.toNat
        banks_eq := banks_of_supported hf
        size_eq := size_programBytes hs }
      graphics := graphicsBytes header image } := by
  unfold ofImage
  rw [hp]
  dsimp only
  split
  next e he => rw [hf] at he; cases he
  next => rw [dif_neg hs]

theorem size_graphicsBytes {header : Header} {image : Array UInt8}
    (h : header.imageSize ≤ image.size) :
    (graphicsBytes header image).size = header.graphicsSize := by
  rw [graphicsBytes, Array.size_extract, Nat.min_eq_left h]
  exact Nat.add_sub_cancel_left ..

theorem isEmpty_graphics_iff {image : Array UInt8} {cartridge : Cartridge}
    (h : ofImage image = .ok cartridge) :
    cartridge.graphics.isEmpty = false ↔ cartridge.header.graphicsBanks = 1 := by
  obtain ⟨-, hf, hs, -, hg⟩ := ofImage_eq_ok h
  have hsize := size_graphicsBytes hs
  rw [← hg, Header.graphicsSize] at hsize
  rw [Array.isEmpty, hsize]
  rcases ((Header.fault?_eq_none_iff _).1 hf).2.2.2.2 with hb | hb
  · rw [hb]
    decide
  · rw [hb]
    decide

theorem banks_eq_programBanks {image : Array UInt8} {cartridge : Cartridge}
    (h : ofImage image = .ok cartridge) :
    cartridge.program.banks = cartridge.header.programBanks.toNat := by
  obtain ⟨-, -, hs, hb, -⟩ := ofImage_eq_ok h
  have hsize := size_programBytes (Nat.not_lt.2 hs)
  rw [← hb, cartridge.program.size_eq] at hsize
  exact Nat.eq_of_mul_eq_mul_right (by decide) hsize

theorem getElem?_image {image : Array UInt8} {cartridge : Cartridge}
    (h : ofImage image = .ok cartridge) {address : UInt16} (ha : 0x8000 ≤ address) :
    image[16 + (if cartridge.header.hasTrainer then 512 else 0) +
        (address.toNat - 0x8000) % (cartridge.header.programBanks.toNat * 0x4000)]? =
      some (cartridge.program.read address) := by
  have hoffset := cartridge.program.windowStart_add_eq ha
  rw [banks_eq_programBanks h] at hoffset
  obtain ⟨-, -, -, hb, -⟩ := ofImage_eq_ok h
  have hread : cartridge.program.bytes[
      cartridge.program.windowStart (ProgramRom.window address) +
        address.toNat % ProgramRom.windowSize]? = some (cartridge.program.read address) :=
    Array.getElem?_eq_getElem _
  rw [hb, programBytes, Array.getElem?_extract, hoffset] at hread
  split at hread
  · exact hread
  · cases hread

end Cartridge

/-! ## Filled cartridges -/

/-- The header of one program bank and no graphics bank. -/
def Header.oneBank : Header where
  programBanks := 1
  graphicsBanks := 0
  flags6 := 0
  flags7 := 0
  reserved := Vector.replicate 8 0

namespace Cartridge

/-- The bytes of the header of one program bank. -/
def oneBankBytes : Array UInt8 :=
  #[0x4E, 0x45, 0x53, 0x1A, 1, 0, 0, 0, 0, 0, 0, 0, 0, 0, 0, 0]

/-- The image of a cartridge with one program bank. -/
def bankImage (bank : Vector UInt8 Header.programBankSize) : Array UInt8 :=
  oneBankBytes ++ bank.toArray

/-- The cartridge with one program bank. -/
def ofBank (bank : Vector UInt8 Header.programBankSize) : Cartridge where
  header := .oneBank
  program := {
    bytes := bank.toArray
    banks := 1
    banks_eq := .inl rfl
    size_eq := by rw [Vector.size_toArray, Nat.one_mul] }
  graphics := #[]

/-- The image with one program bank that is filled with `value`. -/
def filledImage (value : UInt8) : Array UInt8 :=
  oneBankBytes ++ Array.replicate Header.programBankSize value

/-- The cartridge with one program bank that is filled with `value`. -/
def filled (value : UInt8) : Cartridge where
  header := .oneBank
  program := {
    bytes := Array.replicate Header.programBankSize value
    banks := 1
    banks_eq := .inl rfl
    size_eq := by rw [Array.size_replicate, Nat.one_mul] }
  graphics := #[]

theorem parse_append {bytes rest : Array UInt8} (h : bytes.size = 16) :
    Header.parse (bytes ++ rest) = Header.parse bytes := by
  have hx : (bytes ++ rest).extract 0 4 = bytes.extract 0 4 := by
    rw [Array.extract_append, h, Nat.zero_sub, Array.extract_zero, Array.append_empty]
  unfold Header.parse
  rw [hx]
  split
  next => rfl
  next =>
    rw [dif_neg (by rw [Array.size_append]; omega), dif_neg (by omega)]
    simp (disch := omega) only [Array.getElem_append_left]

theorem programBytes_bankImage (bank : Vector UInt8 Header.programBankSize) :
    programBytes .oneBank (bankImage bank) = bank.toArray := by
  have hs : oneBankBytes.size = 16 := rfl
  have hstart : Header.oneBank.programStart = 16 := by decide
  have hsize : Header.oneBank.programSize = bank.toArray.size := by
    rw [Vector.size_toArray]
    decide
  rw [programBytes, bankImage, Array.extract_append, hstart, hsize,
    Array.extract_empty_of_size_le_start (by omega), Array.empty_append, hs, Nat.sub_self,
    Nat.add_sub_cancel_left, Array.extract_size]

theorem ofImage_bankImage (bank : Vector UInt8 Header.programBankSize) :
    ofImage (bankImage bank) = .ok (ofBank bank) := by
  have hp : Header.parse (bankImage bank) = .ok Header.oneBank := parse_append rfl
  have hf : Header.oneBank.fault? = none := by decide
  have hs : ¬(bankImage bank).size < Header.oneBank.imageSize := by
    rw [bankImage, Array.size_append, Vector.size_toArray]
    decide
  have hgraphics : graphicsBytes Header.oneBank (bankImage bank) = #[] :=
    Array.extract_empty_of_stop_le_start (by decide)
  rw [ofImage_of_supported hp hf hs]
  simp only [programBytes_bankImage, hgraphics]
  rfl

theorem ofImage_filledImage (value : UInt8) : ofImage (filledImage value) = .ok (filled value) :=
  ofImage_bankImage (.replicate _ value)

/-- What the processor sees of a bank, which is there twice. -/
theorem getElem?_bank (bank : Vector UInt8 Header.programBankSize) {address : UInt16}
    (h : 0x8000 ≤ address) :
    bank[(address.toNat - 0x8000) % 0x4000]? = some ((ofBank bank).program.read address) := by
  have himage := getElem?_image (ofImage_bankImage bank) h
  have hs : oneBankBytes.size = 16 := rfl
  have hbanks : (ofBank bank).header.programBanks.toNat = 1 := rfl
  have htrainer : (ofBank bank).header.hasTrainer = false := by
    change Header.oneBank.hasTrainer = false
    decide
  rw [htrainer, hbanks, Nat.one_mul, if_neg Bool.false_ne_true, bankImage,
    Array.getElem?_append_right (by omega), hs, Nat.add_zero, Nat.add_sub_cancel_left] at himage
  rw [← himage, Vector.getElem?_toArray]

/-- A bank with some code at its beginning. The reset vector leads to `$8000`. -/
def codeBank (code : List UInt8) : Vector UInt8 Header.programBankSize :=
  .ofFn fun i => if i.val = 0x3FFD then 0x80 else code.getD i.val 0

theorem read_codeBank (code : List UInt8) {address : UInt16} (h : 0x8000 ≤ address) :
    (ofBank (codeBank code)).program.read address =
      if (address.toNat - 0x8000) % 0x4000 = 0x3FFD then 0x80
      else code.getD ((address.toNat - 0x8000) % 0x4000) 0 := by
  have hlt : (address.toNat - 0x8000) % 0x4000 < Header.programBankSize :=
    Nat.mod_lt _ (by decide)
  have hbank := getElem?_bank (codeBank code) h
  rw [Vector.getElem?_eq_getElem hlt, codeBank, Vector.getElem_ofFn] at hbank
  exact (Option.some.inj hbank).symm

theorem read_filled (value : UInt8) (address : UInt16) :
    (filled value).program.read address = value := by
  simp only [ProgramRom.read, filled, Array.getElem_replicate]

/-- The smallest image of a cartridge that brings graphics memory. -/
def twoBankImage : Array UInt8 :=
  #[0x4E, 0x45, 0x53, 0x1A, 1, 1, 0, 0, 0, 0, 0, 0, 0, 0, 0, 0] ++ Array.replicate 0x6000 0x48

theorem ofImage_twoBankImage :
    ∃ cartridge, ofImage twoBankImage = .ok cartridge ∧ cartridge.header.graphicsBanks = 1 := by
  have hp : Header.parse twoBankImage = .ok { Header.oneBank with graphicsBanks := 1 } :=
    parse_append rfl
  have hs : ¬twoBankImage.size <
      ({ Header.oneBank with graphicsBanks := 1 } : Header).imageSize := by
    rw [twoBankImage, Array.size_append, Array.size_replicate]
    decide
  exact ⟨_, ofImage_of_supported hp (by decide) hs, rfl⟩

end Cartridge

end Nes
