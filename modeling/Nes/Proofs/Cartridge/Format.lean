import Mathlib.Data.Nat.Bitwise
import Nes.Proofs.Cartridge.Accepted

/-!
# The format of an image

An image is a header, a trainer if the header announces one, the program banks, the graphics banks
and whatever comes after them. Reading one takes it apart by offsets that depend on the header, and
checks seven conditions in two places on the way. Here the format is written down the other way
around, as bytes put one behind the other, and the conditions as one list: exactly what was put
together that way is read, as the parts it was put together from, and the first condition that
fails is the one that is reported.

Results:

* `Header.parse_eq`, `Header.ofBytes_append`, `Header.bytes_ofBytes`: reading a header takes back
  the writing of it.
* `Header.fault?_eq`: the checks of a header, in their order.
* `Cartridge.ofImage_of_firstFailing`: which check decides what becomes of an image.
* `Cartridge.ofImage_format`: **an image is accepted if and only if it has the format.**
-/

namespace Nes

/-! ## Checks -/

/-- A condition, and why an image is refused for which it fails. -/
structure Check where
  passes : Bool
  cause : CartridgeError

/-- The cause of the first check that fails. -/
def firstFailing : List Check → Option CartridgeError
  | [] => none
  | check :: rest => if check.passes then firstFailing rest else some check.cause

theorem firstFailing_append (checks rest : List Check) :
    firstFailing (checks ++ rest) = (firstFailing checks).or (firstFailing rest) := by
  induction checks with
  | nil => rfl
  | cons check checks ih =>
    simp only [List.cons_append, firstFailing]
    split_ifs
    · exact ih
    · rfl

/-- An image is accepted if all its checks pass. -/
theorem firstFailing_eq_none_iff (checks : List Check) :
    firstFailing checks = none ↔ ∀ check ∈ checks, check.passes = true := by
  induction checks with
  | nil => simp [firstFailing]
  | cons check checks ih =>
    simp only [firstFailing, List.forall_mem_cons]
    split_ifs with h
    · simp [h, ih]
    · simp [h]

/-! ## Headers as bytes -/

namespace Header

/-- The bytes that say what a header says. -/
def bytes (header : Header) : Array UInt8 :=
  signature ++ #[header.programBanks, header.graphicsBanks, header.flags6, header.flags7] ++
    header.reserved.toArray

/-- What the bytes of an image say after the signature. Missing ones are read as zeros. -/
def ofBytes (image : Array UInt8) : Header where
  programBanks := image[4]?.getD 0
  graphicsBanks := image[5]?.getD 0
  flags6 := image[6]?.getD 0
  flags7 := image[7]?.getD 0
  reserved := Vector.ofFn fun i => image[8 + i.val]?.getD 0

theorem size_bytes (header : Header) : header.bytes.size = 16 := by
  simp [bytes, signature]

theorem getD_of_lt {image : Array UInt8} {i : Nat} (h : i < image.size) :
    image[i]?.getD 0 = image[i] := by
  rw [Array.getElem?_eq_getElem h, Option.getD_some]

/-- The signature is looked at before the length. -/
theorem parse_eq (image : Array UInt8) :
    parse image =
      if image.extract 0 4 = signature then
        if 16 ≤ image.size then .ok (ofBytes image) else .error (.truncated 16 image.size)
      else .error .illegalFile := by
  unfold parse
  by_cases h₁ : image.extract 0 4 = signature
  · rw [if_pos h₁, if_neg (not_not_intro h₁)]
    by_cases h₂ : 16 ≤ image.size
    · have hr : ofBytes image = ⟨image[4], image[5], image[6], image[7],
          Vector.ofFn fun i : Fin 8 => image[8 + i.val]⟩ := by
        simp (disch := omega) only [ofBytes, getD_of_lt]
      rw [if_pos h₂, dif_neg (by omega), hr]
    · rw [if_neg h₂, dif_pos (by omega)]
      rfl
  · rw [if_neg h₁, if_pos h₁]

/-- What follows a header does not change how it is read. -/
theorem ofBytes_append (header : Header) (rest : Array UInt8) :
    ofBytes (header.bytes ++ rest) = header := by
  obtain ⟨programBanks, graphicsBanks, flags6, flags7, reserved⟩ := header
  have hi (i : Fin 8) : ¬8 + i.val < 8 := by omega
  simp [ofBytes, bytes, signature, Array.getElem?_append, hi]

/-- A header is read without loss. -/
theorem bytes_ofBytes {image : Array UInt8} (h₁ : image.extract 0 4 = signature)
    (h₂ : 16 ≤ image.size) : (ofBytes image).bytes = image.extract 0 16 := by
  have hsplit : image.extract 0 16 =
      image.extract 0 4 ++ image.extract 4 8 ++ image.extract 8 16 := by
    simp [Array.extract_append_extract]
  have hbanks : image.extract 4 8 = #[image[4], image[5], image[6], image[7]] := by
    refine Array.ext ?_ fun i hi₁ hi₂ => ?_
    · show _ = 4
      rw [Array.size_extract]
      omega
    · rw [Array.getElem_extract]
      match i, hi₂ with
      | 0, _ | 1, _ | 2, _ | 3, _ => rfl
  have hreserved : image.extract 8 16 = (ofBytes image).reserved.toArray := by
    refine Array.ext ?_ fun i hi₁ hi₂ => ?_
    · simp only [Array.size_extract, Vector.size_toArray]
      omega
    · simp only [Array.getElem_extract, ofBytes, Vector.getElem_toArray, Vector.getElem_ofFn]
      exact (getD_of_lt _).symm
  rw [hsplit, h₁, bytes, hbanks, hreserved]
  simp (disch := omega) only [ofBytes, getD_of_lt]

theorem parse_bytes_append (header : Header) (rest : Array UInt8) :
    parse (header.bytes ++ rest) = .ok header := by
  have hs : (header.bytes ++ rest).extract 0 4 = signature := by
    simp [bytes, signature, Array.extract_append]
  have hsize : 16 ≤ (header.bytes ++ rest).size := by
    rw [Array.size_append, size_bytes]
    omega
  rw [parse_eq, if_pos hs, if_pos hsize, ofBytes_append]

/-- So the bytes of a header that has been read are the first sixteen of the image. -/
theorem bytes_of_parse {image : Array UInt8} {header : Header} (h : parse image = .ok header) :
    16 ≤ image.size ∧ header.bytes = image.extract 0 16 := by
  rw [parse_eq] at h
  split_ifs at h with h₁ h₂
  cases h
  exact ⟨h₂, bytes_ofBytes h₁ h₂⟩

/-! ## Flags as numbers -/

/-- The number of the mapper, four bits from each byte of flags. -/
def mapperNumber (header : Header) : Nat :=
  header.flags6.toNat / 16 + 16 * (header.flags7.toNat / 16)

/-- The number of bytes between header and program. -/
def trainerLength (header : Header) : Nat := if header.flags6.toNat / 4 % 2 = 1 then 512 else 0

/-- The number of bytes that an image with this header has at least. -/
def leastSize (header : Header) : Nat :=
  16 + header.trainerLength + header.programBanks.toNat * 0x4000 +
    header.graphicsBanks.toNat * 0x2000

/-- What is checked of a header, in this order. -/
def checks (header : Header) : List Check := [
  ⟨header.flags7.toNat % 4 = 0, .unsupportedHardware⟩,
  ⟨header.mapperNumber = 0, .unsupportedMapper (UInt8.ofNat header.mapperNumber)⟩,
  ⟨header.programBanks = 1 ∨ header.programBanks = 2, .programBankCount header.programBanks⟩,
  ⟨header.graphicsBanks = 0 ∨ header.graphicsBanks = 1,
    .graphicsBankCount header.graphicsBanks⟩]

/-- A mask of one bit picks a binary digit. -/
theorem and_ne_zero_iff {byte mask : UInt8} {k : Nat} (h : mask.toNat = 2 ^ k) :
    byte &&& mask ≠ 0 ↔ byte.toNat / 2 ^ k % 2 = 1 := by
  rw [ne_eq, ← UInt8.toNat_inj, UInt8.toNat_and, h, Nat.and_two_pow, Nat.toNat_testBit,
    UInt8.toNat_zero, Nat.mul_eq_zero]
  have := Nat.two_pow_pos k
  omega

theorem and_F0 {a : Nat} (h : a < 256) : a &&& 0xF0 = 16 * (a / 16) := by
  have hhigh : (a &&& 0xF0) / 2 ^ 4 = a / 2 ^ 4 &&& (2 ^ 4 - 1) := Nat.and_div_two_pow
  have hlow : (a &&& 0xF0) % 2 ^ 4 = a % 2 ^ 4 &&& 0 := Nat.and_mod_two_pow
  rw [Nat.and_two_pow_sub_one_eq_mod] at hhigh
  rw [Nat.and_zero] at hlow
  omega

/-- The mapper's number is in the high halves of both bytes of flags. -/
theorem mapper_eq (header : Header) : header.mapper = UInt8.ofNat header.mapperNumber := by
  have h₆ : header.flags6.toNat / 16 < 2 ^ 4 := by
    have := header.flags6.toNat_lt
    omega
  have h₇ := header.flags7.toNat_lt
  have hor : 16 * (header.flags7.toNat / 16) + header.flags6.toNat / 16 =
      16 * (header.flags7.toNat / 16) ||| header.flags6.toNat / 16 :=
    Nat.two_pow_add_eq_or_of_lt h₆ _
  have hlow : (header.flags6 >>> 4).toNat = header.flags6.toNat / 16 :=
    (UInt8.toNat_shiftRight header.flags6 4).trans (Nat.shiftRight_eq_div_pow _ 4)
  have hhigh : (header.flags7 &&& 0xF0).toNat = 16 * (header.flags7.toNat / 16) := by
    rw [UInt8.toNat_and]
    exact and_F0 h₇
  rw [← UInt8.toNat_inj, mapper, UInt8.toNat_or, hlow, hhigh, UInt8.toNat_ofNat', Nat.or_comm,
    mapperNumber]
  omega

theorem hasTrainer_iff (header : Header) :
    header.hasTrainer = true ↔ header.flags6.toNat / 4 % 2 = 1 := by
  rw [hasTrainer, bne_iff_ne]
  exact and_ne_zero_iff (k := 2) rfl

theorem isVsUnisystem_or_isPlayChoice_iff (header : Header) :
    (header.isVsUnisystem || header.isPlayChoice) = true ↔ header.flags7.toNat % 4 ≠ 0 := by
  rw [isVsUnisystem, isPlayChoice, Bool.or_eq_true, bne_iff_ne, bne_iff_ne,
    and_ne_zero_iff (k := 0) rfl, and_ne_zero_iff (k := 1) rfl]
  omega

theorem programStart_eq (header : Header) : header.programStart = 16 + header.trainerLength := by
  rw [programStart, trainerLength]
  simp only [hasTrainer_iff]
  rfl

/-- The least size counts what the header announces. -/
theorem imageSize_eq (header : Header) : header.imageSize = header.leastSize := by
  rw [imageSize, programStart_eq]
  rfl

theorem ofNat_mapperNumber_eq_zero_iff (header : Header) :
    UInt8.ofNat header.mapperNumber = 0 ↔ header.mapperNumber = 0 := by
  have h₆ := header.flags6.toNat_lt
  have h₇ := header.flags7.toNat_lt
  rw [← UInt8.toNat_inj, UInt8.toNat_ofNat', UInt8.toNat_zero, mapperNumber]
  omega

/-- The checks of a header are made in the order of the list. -/
theorem fault?_eq (header : Header) : header.fault? = firstFailing header.checks := by
  have hprogram : header.programBanks < 1 ∨ 2 < header.programBanks ↔
      ¬(header.programBanks = 1 ∨ header.programBanks = 2) := by
    simp only [← UInt8.toNat_inj, UInt8.lt_iff_toNat_lt, UInt8.reduceToNat]
    omega
  have hgraphics : 1 < header.graphicsBanks ↔
      ¬(header.graphicsBanks = 0 ∨ header.graphicsBanks = 1) := by
    simp only [← UInt8.toNat_inj, UInt8.lt_iff_toNat_lt, UInt8.reduceToNat]
    omega
  simp only [fault?, checks, firstFailing, decide_eq_true_eq, isVsUnisystem_or_isPlayChoice_iff,
    ne_eq, mapper_eq, ofNat_mapperNumber_eq_zero_iff, hprogram, hgraphics, ite_not]

end Header

/-! ## Images -/

namespace Cartridge

/-- What is checked of an image, in this order. -/
def checks (image : Array UInt8) : List Check :=
  let header := Header.ofBytes image
  [⟨image.extract 0 4 = Header.signature, .illegalFile⟩,
    ⟨16 ≤ image.size, .truncated 16 image.size⟩] ++ header.checks ++
    [⟨header.leastSize ≤ image.size, .truncated header.leastSize image.size⟩]

/-- What is taken out of an image. -/
def parts (cartridge : Cartridge) : Header × Array UInt8 × Array UInt8 :=
  (cartridge.header, cartridge.program.bytes, cartridge.graphics)

/-- An image with these parts: they stand one behind the other, with a trainer where the header
announces one, and with anything at all at the end. -/
inductive Format : Array UInt8 → Header × Array UInt8 × Array UInt8 → Prop
  | intro {header : Header} {trainer program graphics rest : Array UInt8}
    (supported : ∀ check ∈ header.checks, check.passes = true)
    (trainer_size : trainer.size = header.trainerLength)
    (program_size : program.size = header.programBanks.toNat * 0x4000)
    (graphics_size : graphics.size = header.graphicsBanks.toNat * 0x2000) :
    Format (header.bytes ++ trainer ++ program ++ graphics ++ rest) (header, program, graphics)

theorem ofImage_of_parse {image : Array UInt8} {cause : CartridgeError}
    (h : Header.parse image = .error cause) : ofImage image = .error cause := by
  rw [ofImage, h]

theorem ofImage_of_fault {image : Array UInt8} {header : Header} {cause : CartridgeError}
    (hp : Header.parse image = .ok header) (hf : header.fault? = some cause) :
    ofImage image = .error cause := by
  unfold ofImage
  rw [hp]
  dsimp only
  split
  next e he => rw [← Option.some.inj (he.symm.trans hf)]
  next he => rw [hf] at he; cases he

/-- A header that passes still needs the bytes that it announces. -/
theorem ofImage_of_lt {image : Array UInt8} {header : Header}
    (hp : Header.parse image = .ok header) (hf : header.fault? = none)
    (hs : image.size < header.imageSize) :
    ofImage image = .error (.truncated header.imageSize image.size) := by
  unfold ofImage
  rw [hp]
  dsimp only
  split
  next e he => rw [hf] at he; cases he
  next => rw [dif_pos hs]

/-- The first check that fails decides; if none does, the image is accepted. -/
theorem ofImage_of_firstFailing (image : Array UInt8) :
    match firstFailing (checks image) with
    | some cause => ofImage image = .error cause
    | none => ∃ cartridge, ofImage image = .ok cartridge := by
  have hp := Header.parse_eq image
  simp only [checks, firstFailing_append, ← Header.fault?_eq, firstFailing, decide_eq_true_eq,
    ← Header.imageSize_eq]
  by_cases h₁ : image.extract 0 4 = Header.signature
  · by_cases h₂ : 16 ≤ image.size
    · rw [if_pos h₁, if_pos h₂] at hp ⊢
      cases hf : (Header.ofBytes image).fault? with
      | some cause => exact ofImage_of_fault hp hf
      | none =>
        by_cases h₃ : (Header.ofBytes image).imageSize ≤ image.size
        · rw [if_pos h₃]
          exact ⟨_, ofImage_of_supported hp hf (Nat.not_lt.2 h₃)⟩
        · rw [if_neg h₃]
          exact ofImage_of_lt hp hf (Nat.lt_of_not_le h₃)
    · rw [if_pos h₁, if_neg h₂] at hp ⊢
      exact ofImage_of_parse hp
  · rw [if_neg h₁] at hp ⊢
    exact ofImage_of_parse hp

/-- The cause that is given is that of the first check that fails. -/
theorem ofImage_eq_error_iff (image : Array UInt8) (cause : CartridgeError) :
    ofImage image = .error cause ↔ firstFailing (checks image) = some cause := by
  have h := ofImage_of_firstFailing image
  cases hf : firstFailing (checks image) with
  | some cause' =>
    rw [hf] at h
    rw [h, Except.error.injEq, Option.some.injEq]
  | none =>
    rw [hf] at h
    obtain ⟨cartridge, hc⟩ := h
    rw [hc]
    exact iff_of_false nofun nofun

/-- An image is accepted if and only if no check fails. -/
theorem exists_ofImage_iff (image : Array UInt8) :
    (∃ cartridge, ofImage image = .ok cartridge) ↔
      ∀ check ∈ checks image, check.passes = true := by
  rw [← firstFailing_eq_none_iff]
  have h := ofImage_of_firstFailing image
  cases hf : firstFailing (checks image) with
  | some cause =>
    rw [hf] at h
    rw [h]
    exact iff_of_false (fun ⟨_, hc⟩ => nomatch hc) nofun
  | none =>
    rw [hf] at h
    exact iff_of_true h rfl

/-! ## Parts of an image -/

theorem extract_middle (before middle after : Array UInt8) :
    (before ++ middle ++ after).extract before.size (before.size + middle.size) = middle := by
  simp

theorem append_extract {image : Array UInt8} {i j : Nat} (h : i ≤ j) :
    image.extract 0 i ++ image.extract i j = image.extract 0 j := by
  rw [Array.extract_append_extract, Nat.zero_min, Nat.max_eq_right h]

/-- The parts of a cartridge lie in the image as the format has it. -/
theorem format_of_ofImage {image : Array UInt8} {cartridge : Cartridge}
    (h : ofImage image = .ok cartridge) : Format image cartridge.parts := by
  obtain ⟨hp, hf, hs, hprogram, hgraphics⟩ := ofImage_eq_ok h
  obtain ⟨hsize, hbytes⟩ := Header.bytes_of_parse hp
  generalize hc : cartridge.header = header at *
  have hstart := header.programStart_eq
  have hle : header.programStart + header.programSize ≤ header.imageSize := Nat.le_add_right ..
  have himage : header.bytes ++ image.extract 16 header.programStart ++ cartridge.program.bytes ++
      cartridge.graphics ++ image.extract header.imageSize image.size = image := by
    rw [hbytes, hprogram, hgraphics, programBytes, graphicsBytes, append_extract (by omega),
      append_extract (Nat.le_add_right ..), append_extract hle, append_extract hs,
      Array.extract_size]
  rw [Header.fault?_eq, firstFailing_eq_none_iff] at hf
  rw [← himage, parts, hc]
  refine .intro hf ?_ ?_ ?_
  · rw [Array.size_extract]
    unfold Header.imageSize at hs
    omega
  · rw [hprogram]
    exact size_programBytes (Nat.not_lt.2 hs)
  · rw [hgraphics]
    exact size_graphicsBytes hs

/-- An image of that form is accepted, and gives the parts that it is made of. -/
theorem ofImage_of_format {image : Array UInt8} {content : Header × Array UInt8 × Array UInt8}
    (h : Format image content) :
    ∃ cartridge, ofImage image = .ok cartridge ∧ cartridge.parts = content := by
  obtain @⟨header, trainer, program, graphics, rest, hchecks, htrainer, hprogram, hgraphics⟩ := h
  have hf : header.fault? = none := by
    rw [Header.fault?_eq]
    exact (firstFailing_eq_none_iff _).2 hchecks
  have hp : Header.parse (header.bytes ++ trainer ++ program ++ graphics ++ rest) =
      .ok header := by
    simp only [Array.append_assoc]
    exact Header.parse_bytes_append ..
  -- where the parts begin, by the sizes of what stands before them
  have h₁ : header.programStart = (header.bytes ++ trainer).size := by
    rw [Header.programStart_eq, Array.size_append, Header.size_bytes, htrainer]
  have h₂ : header.programStart + header.programSize =
      (header.bytes ++ trainer ++ program).size := by
    rw [Array.size_append, ← h₁, hprogram]
    rfl
  have h₃ : header.imageSize = (header.bytes ++ trainer ++ program).size + graphics.size := by
    rw [Header.imageSize, h₂, hgraphics]
    rfl
  refine ⟨_, ofImage_of_supported hp hf ?_, ?_⟩
  · rw [h₃, Array.size_append, Array.size_append]
    omega
  · have hprogram' := extract_middle (header.bytes ++ trainer) program (graphics ++ rest)
    rw [← Array.append_assoc, ← Array.size_append, ← h₂, ← h₁] at hprogram'
    have hgraphics' := extract_middle (header.bytes ++ trainer ++ program) graphics rest
    rw [← h₃, ← h₂] at hgraphics'
    simp only [parts, programBytes, graphicsBytes, hprogram', hgraphics']

/-- **Main theorem.** An image is accepted if and only if every check passes, and refused for the
first that fails. What is taken out of it are the parts that it was put together from: whatever
header, trainer, program, graphics and rest are put one behind the other, this header, program and
graphics are read. -/
theorem ofImage_format (image : Array UInt8) :
    ((∃ cartridge, ofImage image = .ok cartridge) ↔
      ∀ check ∈ checks image, check.passes = true) ∧
    (∀ cause, ofImage image = .error cause ↔ firstFailing (checks image) = some cause) ∧
    ∀ content, (ofImage image).map parts = .ok content ↔ Format image content := by
  refine ⟨exists_ofImage_iff image, ofImage_eq_error_iff image, fun content => ⟨?_, ?_⟩⟩
  · intro h
    cases hc : ofImage image with
    | error cause =>
      rw [hc] at h
      cases h
    | ok cartridge =>
      rw [hc] at h
      cases h
      exact format_of_ofImage hc
  · intro h
    obtain ⟨cartridge, hc, rfl⟩ := ofImage_of_format h
    rw [hc]
    rfl

end Cartridge

end Nes
