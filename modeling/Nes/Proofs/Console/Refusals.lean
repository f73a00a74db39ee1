import Nes.Proofs.Cartridge.Accepted
import Nes.Proofs.Console.Regions
import Nes.Proofs.Machine.Chronicle

/-!
# Refused accesses

Two decoders decide together whether an access is refused: the console by the region of the address,
the picture unit by three bits of it and, for the data register, by where in graphics memory the
register points. Nothing else counts, whatever has happened to the console before; and an access
that is refused leaves no trace.

Results:

* `Ppu.readRegister_error_iff`, `Ppu.Holds.writeRegister_error_iff`: what the picture unit refuses.
* `read_error_iff`, `write_error_iff`: what a console refuses.
* `error_iff_of_reaches`: **what every console with an accepted image refuses, and how.**
-/

namespace Nes

/-! ## The registers of the picture unit -/

namespace PpuRegister

/-- The place of a register among the eight. -/
def index : PpuRegister → UInt16
  | control => 0
  | mask => 1
  | status => 2
  | oamAddress => 3
  | oamData => 4
  | scroll => 5
  | address => 6
  | data => 7

theorem index_ofAddress (address : UInt16) : (ofAddress address).index = address &&& 7 := by
  have h : (address &&& 7).toNat = address.toNat % 8 := by
    rw [UInt16.toNat_and]
    exact Nat.and_two_pow_sub_one_eq_mod _ 3
  have hlt : address.toNat % 8 < 8 := Nat.mod_lt _ (by decide)
  apply UInt16.toNat_inj.1
  rw [h]
  unfold ofAddress
  generalize address.toNat % 8 = n at hlt ⊢
  match n, hlt with
  | 0, _ | 1, _ | 2, _ | 3, _ | 4, _ | 5, _ | 6, _ | 7, _ => rfl

theorem ofAddress_index (register : PpuRegister) : ofAddress register.index = register := by
  cases register <;> rfl

theorem ofAddress_eq_iff (address : UInt16) (register : PpuRegister) :
    ofAddress address = register ↔ address &&& 7 = register.index := by
  rw [← index_ofAddress]
  constructor
  · rintro rfl
    rfl
  · intro h
    rw [← ofAddress_index (ofAddress address), h, ofAddress_index]

end PpuRegister

namespace Ppu

variable {address : UInt16} {value : UInt8} {cause : BusError} {ppu ppu' : Ppu}

theorem readRegister_error_iff :
    readRegister address ppu = .error cause ppu' ↔
      ppu' = ppu ∧ address &&& 7 ∈ [0, 1, 3, 5, 6] ∧ cause = .writeOnlyRegister address := by
  rw [← PpuRegister.index_ofAddress]
  unfold readRegister
  cases PpuRegister.ofAddress address <;> simp [PpuRegister.index, eq_comm, and_comm]

theorem and_3FFF (a : UInt16) : a &&& 0x3FFF = UInt16.ofNat (graphicsAddress a) := by
  have h : (a &&& 0x3FFF).toNat = graphicsAddress a := by
    rw [UInt16.toNat_and]
    exact Nat.and_two_pow_sub_one_eq_mod _ 14
  rw [← h, UInt16.ofNat_toNat]

theorem and_3FFF_lt_iff (a : UInt16) : a &&& 0x3FFF < 0x2000 ↔ graphicsAddress a < 0x2000 := by
  have h : graphicsAddress a < 0x4000 := Nat.mod_lt _ (by decide)
  rw [and_3FFF, UInt16.lt_iff_toNat_lt, UInt16.toNat_ofNat',
    Nat.mod_eq_of_lt (Nat.lt_trans h (by decide))]
  rfl

/-- Why the picture unit refuses to be written: `vram` is the address of the data register, and
`readOnly` tells that pattern memory cannot be written. -/
inductive WriteRefused (readOnly : Prop) (vram address : UInt16) (value : UInt8) : BusError → Prop
  | status (h : address &&& 7 = 2) :
    WriteRefused readOnly vram address value (.readOnlyRegister address)
  | pattern (h : address &&& 7 = 7) (hv : vram &&& 0x3FFF < 0x2000) (hr : readOnly) :
    WriteRefused readOnly vram address value (.patternRomWrite (vram &&& 0x3FFF) value)

theorem Holds.writeRegister_error_iff {pattern : Array UInt8} {mirroring : Mirroring}
    {log : List (Nat × UInt8)} (h : Holds pattern mirroring log ppu) :
    writeRegister address value ppu = .error cause ppu' ↔ ppu' = ppu ∧
      WriteRefused (pattern.isEmpty = false) ppu.latches.vramAddress address value cause := by
  constructor
  · intro he
    refine ⟨writeRegister_error he, ?_⟩
    cases hr : PpuRegister.ofAddress address with
    | status =>
      simp only [writeRegister, hr] at he
      cases he
      exact .status ((PpuRegister.ofAddress_eq_iff ..).1 hr)
    | data =>
      have hd := h.writeRegister_data hr value
      dsimp only at hd
      split at hd
      next hc =>
        rw [he] at hd
        cases hd
        rw [← and_3FFF]
        exact .pattern ((PpuRegister.ofAddress_eq_iff ..).1 hr) ((and_3FFF_lt_iff _).2 hc.2) hc.1
      next =>
        obtain ⟨ppu'', hd⟩ := hd
        rw [he] at hd
        cases hd
    | _ =>
      simp only [writeRegister, hr] at he
      cases he
  · rintro ⟨rfl, hw⟩
    cases hw with
    | status hs =>
      have hr := (PpuRegister.ofAddress_eq_iff address .status).2 hs
      simp only [writeRegister, hr]
    | pattern hs hv hp =>
      have hr := (PpuRegister.ofAddress_eq_iff address .data).2 hs
      have hd := h.writeRegister_data hr value
      rw [if_pos ⟨hp, (and_3FFF_lt_iff _).1 hv⟩, ← and_3FFF] at hd
      exact hd

end Ppu

/-! ## The regions -/

namespace Region

theorem ofAddress_eq_ppu_iff (address : UInt16) :
    ofAddress address = ppu ↔ 0x2000 ≤ address ∧ address < 0x4000 := by
  rw [ofAddress_eq_iff, UInt16.lt_iff_toNat_lt, UInt16.le_iff_toNat_le]
  rfl

theorem ofAddress_eq_expansion_iff (address : UInt16) :
    ofAddress address = expansion ↔ 0x4020 ≤ address ∧ address < 0x6000 := by
  rw [ofAddress_eq_iff, UInt16.lt_iff_toNat_lt, UInt16.le_iff_toNat_le]
  rfl

end Region

namespace Console

variable {address : UInt16} {value : UInt8} {cause : BusError} {console console' : Console}

/-- Why a console refuses to be read. -/
inductive ReadRefused (address : UInt16) : BusError → Prop
  | expansion (h₁ : 0x4020 ≤ address) (h₂ : address < 0x6000) :
    ReadRefused address (.expansionAccess address)
  | register (h₁ : 0x2000 ≤ address) (h₂ : address < 0x4000)
      (h : address &&& 7 ∈ [0, 1, 3, 5, 6]) :
    ReadRefused address (.writeOnlyRegister address)

/-- Why a console refuses to be written, other than to copy a page: `vram` is the address of the
data register, and `readOnly` tells that pattern memory cannot be written. -/
inductive WriteRefused (readOnly : Prop) (vram address : UInt16) (value : UInt8) : BusError → Prop
  | expansion (h₁ : 0x4020 ≤ address) (h₂ : address < 0x6000) :
    WriteRefused readOnly vram address value (.expansionAccess address)
  | program (h : 0x8000 ≤ address) :
    WriteRefused readOnly vram address value (.programRomWrite address value)
  | register {cause : BusError} (h₁ : 0x2000 ≤ address) (h₂ : address < 0x4000)
      (h : Ppu.WriteRefused readOnly vram address value cause) :
    WriteRefused readOnly vram address value cause

theorem onPpu_error_iff {α : Type} {action : EStateM BusError Ppu α} {refused : BusError → Prop}
    (h : ∀ cause ppu', action console.ppu = .error cause ppu' ↔
      ppu' = console.ppu ∧ refused cause) :
    onPpu action console = .error cause console' ↔ console' = console ∧ refused cause := by
  obtain ⟨ram, saveRam, program, ppu, controllers⟩ := console
  dsimp only at h
  unfold onPpu
  constructor
  · intro he
    cases hc : action ppu with
    | ok a ppu' =>
      simp only [hc] at he
      cases he
    | error cause ppu' =>
      simp only [hc] at he
      cases he
      obtain ⟨rfl, hr⟩ := (h cause ppu').1 hc
      exact ⟨rfl, hr⟩
  · rintro ⟨rfl, hr⟩
    simp only [(h cause ppu).2 ⟨rfl, hr⟩]

theorem readRefused_iff :
    ReadRefused address cause ↔ match Region.ofAddress address with
      | .expansion => cause = .expansionAccess address
      | .ppu => address &&& 7 ∈ [0, 1, 3, 5, 6] ∧ cause = .writeOnlyRegister address
      | .ram | .io | .saveRam | .program => False := by
  constructor
  · rintro (⟨h₁, h₂⟩ | ⟨h₁, h₂, h⟩)
    · rw [(Region.ofAddress_eq_expansion_iff address).2 ⟨h₁, h₂⟩]
    · rw [(Region.ofAddress_eq_ppu_iff address).2 ⟨h₁, h₂⟩]
      exact ⟨h, rfl⟩
  · intro h
    cases hr : Region.ofAddress address with
    | expansion =>
      rw [hr] at h
      obtain ⟨h₁, h₂⟩ := (Region.ofAddress_eq_expansion_iff address).1 hr
      rw [show cause = _ from h]
      exact .expansion h₁ h₂
    | ppu =>
      rw [hr] at h
      obtain ⟨h₁, h₂⟩ := (Region.ofAddress_eq_ppu_iff address).1 hr
      rw [show cause = _ from h.2]
      exact .register h₁ h₂ h.1
    | _ =>
      rw [hr] at h
      exact h.elim

theorem read_error_iff :
    read address console = .error cause console' ↔
      console' = console ∧ ReadRefused address cause := by
  rw [readRefused_iff]
  unfold read
  cases hr : Region.ofAddress address with
  | ppu => exact onPpu_error_iff fun _ _ => Ppu.readRegister_error_iff
  | expansion => simp [eq_comm, and_comm]
  | _ => simp

theorem writeRefused_iff {readOnly : Prop} {vram : UInt16} :
    WriteRefused readOnly vram address value cause ↔ match Region.ofAddress address with
      | .expansion => cause = .expansionAccess address
      | .program => cause = .programRomWrite address value
      | .ppu => Ppu.WriteRefused readOnly vram address value cause
      | .ram | .io | .saveRam => False := by
  constructor
  · rintro (⟨h₁, h₂⟩ | h | ⟨h₁, h₂, h⟩)
    · rw [(Region.ofAddress_eq_expansion_iff address).2 ⟨h₁, h₂⟩]
    · rw [(Region.ofAddress_eq_program_iff address).2 h]
    · rw [(Region.ofAddress_eq_ppu_iff address).2 ⟨h₁, h₂⟩]
      exact h
  · intro h
    cases hr : Region.ofAddress address with
    | expansion =>
      rw [hr] at h
      obtain ⟨h₁, h₂⟩ := (Region.ofAddress_eq_expansion_iff address).1 hr
      rw [show cause = _ from h]
      exact .expansion h₁ h₂
    | program =>
      rw [hr] at h
      rw [show cause = _ from h]
      exact .program ((Region.ofAddress_eq_program_iff address).1 hr)
    | ppu =>
      rw [hr] at h
      obtain ⟨h₁, h₂⟩ := (Region.ofAddress_eq_ppu_iff address).1 hr
      exact .register h₁ h₂ h
    | _ =>
      rw [hr] at h
      exact h.elim

theorem writeOutput_of_ne (h : address ≠ oamDma) (value : UInt8) (console : Console) :
    ∃ console', writeOutput address value console = .ok () console' := by
  unfold writeOutput
  rw [if_neg h]
  split <;> exact ⟨_, rfl⟩

theorem write_error_iff {pattern : Array UInt8} {mirroring : Mirroring}
    {log : List (Nat × UInt8)} (h : Ppu.Holds pattern mirroring log console.ppu)
    (hd : address ≠ oamDma) :
    write address value console = .error cause console' ↔ console' = console ∧
      WriteRefused (pattern.isEmpty = false) console.ppu.latches.vramAddress address value
        cause := by
  rw [writeRefused_iff]
  unfold write
  cases hr : Region.ofAddress address with
  | ppu => exact onPpu_error_iff fun _ _ => h.writeRegister_error_iff
  | io =>
    obtain ⟨console'', ho⟩ := writeOutput_of_ne hd value console
    simp [ho]
  | expansion | program => simp [eq_comm, and_comm]
  | ram | saveRam => simp

/-! ## Consoles with a cartridge -/

variable {image : Array UInt8} {cartridge : Cartridge}

/-- **Main theorem.** In every console with an accepted image that events lead to, a read fails
exactly in the expansion area and at the registers that can only be written; and a write, unless it
starts a copy, exactly in the expansion area, in program memory, at the status register, and at the
data register when that points into the pattern memory of a cartridge that has a bank of it. The
error names the access, and the console stays as it was. -/
theorem error_iff_of_reaches (h : Cartridge.ofImage image = .ok cartridge)
    (hc : Reaches (ofCartridge cartridge) console) :
    (∀ address cause console', Bus.read address console = .error cause console' ↔
      console' = console ∧ ReadRefused address cause) ∧
    ∀ address value cause console', address ≠ 0x4014 →
      (Bus.write address value console = .error cause console' ↔ console' = console ∧
        WriteRefused (cartridge.header.graphicsBanks = 1) console.ppu.latches.vramAddress address
          value cause) := by
  refine ⟨fun _ _ _ => read_error_iff, fun address value cause console' hd => ?_⟩
  obtain ⟨log, hp⟩ := hc.holds
  rw [← Cartridge.isEmpty_graphics_iff h]
  exact write_error_iff hp hd

theorem error_iff_of_reaches_pattern :
    ∃ cartridge, Cartridge.ofImage Cartridge.twoBankImage = .ok cartridge ∧
      let console := ((Machine.powerOn cartridge {}).after
        [.write 0x2006 0x5F, .write 0x2006 0xFF]).cpu.bus
      Bus.write 0x3FFF 0x42 console = .error (.patternRomWrite 0x1FFF 0x42) console := by
  obtain ⟨cartridge, h, hb⟩ := Cartridge.ofImage_twoBankImage
  refine ⟨cartridge, h, ?_⟩
  intro console
  have hc := (Machine.powerOn cartridge {}).reaches_after [.write 0x2006 0x5F, .write 0x2006 0xFF]
  have hv : word 0xFF (highByte (word (lowByte 0) 0x5F)) = 0x5FFF := by decide
  have hv : console.ppu.latches.vramAddress = 0x5FFF := hv
  have hw : Ppu.WriteRefused (cartridge.header.graphicsBanks = 1) 0x5FFF 0x3FFF 0x42
      (.patternRomWrite 0x1FFF 0x42) := .pattern (by decide) (by decide) hb
  rw [← hv] at hw
  exact ((error_iff_of_reaches h hc).2 0x3FFF 0x42 _ _ (by decide)).2
    ⟨rfl, .register (by decide) (by decide) hw⟩

end Console

end Nes
