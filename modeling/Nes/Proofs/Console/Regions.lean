import Nes.Console

/-!
# The regions of the address space

Results:

* `Region.ofAddress_eq_iff`: the addresses of each region.
-/

namespace Nes.Region

/-- The first address of a region. -/
def first : Region → Nat
  | ram => 0
  | ppu => 0x2000
  | io => 0x4000
  | expansion => 0x4020
  | saveRam => 0x6000
  | program => 0x8000

/-- The address after the last of a region. -/
def stop : Region → Nat
  | ram => 0x2000
  | ppu => 0x4000
  | io => 0x4020
  | expansion => 0x6000
  | saveRam => 0x8000
  | program => 0x10000

theorem ofAddress_mem (address : UInt16) :
    (ofAddress address).first ≤ address.toNat ∧ address.toNat < (ofAddress address).stop := by
  have h := address.toNat_lt
  unfold ofAddress
  simp only [UInt16.lt_iff_toNat_lt, UInt16.reduceToNat]
  repeat' split
  all_goals simp only [first, stop]; omega

theorem ofAddress_eq_iff (address : UInt16) (region : Region) :
    ofAddress address = region ↔ region.first ≤ address.toNat ∧ address.toNat < region.stop := by
  have h := ofAddress_mem address
  constructor
  · rintro rfl
    exact h
  · intro hr
    cases ha : ofAddress address <;> cases region <;> first
      | rfl
      | (rw [ha] at h; simp only [first, stop] at h hr; omega)

theorem ofAddress_eq_ram_iff (address : UInt16) : ofAddress address = ram ↔ address < 0x2000 := by
  rw [ofAddress_eq_iff, UInt16.lt_iff_toNat_lt]
  exact and_iff_right (Nat.zero_le _)

theorem ofAddress_eq_saveRam_iff (address : UInt16) :
    ofAddress address = saveRam ↔ 0x6000 ≤ address ∧ address < 0x8000 := by
  rw [ofAddress_eq_iff, UInt16.lt_iff_toNat_lt, UInt16.le_iff_toNat_le]
  rfl

theorem ofAddress_eq_program_iff (address : UInt16) :
    ofAddress address = program ↔ 0x8000 ≤ address := by
  rw [ofAddress_eq_iff, UInt16.le_iff_toNat_le]
  exact and_iff_left address.toNat_lt

end Nes.Region
