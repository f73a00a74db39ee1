import Mathlib.Data.Nat.Digits.Defs
import Mathlib.Tactic.NormNum

/-!
# Numbers of several bytes

The processor works on one byte at a time. A longer number is kept as a list of bytes, low byte
first, and the same bytes stand for a number without a sign and for one in two's complement.

Results:

* `littleEndian_lt`, `littleEndian_complement`: `n` bytes count up to `256 ^ n`, and down from there
  when they are complemented.
* `twosComplement_eq`: the two readings of the same bytes.
* `twosComplement_cons`, `fitsSigned_succ`: the high byte alone has the sign.
* `twosComplement_complement`: a complement counts down from -1.
-/

namespace Nes

/-- The number that some bytes stand for, the low byte first. -/
def littleEndian (bytes : List UInt8) : Nat := Nat.ofDigits 256 (bytes.map UInt8.toNat)

/-- The number that they stand for in two's complement, between the halves of `256 ^ n`. -/
def twosComplement (bytes : List UInt8) : Int :=
  Int.bmod (littleEndian bytes) (256 ^ bytes.length)

/-- The number has a representation in two's complement with `n` bytes. -/
def FitsSigned (n : Nat) (value : Int) : Prop :=
  -2 ^ (8 * n - 1) ≤ value ∧ value < 2 ^ (8 * n - 1)

/-- Both bounds are comparisons of integers. -/
instance (n : Nat) (value : Int) : Decidable (FitsSigned n value) :=
  inferInstanceAs (Decidable (_ ∧ _))

/-! ## Without a sign -/

@[simp]
theorem littleEndian_nil : littleEndian [] = 0 := rfl

theorem littleEndian_cons (byte : UInt8) (rest : List UInt8) :
    littleEndian (byte :: rest) = byte.toNat + 256 * littleEndian rest := rfl

theorem littleEndian_lt (bytes : List UInt8) : littleEndian bytes < 256 ^ bytes.length := by
  have h := Nat.ofDigits_lt_base_pow_length (b := 256) (l := bytes.map UInt8.toNat) (by decide)
    fun x hx => by
      obtain ⟨byte, -, rfl⟩ := List.mem_map.1 hx
      exact byte.toNat_lt
  rwa [List.length_map] at h

theorem littleEndian_complement (bytes : List UInt8) :
    littleEndian (bytes.map (~~~ ·)) + littleEndian bytes + 1 = 256 ^ bytes.length := by
  induction bytes with
  | nil => rfl
  | cons byte rest ih =>
    have hb := byte.toNat_lt
    have hc : (~~~byte).toNat = 255 - byte.toNat := by simp
    rw [List.map_cons, littleEndian_cons, littleEndian_cons, List.length_cons, pow_succ, ← ih, hc]
    omega

/-! ## With a sign -/

/-- The half of `256 ^ n`, which is the first number without a representation. -/
theorem two_mul_half {n : Nat} (hn : n ≠ 0) : 256 ^ n = 2 * 2 ^ (8 * n - 1) := by
  obtain ⟨k, rfl⟩ := Nat.exists_eq_succ_of_ne_zero hn
  calc 256 ^ (k + 1) = (2 ^ 8) ^ (k + 1) := by norm_num
    _ = 2 ^ (8 * (k + 1)) := (pow_mul 2 8 (k + 1)).symm
    _ = 2 * 2 ^ (8 * (k + 1) - 1) := by
      rw [← pow_succ', Nat.sub_add_cancel (by omega)]

/-- The top bit tells the upper half. -/
theorem testBit_top {n : Nat} (hn : n ≠ 0) {value : Nat} (h : value < 256 ^ n) :
    value.testBit (8 * n - 1) = decide (256 ^ n ≤ 2 * value) := by
  rw [two_mul_half hn] at h ⊢
  rw [Nat.testBit_eq_decide_div_mod_eq, decide_eq_decide]
  generalize 2 ^ (8 * n - 1) = half at h ⊢
  rcases Nat.lt_or_ge value half with hlt | hge
  · rw [Nat.div_eq_of_lt hlt]
    omega
  · rw [Nat.div_eq_of_lt_le (k := 1) (by omega) (by omega)]
    omega

theorem twosComplement_eq (bytes : List UInt8) :
    twosComplement bytes =
      if 2 * littleEndian bytes < 256 ^ bytes.length then (littleEndian bytes : Int)
      else littleEndian bytes - (256 ^ bytes.length : Nat) := by
  have hlt := littleEndian_lt bytes
  rw [twosComplement, Int.bmod_def]
  generalize 256 ^ bytes.length = modulus at hlt ⊢
  have hmod : (littleEndian bytes : Int) % (modulus : Int) = littleEndian bytes :=
    Int.emod_eq_of_lt (by omega) (by omega)
  rw [hmod]
  split <;> split <;> omega

theorem twosComplement_cons (byte : UInt8) {rest : List UInt8} (h : rest ≠ []) :
    twosComplement (byte :: rest) = byte.toNat + 256 * twosComplement rest := by
  have hb := byte.toNat_lt
  have hhalf := two_mul_half (mt List.length_eq_zero_iff.1 h)
  rw [twosComplement_eq, twosComplement_eq, littleEndian_cons, List.length_cons, pow_succ, hhalf]
  generalize 2 ^ (8 * rest.length - 1) = half
  split <;> split <;> omega

theorem twosComplement_complement {bytes : List UInt8} (h : bytes ≠ []) :
    twosComplement (bytes.map (~~~ ·)) = -1 - twosComplement bytes := by
  have hlt := littleEndian_lt bytes
  have hc := littleEndian_complement bytes
  have hhalf := two_mul_half (mt List.length_eq_zero_iff.1 h)
  rw [twosComplement_eq, twosComplement_eq, List.length_map]
  rw [hhalf] at hc hlt ⊢
  generalize 2 ^ (8 * bytes.length - 1) = half at *
  split <;> split <;> omega

theorem fitsSigned_iff {n : Nat} (hn : n ≠ 0) (value : Int) :
    FitsSigned n value ↔ -(256 ^ n : Nat) ≤ 2 * value ∧ 2 * value < (256 ^ n : Nat) := by
  have hhalf : ((256 ^ n : Nat) : Int) = 2 * 2 ^ (8 * n - 1) := by exact_mod_cast two_mul_half hn
  rw [FitsSigned, hhalf]
  omega

/-- A low byte more makes room for it and for no more. -/
theorem fitsSigned_succ {n : Nat} (hn : n ≠ 0) (byte : UInt8) (value : Int) :
    FitsSigned (n + 1) (byte.toNat + 256 * value) ↔ FitsSigned n value := by
  have hb := byte.toNat_lt
  have hexp : 8 * (n + 1) - 1 = 8 + (8 * n - 1) := by omega
  have hpow : (2 : Int) ^ (8 * (n + 1) - 1) = 256 * 2 ^ (8 * n - 1) := by
    rw [hexp, pow_add]
    rfl
  rw [FitsSigned, FitsSigned, hpow]
  omega

end Nes
