/-!
# Bytes and words

The machine moves bytes (`UInt8`) and addresses memory with words (`UInt16`). A word is stored
low byte first.

Results:

* `highByte_word`, `word_lowByte_highByte`: a word, from its two bytes and back.
* `signExtend_toNat`: a byte of `$80` or more counts back from the next multiple of `$10000`.
-/

namespace Nes

/-- There are 256 bytes, so what is said of all of them can be checked by evaluation. -/
instance decidableForallByte (P : UInt8 → Prop) [DecidablePred P] : Decidable (∀ byte, P byte) :=
  decidable_of_iff (∀ n : Fin 256, P (UInt8.ofFin n))
    ⟨fun h byte => h byte.toFin, fun h n => h (UInt8.ofFin n)⟩

/-- The word with low byte `lo` and high byte `hi`. -/
def word (lo hi : UInt8) : UInt16 := UInt16.ofNat (lo.toNat + 256 * hi.toNat)

/-- The byte of a word that is stored first. -/
def lowByte (w : UInt16) : UInt8 := UInt8.ofNat w.toNat

/-- The byte of a word that is stored second. -/
def highByte (w : UInt16) : UInt8 := UInt8.ofNat (w.toNat / 256)

/-- A byte read as an offset from -128 to 127, as the word that adds it modulo `$10000`. -/
def signExtend (b : UInt8) : UInt16 := if b < 0x80 then b.toUInt16 else b.toUInt16 + 0xFF00

/-! ## Taking words apart -/

theorem word_toNat (lo hi : UInt8) : (word lo hi).toNat = lo.toNat + 256 * hi.toNat := by
  have h₁ := lo.toNat_lt
  have h₂ := hi.toNat_lt
  simp only [word, UInt16.toNat_ofNat']
  omega

theorem lowByte_toNat (w : UInt16) : (lowByte w).toNat = w.toNat % 256 := by
  simp [lowByte]

theorem highByte_toNat (w : UInt16) : (highByte w).toNat = w.toNat / 256 := by
  have h := w.toNat_lt
  simp only [highByte, UInt8.toNat_ofNat']
  omega

theorem highByte_word (lo hi : UInt8) : highByte (word lo hi) = hi := by
  have h := lo.toNat_lt
  apply UInt8.toNat_inj.1
  rw [highByte_toNat, word_toNat]
  omega

theorem word_lowByte_highByte (w : UInt16) : word (lowByte w) (highByte w) = w := by
  apply UInt16.toNat_inj.1
  rw [word_toNat, lowByte_toNat, highByte_toNat]
  omega

theorem signExtend_toNat (b : UInt8) :
    (signExtend b).toNat = if b.toNat < 128 then b.toNat else b.toNat + 0xFF00 := by
  have h := b.toNat_lt
  have hlt : b < 0x80 ↔ b.toNat < 128 := UInt8.lt_iff_toNat_lt
  unfold signExtend
  by_cases hb : b.toNat < 128
  · simp [hlt, hb]
  · simp only [hlt, hb, if_false, UInt16.toNat_add, UInt8.toNat_toUInt16, UInt16.reduceToNat]
    omega

end Nes
