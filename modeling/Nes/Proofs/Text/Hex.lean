import Mathlib.Data.Nat.Digits.Defs
import Nes.Text.Hex

/-!
# Hexadecimal text read back

What stands in hexadecimal is read as digits to the base 16, the most significant one first.

Results:

* `number?_map_digit`: digits are read as the number that they stand for.
* `byte?_byteChars`, `word?_wordChars`: bytes and words are read back.
* `bytes_intercalate`: so are bytes with blanks between and behind them.
-/

namespace Nes.Hex

/-- The value of a digit. -/
def value? (c : Char) : Option Nat := "0123456789ABCDEF".toList.idxOf? c

/-- The number that some digits stand for, the most significant one first. -/
def number? (text : List Char) : Option Nat :=
  (text.mapM value?).map fun digits => Nat.ofDigits 16 digits.reverse

/-- The byte that some digits stand for. -/
def byte? (text : List Char) : Option UInt8 := (number? text).map UInt8.ofNat

/-- The word that some digits stand for. -/
def word? (text : List Char) : Option UInt16 := (number? text).map UInt16.ofNat

/-- The bytes that some text shows: two digits each with one character between them, up to the
first place where there are no digits. -/
def bytes : List Char → List UInt8
  | high :: low :: _ :: rest =>
    match byte? [high, low] with
    | some b => b :: bytes rest
    | none => []
  | [high, low] => (byte? [high, low]).toList
  | _ => []

/-! ## Numbers -/

theorem value?_digit {n : Nat} (h : n < 16) : value? (digit n) = some n := by
  have key : ∀ n : Fin 16, value? (digit n) = some n.val := by decide
  exact key ⟨n, h⟩

theorem number?_map_digit {digits : List Nat} (h : ∀ n ∈ digits, n < 16) :
    number? (digits.map digit) = some (Nat.ofDigits 16 digits.reverse) := by
  have hvalues : (digits.map digit).mapM value? = some digits := by
    induction digits with
    | nil => rfl
    | cons n digits ih =>
      rw [List.map_cons, List.mapM_cons, value?_digit (h n List.mem_cons_self),
        ih fun m hm => h m (List.mem_cons_of_mem n hm)]
      rfl
  rw [number?, hvalues, Option.map_some]

theorem byte?_byteChars (b : UInt8) : byte? (byteChars b) = some b := by
  have hb := b.toNat_lt
  have hchars : byteChars b = [b.toNat / 16, b.toNat % 16].map digit := rfl
  have hvalue : Nat.ofDigits 16 [b.toNat / 16, b.toNat % 16].reverse = b.toNat := by
    simp [Nat.ofDigits]
    omega
  rw [byte?, hchars, number?_map_digit (by simp; omega), hvalue, Option.map_some,
    UInt8.ofNat_toNat]

theorem take_byteChars_append (b : UInt8) (rest : List Char) :
    (byteChars b ++ rest).take 2 = byteChars b := rfl

theorem drop_byteChars_append (b : UInt8) (rest : List Char) :
    (byteChars b ++ rest).drop 2 = rest := rfl

theorem word?_wordChars (w : UInt16) : word? (wordChars w) = some w := by
  have hw := w.toNat_lt
  let digits := [w.toNat / 256 / 16, w.toNat / 256 % 16, w.toNat % 256 / 16, w.toNat % 256 % 16]
  have hchars : wordChars w = digits.map digit := by
    simp only [wordChars, byteChars, highByte_toNat, lowByte_toNat]
    rfl
  have hvalue : Nat.ofDigits 16 digits.reverse = w.toNat := by
    simp [digits, Nat.ofDigits]
    omega
  rw [word?, hchars, number?_map_digit (by simp [digits]; omega), hvalue, Option.map_some,
    UInt16.ofNat_toNat]

/-! ## Bytes with blanks -/

theorem bytes_byteChars (b : UInt8) : bytes (byteChars b) = [b] := by
  show (byte? (byteChars b)).toList = [b]
  rw [byte?_byteChars]
  rfl

theorem bytes_byteChars_append (b : UInt8) (c : Char) (rest : List Char) :
    bytes (byteChars b ++ c :: rest) = b :: bytes rest := by
  show (match byte? (byteChars b) with
    | some b => b :: bytes rest
    | none => []) = b :: bytes rest
  rw [byte?_byteChars]

theorem bytes_replicate (n : Nat) : bytes (List.replicate n ' ') = [] := by
  have hblank : byte? [' ', ' '] = none := by decide
  match n with
  | 0 | 1 => rfl
  | 2 => rw [List.replicate, List.replicate, List.replicate, bytes, hblank]; rfl
  | n + 3 => rw [List.replicate, List.replicate, List.replicate, bytes, hblank]

/-- Bytes with one blank between two of them are read back, with any number of blanks behind. -/
theorem bytes_intercalate (bs : List UInt8) (n : Nat) :
    bytes ([' '].intercalate (bs.map byteChars) ++ List.replicate n ' ') = bs := by
  induction bs with
  | nil => exact bytes_replicate n
  | cons b rest ih =>
    cases rest with
    | nil =>
      rw [List.map_cons, List.map_nil, List.intercalate_singleton]
      -- behind the last byte the first blank, if there is one, is padding
      cases n with
      | zero => rw [List.replicate_zero, List.append_nil, bytes_byteChars]
      | succ n => rw [List.replicate_succ, bytes_byteChars_append, bytes_replicate]
    | cons c rest =>
      rw [List.map_cons] at ih
      rw [List.map_cons, List.map_cons, List.intercalate_cons_cons, List.append_assoc,
        List.append_assoc, List.singleton_append, bytes_byteChars_append, ih]

end Nes.Hex
