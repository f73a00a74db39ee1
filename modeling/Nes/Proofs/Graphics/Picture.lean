import Mathlib.Data.Nat.Bitwise
import Nes.Proofs.Bare.Picture
import Nes.Proofs.Graphics.Memory

/-!
# What a picture shows

A picture is laid out in tiles, and to say what a pixel of it shows takes quotients, remainders and
bits of bytes. The renderer gets there by shifts and masks of the coordinates, by one index of four
bits and by sixteen colors that are resolved before the first pixel. Both ways lead to the same
color, and the renderer never looks past the end of a table.

Results:

* `tileOffset_eq`, `attributeOffset_eq`, `patternOffset_eq`, `quadrant_eq`: the places that the
  renderer looks at, by quotients and remainders.
* `combine_toNat`: the index of a color, from a group and the bits of a tile.
* `getElem_draw`: a frame, pixel by pixel.
* `shows_pixelAt`: **every pixel is shown as the tables have it.**
-/

namespace Nes

namespace Picture

/-! ## Bits of a pixel -/

/-- Bit `k` of a byte. -/
def bit (byte : UInt8) (k : Nat) : Nat := byte.toNat / 2 ^ k % 2

/-- The two bits that a row of a tile has for a column. The second byte holds the high one. -/
def tileBits (low high : UInt8) (x : Nat) : Nat :=
  2 * bit high (7 - x % 8) + bit low (7 - x % 8)

/-- The two bits that an attribute byte has for a block of 16 by 16 pixels. -/
def group (attributes : UInt8) (x y : Nat) : Nat :=
  attributes.toNat / 2 ^ (2 * (x / 16 % 2) + 4 * (y / 16 % 2)) % 4

/-- The palette entry of a color. Where the tile has no bits set, the backdrop is seen. -/
def entryOf (group bits : Nat) : Nat := if bits = 0 then 0 else 4 * group + bits

/-- The pixel at column `x` of row `y`, tile by tile: the name table names the tile, two bytes of
its pattern and one attribute byte name the palette entry, and that names the color. -/
inductive Shows (ppu : Ppu) (x y : Nat) : UInt32 → Prop
  | intro {tile low high attributes entry : UInt8} {color pixel : UInt32}
    (tile_eq : (ppu.memory.nametable 0)[32 * (y / 8) + x / 8]? = some tile)
    (low_eq : (ppu.memory.patternTable (bit ppu.latches.control 4))[
      16 * tile.toNat + y % 8]? = some low)
    (high_eq : (ppu.memory.patternTable (bit ppu.latches.control 4))[
      16 * tile.toNat + 8 + y % 8]? = some high)
    (attributes_eq : (ppu.memory.nametable 0)[0x3C0 + 8 * (y / 32) + x / 32]? = some attributes)
    (entry_eq : ppu.memory.palette[
      entryOf (group attributes x y) (tileBits low high x)]? = some entry)
    (color_eq : Color.hardware[entry.toNat]? = some color)
    (pixel_eq : pixel.toNat = 256 * color.toNat + 0xFF) :
    Shows ppu x y pixel

/-! ## Shifts and masks -/

theorem and_seven (a : Nat) : a &&& 7 = a % 8 := Nat.and_two_pow_sub_one_eq_mod a 3

theorem and_sixteen (a : Nat) : a &&& 0x10 = 16 * (a / 16 % 2) := by
  have h : a &&& 2 ^ 4 = (a.testBit 4).toNat * 2 ^ 4 := Nat.and_two_pow a 4
  rw [Nat.toNat_testBit, Nat.mul_comm] at h
  exact h

/-- Tiles are eight pixels wide and high, 32 to a row. -/
theorem tileOffset_eq (x y : Nat) : tileOffset x y = 32 * (y / 8) + x / 8 := by
  simp only [tileOffset, Nat.shiftRight_eq_div_pow]
  omega

/-- An attribute byte covers 32 pixels each way. -/
theorem attributeOffset_eq (x y : Nat) :
    attributeOffset x y = 0x3C0 + 8 * (y / 32) + x / 32 := by
  simp only [attributeOffset, Nat.shiftRight_eq_div_pow]
  omega

/-- A tile has sixteen bytes, and a row of it one in each half. -/
theorem patternOffset_eq (tile : UInt8) (y : Nat) :
    patternOffset tile y = 16 * tile.toNat + y % 8 := by
  rw [patternOffset, and_seven]
  omega

/-- The place of a pixel's group in its attribute byte. -/
theorem quadrant_eq (x y : Nat) : quadrant x y = 2 * (x / 16 % 2) + 4 * (y / 16 % 2) := by
  rw [quadrant, and_sixteen, and_sixteen]
  rcases Nat.mod_two_eq_zero_or_one (x / 16) with hx | hx <;>
    rcases Nat.mod_two_eq_zero_or_one (y / 16) with hy | hy <;> rw [hx, hy] <;> rfl

theorem shiftRight_toNat (byte : UInt8) {k : Nat} (h : k < 8) :
    (byte >>> UInt8.ofNat k).toNat = byte.toNat / 2 ^ k := by
  have hk : (UInt8.ofNat k).toNat % 8 = k := by
    rw [UInt8.toNat_ofNat']
    omega
  rw [UInt8.toNat_shiftRight, hk, Nat.shiftRight_eq_div_pow]

/-- The leftmost pixel of a row is its top bit. -/
theorem rowBit_toNat (row : UInt8) (x : Nat) : (rowBit row x).toNat = bit row (7 - x % 8) := by
  rw [rowBit, and_seven, UInt8.toNat_and, shiftRight_toNat row (by omega)]
  exact Nat.and_one_is_mod _

theorem group_eq (attributes : UInt8) (x y : Nat) :
    (attributes >>> UInt8.ofNat (quadrant x y) &&& 3).toNat = group attributes x y := by
  rw [UInt8.toNat_and, shiftRight_toNat attributes (quadrant_lt x y), quadrant_eq]
  exact Nat.and_two_pow_sub_one_eq_mod _ 2

theorem tileBits_lt (low high : UInt8) (x : Nat) : tileBits low high x < 4 := by
  have h₁ : bit high (7 - x % 8) < 2 := Nat.mod_lt _ (by decide)
  have h₂ : bit low (7 - x % 8) < 2 := Nat.mod_lt _ (by decide)
  unfold tileBits
  omega

theorem group_lt (attributes : UInt8) (x y : Nat) : group attributes x y < 4 :=
  Nat.mod_lt _ (by decide)

/-- The index has the group above the two bits of the tile. -/
theorem combine_toNat (attributes low high : UInt8) (x y : Nat) :
    (combine attributes low high x y).toNat =
      4 * group attributes x y + tileBits low high x := by
  have key : ∀ g < 4, ∀ h < 2, ∀ l < 2,
      (UInt8.ofNat g <<< 2 ||| UInt8.ofNat h <<< 1 ||| UInt8.ofNat l).toNat =
        4 * g + (2 * h + l) := by
    decide
  have hk := key (group attributes x y) (group_lt attributes x y)
    (bit high (7 - x % 8)) (Nat.mod_lt _ (by decide))
    (bit low (7 - x % 8)) (Nat.mod_lt _ (by decide))
  rw [tileBits, ← hk, ← group_eq, ← rowBit_toNat, ← rowBit_toNat]
  simp only [UInt8.ofNat_toNat, combine]

/-- Bit 4 of control chooses the table. -/
theorem backgroundTable_eq (ppu : Ppu) : ppu.backgroundTable = bit ppu.latches.control 4 := by
  have h : (ppu.latches.control &&& 0x10).toNat = 16 * bit ppu.latches.control 4 := by
    rw [UInt8.toNat_and]
    exact and_sixteen _
  have hlt : bit ppu.latches.control 4 < 2 := Nat.mod_lt _ (by decide)
  have hz : ppu.latches.control &&& 0x10 = 0 ↔ bit ppu.latches.control 4 = 0 := by
    rw [← UInt8.toNat_inj, h, UInt8.toNat_zero]
    omega
  unfold Ppu.backgroundTable
  by_cases hc : ppu.latches.control &&& 0x10 = 0
  · simp [hc, hz.1 hc]
  · have := mt hz.2 hc
    simp only [bne_iff_ne, ne_eq, hc, not_false_eq_true, if_true]
    omega

/-! ## Colors -/

/-- Each index finds its entry, and bits that are zero find the backdrop. -/
theorem color_background (palette : Vector UInt8 32) {index : UInt8} {g bits : Nat}
    (hg : g < 4) (hb : bits < 4) (h : index.toNat = 4 * g + bits) :
    ∃ entry, palette[entryOf g bits]? = some entry ∧
      color (Color.background palette.toArray) index = Color.pixel entry := by
  have hlt : entryOf g bits < 32 := by
    unfold entryOf
    split_ifs <;> omega
  have he : (if index.toNat % 16 % 4 = 0 then 0 else index.toNat % 16) = entryOf g bits := by
    unfold entryOf
    split_ifs <;> omega
  refine ⟨palette[entryOf g bits], Vector.getElem?_eq_getElem _, ?_⟩
  simp only [color, Color.background, Vector.getElem_ofFn, he]
  simp [hlt]

theorem pixel_toNat {entry : UInt8} (h : entry < 0x40) :
    ∃ color, Color.hardware[entry.toNat]? = some color ∧
      (Color.pixel entry).toNat = 256 * color.toNat + 0xFF := by
  have key : ∀ i : Fin 64,
      (Color.hardware[i] <<< 8 ||| 0xFF).toNat = 256 * (Color.hardware[i]).toNat + 0xFF := by
    decide
  have hlt : entry.toNat < 64 := UInt8.lt_iff_toNat_lt.1 h
  have hf : Fin.ofNat 64 entry.toNat = ⟨entry.toNat, hlt⟩ := Fin.ext (Nat.mod_eq_of_lt hlt)
  refine ⟨Color.hardware[Fin.ofNat 64 entry.toNat], ?_, key _⟩
  simp only [hf]
  exact Vector.getElem?_eq_getElem hlt

/-! ## Frames -/

/-- The pixel at column `x` of row `y` of a picture. -/
def pixelAt (ppu : Ppu) {x y : Nat} (hx : x < columns) (hy : y < rows) : UInt32 :=
  color (Color.background ppu.memory.palette.toArray)
    (colorIndex (ppu.memory.nametable 0) (ppu.memory.patternTable ppu.backgroundTable) hx hy)

/-- **A drawn pixel**, or the old one outside the picture. -/
theorem getElem_draw (ppu : Ppu) {n : Nat} (frame : Vector UInt32 n) {i : Nat} (hi : i < n) :
    (draw ppu frame)[i] =
      if h : i < drawn n then pixelAt ppu (column_lt i) (row_lt h) else frame[i] := by
  simp only [draw, Vector.getElem_mapIdx, pixelAt]

/-- Only whole rows are drawn, and at most 240. -/
theorem lt_drawn_iff (i n : Nat) : i < drawn n ↔ i / 256 < min (n / 256) 240 :=
  (Nat.div_lt_iff_lt_mul (by decide)).symm

/-- A whole picture is drawn over, whatever was there. -/
theorem getElem_draw_picture (ppu : Ppu) (frame : Vector UInt32 (columns * rows)) {i : Nat}
    (hi : i < columns * rows) :
    (draw ppu frame)[i] = pixelAt ppu (column_lt i) (row_lt (n := columns * rows) hi) := by
  have hd : drawn (columns * rows) = columns * rows := by decide
  have hi' : i < drawn (columns * rows) := hd ▸ hi
  rw [getElem_draw, dif_pos hi']

/-- A whole picture does not depend on the one before. -/
theorem draw_congr (ppu : Ppu) (frame frame' : Vector UInt32 (columns * rows)) :
    draw ppu frame = draw ppu frame' := by
  refine Vector.ext fun i hi => ?_
  rw [getElem_draw_picture ppu frame hi, getElem_draw_picture ppu frame' hi]

/-- The bytes behind the index of a color. -/
theorem exists_of_colorIndex (nametable : Vector UInt8 0x400) (pattern : Vector UInt8 0x1000)
    {x y : Nat} (hx : x < columns) (hy : y < rows) :
    ∃ tile low high attributes, nametable[tileOffset x y]? = some tile ∧
      pattern[patternOffset tile y]? = some low ∧
      pattern[patternOffset tile y + 8]? = some high ∧
      nametable[attributeOffset x y]? = some attributes ∧
      colorIndex nametable pattern hx hy = combine attributes low high x y := by
  have h := colorIndex?_eq nametable pattern hx hy
  simp only [colorIndex?, Vector.getElem?_toArray, Option.bind_eq_bind,
    Option.bind_eq_some_iff] at h
  obtain ⟨tile, ht, low, hl, high, hh, attributes, ha, hi⟩ := h
  exact ⟨tile, low, high, attributes, ht, hl, hh, ha, (Option.some.inj hi).symm⟩

/-- A pixel has the colour that the numbers of its tile, group and entry lead to. -/
theorem shows_pixelAt (ppu : Ppu) {x y : Nat} (hx : x < columns) (hy : y < rows)
    (hp : ∀ entry : Fin 32, getElem ppu.memory.palette entry entry.isLt < 0x40) :
    Shows ppu x y (pixelAt ppu hx hy) := by
  obtain ⟨tile, low, high, attributes, ht, hl, hh, ha, hi⟩ :=
    exists_of_colorIndex (ppu.memory.nametable 0) (ppu.memory.patternTable ppu.backgroundTable)
      hx hy
  obtain ⟨entry, he, hc⟩ := color_background ppu.memory.palette
    (group_lt attributes x y) (tileBits_lt low high x) (combine_toNat attributes low high x y)
  obtain ⟨hlt, hget⟩ := Vector.getElem?_eq_some_iff.1 he
  obtain ⟨color, hcolor, hpixel⟩ := pixel_toNat (hget ▸ hp ⟨_, hlt⟩)
  rw [tileOffset_eq] at ht
  rw [patternOffset_eq, backgroundTable_eq] at hl hh
  rw [attributeOffset_eq] at ha
  refine .intro ht hl ?_ ha he hcolor ?_
  · rw [Nat.add_right_comm]
    exact hh
  · rw [pixelAt, hi, hc]
    exact hpixel

end Picture

end Nes
