import Nes.Graphics.Color
import Nes.Graphics.Ppu

/-!
# The picture

The background is a grid of 32 by 30 tiles. The name table names the tile of each cell, the
pattern table gives two bits for each of its pixels, and two more bits for each block of 16 by 16
pixels come from the attribute bytes at the end of the name table. There are no sprites and there
is no scrolling.

Results:

* `colorIndex?_eq`: whole tables reach far enough for every pixel.
-/

namespace Nes.Picture

/-- Pixels in a row. -/
def columns : Nat := 256

/-- Rows of a picture. -/
def rows : Nat := 240

/-! ## Where a pixel's bits are -/

/-- The place of a pixel's tile in the name table. -/
def tileOffset (x y : Nat) : Nat := (x >>> 3) + (y >>> 3) * 32

/-- The place of a pixel's attribute byte in the name table. -/
def attributeOffset (x y : Nat) : Nat := 0x3C0 + (x >>> 5) + (y >>> 5) * 8

/-- Where a pixel's two bits begin in its attribute byte. -/
def quadrant (x y : Nat) : Nat := ((x &&& 0x10) >>> 3) ||| ((y &&& 0x10) >>> 2)

/-- The place of a row of a tile in the pattern table. Its other half is eight bytes on. -/
def patternOffset (tile : UInt8) (y : Nat) : Nat := tile.toNat * 16 + (y &&& 7)

/-- The bit of a row of a tile that belongs to a column. -/
def rowBit (row : UInt8) (x : Nat) : UInt8 := row >>> UInt8.ofNat (7 - (x &&& 7)) &&& 1

/-- The index of a color: two attribute bits over two pattern bits. -/
def combine (attributes low high : UInt8) (x y : Nat) : UInt8 :=
  (attributes >>> UInt8.ofNat (quadrant x y) &&& 3) <<< 2 ||| rowBit high x <<< 1 ||| rowBit low x

/-- The color index of a pixel, if the tables reach far enough (`color_index`). -/
def colorIndex? (nametable pattern : Array UInt8) (x y : Nat) : Option UInt8 := do
  let tile ← nametable[tileOffset x y]?
  let low ← pattern[patternOffset tile y]?
  let high ← pattern[patternOffset tile y + 8]?
  let attributes ← nametable[attributeOffset x y]?
  return combine attributes low high x y

/-! ## Whole tables -/

theorem tileOffset_lt {x y : Nat} (hx : x < columns) (hy : y < rows) : tileOffset x y < 0x3C0 := by
  simp only [tileOffset, columns, rows, Nat.shiftRight_eq_div_pow] at *
  omega

theorem attributeOffset_lt {x y : Nat} (hx : x < columns) (hy : y < rows) :
    attributeOffset x y < 0x400 := by
  simp only [attributeOffset, columns, rows, Nat.shiftRight_eq_div_pow] at *
  omega

theorem patternOffset_add_lt (tile : UInt8) (y : Nat) : patternOffset tile y + 8 < 0x1000 := by
  have h₁ := tile.toNat_lt
  have h₂ : y &&& 7 ≤ 7 := Nat.and_le_right
  unfold patternOffset
  omega

/-- The color index of a pixel. -/
def colorIndex (nametable : Vector UInt8 0x400) (pattern : Vector UInt8 0x1000) {x y : Nat}
    (hx : x < columns) (hy : y < rows) : UInt8 :=
  have := tileOffset_lt hx hy
  have := attributeOffset_lt hx hy
  let tile := nametable[tileOffset x y]
  have := patternOffset_add_lt tile y
  combine nametable[attributeOffset x y] pattern[patternOffset tile y]
    pattern[patternOffset tile y + 8] x y

theorem colorIndex?_eq (nametable : Vector UInt8 0x400) (pattern : Vector UInt8 0x1000)
    {x y : Nat} (hx : x < columns) (hy : y < rows) :
    colorIndex? nametable.toArray pattern.toArray x y =
      some (colorIndex nametable pattern hx hy) := by
  have h₁ : tileOffset x y < 0x400 := Nat.lt_trans (tileOffset_lt hx hy) (by decide)
  have h₂ := attributeOffset_lt hx hy
  have h₃ (tile : UInt8) : patternOffset tile y + 8 < 0x1000 := patternOffset_add_lt tile y
  have h₄ (tile : UInt8) : patternOffset tile y < 0x1000 := by have := h₃ tile; omega
  simp [colorIndex?, colorIndex, h₁, h₂, h₃, h₄]

/-! ## Frames -/

/-- The color with an index of which four bits count. -/
def color (colors : Vector UInt32 16) (index : UInt8) : UInt32 :=
  colors[index.toNat % 16]

/-- The number of pixels that are drawn in a frame of `n`: whole rows, and no more than a
    picture has. -/
def drawn (n : Nat) : Nat := min (n / columns) rows * columns

theorem column_lt (i : Nat) : i % columns < columns := Nat.mod_lt i (by decide)

theorem row_lt {i n : Nat} (h : i < drawn n) : i / columns < rows := by
  have : i < rows * columns := Nat.lt_of_lt_of_le h (Nat.mul_le_mul_right _ (Nat.min_le_right ..))
  exact Nat.div_lt_of_lt_mul (by rwa [Nat.mul_comm])

/-- Draw the first name table into a frame, row after row (`render_background`). Pixels after the
    last whole row stay as they are. -/
def draw (ppu : Ppu) {n : Nat} (frame : Vector UInt32 n) : Vector UInt32 n :=
  let nametable := ppu.memory.nametable 0
  let pattern := ppu.memory.patternTable ppu.backgroundTable
  let colors := Color.background ppu.memory.palette.toArray
  frame.mapIdx fun i old =>
    if h : i < drawn n then
      color colors (colorIndex nametable pattern (column_lt i) (row_lt h))
    else old

end Nes.Picture
