import Nes.Graphics.Picture
import Nes.Proofs.Bare.Ppu

/-!
# The bare picture

Colors, tiles and pixels found by number in arrays of whatever length, and a frame that is drawn
row after row.

Results:

* `background_eq`: the colors of a frame.
* `pixel_eq`: a pixel of the picture, if the tables are whole.
* `bare_draw`: drawing a frame looks at nothing out of bounds, and draws the picture.
-/

namespace Nes

namespace Bare.Picture

/-- The color with an index. -/
def rgba (index : UInt8) : Option UInt32 := do
  let color ← Color.hardware.toArray[(index &&& 0x3F).toNat]?
  return color <<< 8 ||| 0xFF

/-- Put the first color in another place. -/
def copyFirst (colors : Array UInt32) (entry : Nat) : Option (Array UInt32) := do
  put colors entry (← colors[0]?)

/-- The sixteen colors of a frame from the entries of a palette: one after the other, and then the
    first again in the places of the backdrop. -/
def background (entries : Array UInt8) : Option (Array UInt32) := do
  let colors ← (List.range 16).mapM fun i => (entries[i]?.map rgba).getD (some 0)
  [4, 8, 12].foldlM copyFirst colors.toArray

/-- A byte shifted to the right. -/
def shift (byte : UInt8) (n : Nat) : Option UInt8 :=
  if n < 8 then some (byte >>> UInt8.ofNat n) else none

/-- The bit of a row of a tile that belongs to a column. -/
def rowBit (row : UInt8) (x : Nat) : Option UInt8 := do
  return (← shift row (← minus? 7 (x &&& 7))) &&& 1

/-- The color index of a pixel. -/
def colorIndex (nametable pattern : Array UInt8) (x y : Nat) : Option UInt8 := do
  let tile ← nametable[(x >>> 3) + (y >>> 3) * 32]?
  let row := tile.toNat * 16 + (y &&& 7)
  let low ← rowBit (← pattern[row]?) x
  let high ← rowBit (← pattern[row + 8]?) x
  let attributes ← nametable[0x3C0 + (x >>> 5) + (y >>> 5) * 8]?
  let quadrant := ((x &&& 0x10) >>> 3) ||| ((y &&& 0x10) >>> 2)
  return ((← shift attributes quadrant) &&& 3) <<< 2 ||| high <<< 1 ||| low

/-- A pixel. -/
def pixel (colors : Array UInt32) (nametable pattern : Array UInt8) (x y : Nat) :
    Option UInt32 := do
  let index ← colorIndex nametable pattern x y
  colors[(index &&& 0x0F).toNat]?

/-- Draw the first name table into a frame. -/
def draw (ppu : Ppu) (frame : Array UInt32) : Option (Array UInt32) := do
  let colors ← background ppu.palette
  let nametable ← ppu.nametable 0
  let pattern ← ppu.backgroundTable
  let n := Nes.Picture.drawn frame.size
  let pixels ← (List.range n).mapM fun i => pixel colors nametable pattern (i % 256) (i / 256)
  return pixels.toArray ++ frame.extract n frame.size

end Bare.Picture

namespace Picture

open Bare (put_toArray getElem?_toArray)

theorem mapM_eq_some {α β : Type} {f : α → Option β} {g : α → β} {xs : List α}
    (h : ∀ x ∈ xs, f x = some (g x)) : xs.mapM f = some (xs.map g) := by
  induction xs with
  | nil => rfl
  | cons x xs ih =>
    rw [List.mapM_cons, h x List.mem_cons_self, ih fun y hy => h y (List.mem_cons_of_mem _ hy)]
    rfl

/-! ## Colors -/

theorem rgba_eq (index : UInt8) : Bare.Picture.rgba index = some (Color.pixel index) := by
  have hi : (index &&& 0x3F).toNat = index.toNat % 64 := by
    rw [UInt8.toNat_and]
    exact Nat.and_two_pow_sub_one_eq_mod _ 6
  rw [Bare.Picture.rgba, hi, getElem?_toArray _ (Nat.mod_lt _ (by decide))]
  rfl

theorem copyFirst_eq (colors : Vector UInt32 16) {entry : Nat} (h : entry < 16) :
    Bare.Picture.copyFirst colors.toArray entry = some (colors.set entry colors[0]).toArray := by
  rw [Bare.Picture.copyFirst, getElem?_toArray _ (by decide)]
  exact put_toArray _ h _

theorem toArray_map_range {α : Type} (n : Nat) (g : Nat → α) :
    ((List.range n).map g).toArray = (Vector.ofFn fun i : Fin n => g i).toArray := by
  apply Array.ext
  · simp
  · intro i _ _
    simp

theorem background_eq (entries : Array UInt8) :
    Bare.Picture.background entries = some (Color.background entries).toArray := by
  have hm : (List.range 16).mapM (fun i => (entries[i]?.map Bare.Picture.rgba).getD (some 0)) =
      some ((List.range 16).map fun i => (entries[i]?.map Color.pixel).getD 0) := by
    refine mapM_eq_some fun i _ => ?_
    cases entries[i]? with
    | none => rfl
    | some entry => exact rgba_eq entry
  rw [Bare.Picture.background, hm, Option.bind_eq_bind, Option.bind_some, toArray_map_range]
  simp only [List.foldlM_cons, List.foldlM_nil, Option.bind_eq_bind, Option.bind_some,
    copyFirst_eq _ (by decide : 4 < 16), copyFirst_eq _ (by decide : 8 < 16),
    copyFirst_eq _ (by decide : 12 < 16)]
  refine congrArg some (Vector.toArray_inj.2 ?_)
  ext i hi
  simp only [Color.background, Vector.getElem_set, Vector.getElem_ofFn]
  by_cases h : i % 4 = 0
  · have hc : i = 0 ∨ i = 4 ∨ i = 8 ∨ i = 12 := by omega
    rcases hc with rfl | rfl | rfl | rfl <;> simp
  · rw [if_neg (by omega), if_neg (by omega), if_neg (by omega), if_neg h]

/-! ## Pixels -/

theorem shift_eq (byte : UInt8) {n : Nat} (h : n < 8) :
    Bare.Picture.shift byte n = some (byte >>> UInt8.ofNat n) := if_pos h

theorem rowBit_eq (row : UInt8) (x : Nat) : Bare.Picture.rowBit row x = some (rowBit row x) := by
  have h : x &&& 7 ≤ 7 := Nat.and_le_right
  rw [Bare.Picture.rowBit, Bare.minus?_of_le h]
  show (Bare.Picture.shift row (7 - (x &&& 7))).bind _ = _
  rw [shift_eq row (by omega)]
  rfl

theorem quadrant_lt (x y : Nat) : quadrant x y < 8 := by
  have hx : x &&& 0x10 ≤ 0x10 := Nat.and_le_right
  have hy : y &&& 0x10 ≤ 0x10 := Nat.and_le_right
  refine Nat.or_lt_two_pow (n := 3) ?_ ?_
  · rw [Nat.shiftRight_eq_div_pow]
    omega
  · rw [Nat.shiftRight_eq_div_pow]
    omega

theorem colorIndex_eq (nametable : Vector UInt8 0x400) (pattern : Vector UInt8 0x1000) {x y : Nat}
    (hx : x < columns) (hy : y < rows) :
    Bare.Picture.colorIndex nametable.toArray pattern.toArray x y =
      some (colorIndex nametable pattern hx hy) := by
  rw [← colorIndex?_eq]
  unfold Bare.Picture.colorIndex colorIndex?
  have hq (attributes : UInt8) := shift_eq attributes (quadrant_lt x y)
  unfold quadrant at hq
  simp only [rowBit_eq, hq]
  rfl

theorem pixel_eq (colors : Vector UInt32 16) (nametable : Vector UInt8 0x400)
    (pattern : Vector UInt8 0x1000) {x y : Nat} (hx : x < columns) (hy : y < rows) :
    Bare.Picture.pixel colors.toArray nametable.toArray pattern.toArray x y =
      some (color colors (colorIndex nametable pattern hx hy)) := by
  rw [Bare.Picture.pixel, colorIndex_eq nametable pattern hx hy]
  generalize colorIndex nametable pattern hx hy = index
  have hi : (index &&& 0x0F).toNat = index.toNat % 16 := by
    rw [UInt8.toNat_and]
    exact Nat.and_two_pow_sub_one_eq_mod _ 4
  show colors.toArray[(index &&& 0x0F).toNat]? = _
  rw [hi, getElem?_toArray _ (Nat.mod_lt _ (by decide))]
  rfl

/-! ## Frames -/

theorem bare_draw (ppu : Ppu) {n : Nat} (frame : Vector UInt32 n) :
    Bare.Picture.draw ppu.bare frame.toArray = some (draw ppu frame).toArray := by
  let colors := Color.background ppu.memory.palette.toArray
  let nametable := ppu.memory.nametable 0
  let pattern := ppu.memory.patternTable ppu.backgroundTable
  let pixel (i : Nat) : UInt32 :=
    if h : i < drawn n then color colors (colorIndex nametable pattern (column_lt i) (row_lt h))
    else 0
  have hpixel (i : Nat) (hi : i ∈ List.range (drawn n)) :
      Bare.Picture.pixel colors.toArray nametable.toArray pattern.toArray (i % 256) (i / 256) =
        some (pixel i) := by
    have h := List.mem_range.1 hi
    simp only [pixel, dif_pos h]
    exact pixel_eq colors nametable pattern (column_lt i) (row_lt h)
  have hcolors : Bare.Picture.background ppu.bare.palette = some colors.toArray :=
    background_eq _
  have hle : drawn n ≤ n :=
    Nat.le_trans (Nat.mul_le_mul_right _ (Nat.min_le_left ..)) (Nat.div_mul_le_self n columns)
  unfold Bare.Picture.draw
  rw [hcolors, Ppu.bare_nametable, Ppu.bare_backgroundTable, Vector.size_toArray]
  simp only [Option.bind_eq_bind, Option.bind_some]
  rw [mapM_eq_some hpixel, Option.bind_some]
  refine congrArg some (Array.ext ?_ fun i h₁ h₂ => ?_)
  · simp only [Array.size_append, List.size_toArray, List.length_map, List.length_range,
      Array.size_extract, Vector.size_toArray]
    omega
  · rw [Vector.size_toArray] at h₂
    simp only [Array.getElem_append, List.size_toArray, List.length_map, List.length_range,
      List.getElem_toArray, List.getElem_map, List.getElem_range, Array.getElem_extract,
      Vector.getElem_toArray, draw, Vector.getElem_mapIdx]
    by_cases h : i < drawn n
    · rw [dif_pos h, dif_pos h]
      simp only [pixel, dif_pos h]
      rfl
    · rw [dif_neg h, dif_neg h]
      congr 1
      omega

end Picture

end Nes
