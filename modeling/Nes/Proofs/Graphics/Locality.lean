import Nes.Proofs.Graphics.Picture

/-!
# What frames show, and where they change

A frame shows the picture as the tables have it, whatever has happened to the picture unit before.
A picture is drawn from the whole of the first name table, from one pattern table and from sixteen
palette entries, so one register access could spoil all of it. It does not: a byte that is stored
in graphics memory is seen where the picture uses that byte, and an access that stores nothing is
not seen at all, except that the control register chooses the pattern table.

Results:

* `Reaches`, `Touches`: the pixels that use a byte of graphics memory, and the pixels that an event
  may change.
* `colorIndex_congr`: the bytes that the color index of a pixel comes from.
* `colorIndex_write_pattern`, `colorIndex_write_nametable`, `color_write_palette`: a store that
  does not reach a pixel changes neither its index nor the color of that index.
* `pixelAt_apply`: what an event does not touch looks the same after it.
* `draw_shows`: **what every frame shows, whatever has happened to the picture unit.**
* `touches_of_draw_ne`: **one event changes only the pixels that it touches.**
-/

namespace Nes

/-! ## What a store leaves alone -/

theorem Mirroring.pageOf_zero (mirroring : Mirroring) : mirroring.pageOf 0 = 0 := by
  cases mirroring <;> rfl

namespace GraphicsMemory

variable (memory : GraphicsMemory)

/-- The first name table is the first page of its memory. -/
theorem getElem?_nametable {offset : Nat} (h : offset < 0x400) :
    (memory.nametable 0)[offset]? = memory.nametables[offset]? := by
  have hp : (memory.mirroring.pages[0]).val = 0 :=
    (memory.mirroring.pages_eq 0).trans (Mirroring.pageOf_zero _)
  have ho : offset < 0x1000 := by omega
  simp [nametable, h, hp, ho]

theorem getElem?_patternTable (index : Nat) {offset : Nat} (h : offset < 0x1000) :
    (memory.patternTable index)[offset]? = memory.pattern[index % 2 * 0x1000 + offset]? := by
  have ho : index % 2 * 0x1000 + offset < 0x2000 := by omega
  simp [patternTable, h, ho]

variable {address : UInt16} (value : UInt8)

/-- Pattern tables change only below `$2000`. -/
theorem patternTable_write (h : 0x2000 ≤ graphicsAddress address) (index : Nat) :
    (memory.write address value).patternTable index = memory.patternTable index := by
  unfold write
  rcases Nat.lt_or_ge (graphicsAddress address) 0x3F00 with ha | ha
  · rw [memory.mirroring.cell_of_nametable h ha]
    rfl
  · rw [memory.mirroring.cell_of_palette ha]
    rfl

/-- Name tables change only between `$2000` and `$3F00`. -/
theorem nametable_write
    (h : graphicsAddress address < 0x2000 ∨ 0x3F00 ≤ graphicsAddress address) (index : Nat) :
    (memory.write address value).nametable index = memory.nametable index := by
  unfold write
  rcases h with ha | ha
  · rw [memory.mirroring.cell_of_pattern ha]
    dsimp only
    split_ifs
    · rfl
    · rfl
  · rw [memory.mirroring.cell_of_palette ha]
    rfl

/-- The palette changes only from `$3F00` on. -/
theorem palette_write (h : graphicsAddress address < 0x3F00) :
    (memory.write address value).palette = memory.palette := by
  unfold write
  rcases Nat.lt_or_ge (graphicsAddress address) 0x2000 with ha | ha
  · rw [memory.mirroring.cell_of_pattern ha]
    dsimp only
    split_ifs
    · rfl
    · rfl
  · rw [memory.mirroring.cell_of_nametable ha h]

/-- Of a pattern table one byte changes. -/
theorem getElem?_patternTable_write (h : graphicsAddress address < 0x2000) (index : Nat)
    {offset : Nat} (ho : offset < 0x1000)
    (hne : graphicsAddress address ≠ index % 2 * 0x1000 + offset) :
    ((memory.write address value).patternTable index)[offset]? =
      (memory.patternTable index)[offset]? := by
  rw [getElem?_patternTable _ _ ho, getElem?_patternTable _ _ ho, write,
    memory.mirroring.cell_of_pattern h]
  dsimp only
  split_ifs
  · exact Vector.getElem?_set_ne h hne
  · rfl

/-- Of a name table one byte changes, and only if the address is on its page. -/
theorem getElem?_nametable_write (h₁ : 0x2000 ≤ graphicsAddress address)
    (h₂ : graphicsAddress address < 0x3F00) {offset : Nat} (ho : offset < 0x400)
    (hne : memory.mirroring.pageOf (graphicsAddress address / 0x400 % 4) = 0 →
      graphicsAddress address % 0x400 ≠ offset) :
    ((memory.write address value).nametable 0)[offset]? = (memory.nametable 0)[offset]? := by
  rw [getElem?_nametable _ ho, getElem?_nametable _ ho, write,
    memory.mirroring.cell_of_nametable h₁ h₂]
  have hi : graphicsAddress address / 0x400 % 4 < 4 := Nat.mod_lt _ (by decide)
  have hp := memory.mirroring.pageOf_lt hi
  dsimp only
  exact Vector.getElem?_set_ne (by omega) fun he => hne (by omega) (by omega)

/-- Of the palette an entry changes together with the one that it shares its colour with. -/
theorem getElem?_palette_write (h : 0x3F00 ≤ graphicsAddress address) {entry : Nat}
    (he : entry < 32)
    (hne : Mirroring.paletteEntry entry ≠ Mirroring.paletteEntry (graphicsAddress address % 32)) :
    (memory.write address value).palette[entry]? = memory.palette[entry]? := by
  rw [write, memory.mirroring.cell_of_palette h]
  have hset := getElem_setPalette memory.palette
    ⟨graphicsAddress address % 32, Nat.mod_lt _ (by decide)⟩ ⟨entry, he⟩ value
  rw [if_neg hne] at hset
  rw [Vector.getElem?_eq_getElem he, Vector.getElem?_eq_getElem he]
  exact congrArg some hset

end GraphicsMemory

namespace Picture

/-! ## Pixels and events -/

/-- The color index of the pixel at column `x` of row `y`. -/
def indexAt (ppu : Ppu) (x y : Nat) : Option UInt8 :=
  colorIndex? (ppu.memory.nametable 0).toArray (ppu.memory.patternTable ppu.backgroundTable).toArray
    x y

/-- The pixel at column `x` of row `y` uses the byte of graphics memory at address `a`. -/
inductive Reaches (ppu : Ppu) (x y a : Nat) : Prop
  /-- The tile of the pixel's cell. -/
  | tile (below : 0x2000 ≤ a) (above : a < 0x3F00)
    (page_eq : ppu.memory.mirroring.pageOf (a / 0x400 % 4) = 0) (offset_lt : a % 0x400 < 0x3C0)
    (column_eq : x / 8 = a % 0x400 % 32) (row_eq : y / 8 = a % 0x400 / 32)
  /-- The attributes of the pixel's block. -/
  | attributes (below : 0x2000 ≤ a) (above : a < 0x3F00)
    (page_eq : ppu.memory.mirroring.pageOf (a / 0x400 % 4) = 0) (le_offset : 0x3C0 ≤ a % 0x400)
    (column_eq : x / 32 = (a % 0x400 - 0x3C0) % 8) (row_eq : y / 32 = (a % 0x400 - 0x3C0) / 8)
  /-- A row of the tile that the pixel's cell shows. -/
  | pattern (above : a < 0x2000) (table_eq : a / 0x1000 = bit ppu.latches.control 4)
    (row_eq : y % 8 = a % 8) {tile : UInt8}
    (tile_mem : tile ∈ (ppu.memory.nametable 0)[32 * (y / 8) + x / 8]?)
    (tile_eq : tile.toNat = a % 0x1000 / 16)
  /-- The backdrop, which is seen where the tile has no bits set. -/
  | backdrop (below : 0x3F00 ≤ a) (entry_eq : a % 32 = 0 ∨ a % 32 = 16) {index : UInt8}
    (index_mem : index ∈ indexAt ppu x y) (index_eq : index.toNat % 4 = 0)
  /-- The palette entry of the pixel's own color. -/
  | color (below : 0x3F00 ≤ a) (entry_lt : a % 32 < 16) (entry_ne : a % 4 ≠ 0) {index : UInt8}
    (index_mem : index ∈ indexAt ppu x y) (index_eq : index.toNat = a % 32)

/-- The pixel at column `x` of row `y` may be another one after an event. -/
inductive Touches (ppu : Ppu) (x y : Nat) : Ppu.Event → Prop
  /-- The event stores a byte that the pixel uses. -/
  | store {event : Ppu.Event} {a : Nat} {value : UInt8}
    (store_eq : event.store? ppu = some (a, value)) (reaches : Reaches ppu x y a) :
    Touches ppu x y event
  /-- The event writes the control register and chooses the other pattern table. -/
  | control {register : UInt16} {value : UInt8}
    (register_eq : PpuRegister.ofAddress register = .control)
    (table_ne : bit value 4 ≠ bit ppu.latches.control 4) :
    Touches ppu x y (.write register value)
  /-- A reset goes back to the first pattern table. -/
  | reset (table_ne : bit ppu.latches.control 4 ≠ 0) : Touches ppu x y .reset

/-! ## The bytes of a color index -/

/-- The index of a pixel depends on one byte of each kind. -/
theorem colorIndex_congr {nametable nametable' : Vector UInt8 0x400}
    {pattern pattern' : Vector UInt8 0x1000} {x y : Nat} (hx : x < columns) (hy : y < rows)
    (tile_eq : nametable'[tileOffset x y]? = nametable[tileOffset x y]?)
    (attributes_eq : nametable'[attributeOffset x y]? = nametable[attributeOffset x y]?)
    (pattern_eq : ∀ tile ∈ nametable[tileOffset x y]?,
      pattern'[patternOffset tile y]? = pattern[patternOffset tile y]? ∧
        pattern'[patternOffset tile y + 8]? = pattern[patternOffset tile y + 8]?) :
    colorIndex nametable' pattern' hx hy = colorIndex nametable pattern hx hy := by
  obtain ⟨tile, low, high, attributes, ht, hl, hh, ha, hi⟩ :=
    exists_of_colorIndex nametable pattern hx hy
  obtain ⟨hl', hh'⟩ := pattern_eq tile ht
  rw [hi]
  apply Option.some.inj
  rw [← colorIndex?_eq]
  simp only [colorIndex?, Vector.getElem?_toArray, tile_eq, ht, Option.bind_eq_bind,
    Option.bind_some, hl', hl, hh', hh, attributes_eq, ha]
  rfl

theorem indexAt_eq (ppu : Ppu) {x y : Nat} (hx : x < columns) (hy : y < rows) :
    indexAt ppu x y = some (colorIndex (ppu.memory.nametable 0)
      (ppu.memory.patternTable ppu.backgroundTable) hx hy) :=
  colorIndex?_eq ..

/-! ## Pixels after a store -/

section

variable {ppu : Ppu} {address : UInt16} {x y : Nat}

/-- A pattern byte in another row or tile does not reach the pixel. -/
theorem colorIndex_write_pattern (hx : x < columns) (hy : y < rows)
    (ha : graphicsAddress address < 0x2000) (h : ¬Reaches ppu x y (graphicsAddress address))
    (value : UInt8) :
    colorIndex ((ppu.memory.write address value).nametable 0)
        ((ppu.memory.write address value).patternTable ppu.backgroundTable) hx hy =
      colorIndex (ppu.memory.nametable 0) (ppu.memory.patternTable ppu.backgroundTable) hx hy := by
  rw [ppu.memory.nametable_write value (.inl ha)]
  refine colorIndex_congr hx hy rfl rfl fun tile ht => ?_
  have hlt := tile.toNat_lt
  have hbit : bit ppu.latches.control 4 < 2 := Nat.mod_lt _ (by decide)
  rw [tileOffset_eq] at ht
  rw [patternOffset_eq, backgroundTable_eq]
  constructor
  · refine ppu.memory.getElem?_patternTable_write value ha _ (by omega) fun he => h ?_
    exact .pattern ha (by omega) (by omega) ht (by omega)
  · refine ppu.memory.getElem?_patternTable_write value ha _ (by omega) fun he => h ?_
    exact .pattern ha (by omega) (by omega) ht (by omega)

/-- A tile or attribute byte elsewhere does not reach it either. -/
theorem colorIndex_write_nametable (hx : x < columns) (hy : y < rows)
    (h₁ : 0x2000 ≤ graphicsAddress address) (h₂ : graphicsAddress address < 0x3F00)
    (h : ¬Reaches ppu x y (graphicsAddress address)) (value : UInt8) :
    colorIndex ((ppu.memory.write address value).nametable 0)
        ((ppu.memory.write address value).patternTable ppu.backgroundTable) hx hy =
      colorIndex (ppu.memory.nametable 0) (ppu.memory.patternTable ppu.backgroundTable) hx hy := by
  rw [ppu.memory.patternTable_write value h₁]
  simp only [columns, rows] at hx hy
  refine colorIndex_congr hx hy ?_ ?_ fun _ _ => ⟨rfl, rfl⟩
  · rw [tileOffset_eq]
    refine ppu.memory.getElem?_nametable_write value h₁ h₂ (by omega) fun hp he => h ?_
    exact .tile h₁ h₂ hp (by omega) (by omega) (by omega)
  · rw [attributeOffset_eq]
    refine ppu.memory.getElem?_nametable_write value h₁ h₂ (by omega) fun hp he => h ?_
    exact .attributes h₁ h₂ hp (by omega) (by omega) (by omega)

theorem colorIndex_lt (nametable : Vector UInt8 0x400) (pattern : Vector UInt8 0x1000)
    (hx : x < columns) (hy : y < rows) : (colorIndex nametable pattern hx hy).toNat < 16 := by
  obtain ⟨tile, low, high, attributes, -, -, -, -, hi⟩ :=
    exists_of_colorIndex nametable pattern hx hy
  have hg := group_lt attributes x y
  have hb := tileBits_lt low high x
  rw [hi, combine_toNat]
  omega

/-- Nor does a colour of another index. -/
theorem color_write_palette (hx : x < columns) (hy : y < rows)
    (h₁ : 0x3F00 ≤ graphicsAddress address) (h : ¬Reaches ppu x y (graphicsAddress address))
    (value : UInt8) {index : UInt8} (hi : index ∈ indexAt ppu x y) :
    color (Color.background (ppu.memory.write address value).palette.toArray) index =
      color (Color.background ppu.memory.palette.toArray) index := by
  have hlt : index.toNat < 16 := by
    rw [indexAt_eq ppu hx hy, Option.mem_some_iff] at hi
    rw [← hi]
    exact colorIndex_lt _ _ hx hy
  have hne : Mirroring.paletteEntry (if index.toNat % 16 % 4 = 0 then 0 else index.toNat % 16) ≠
      Mirroring.paletteEntry (graphicsAddress address % 32) := by
    unfold Mirroring.paletteEntry
    intro he
    by_cases hb : index.toNat % 4 = 0
    · refine h (.backdrop h₁ ?_ hi hb)
      split_ifs at he <;> omega
    · refine h (.color h₁ ?_ ?_ hi ?_) <;> split_ifs at he <;> omega
  have hentry := ppu.memory.getElem?_palette_write value h₁ (by split_ifs <;> omega) hne
  simp only [color, Color.background, Vector.getElem_ofFn, Vector.getElem?_toArray, hentry]

/-- So no stored byte changes a pixel that it does not reach. -/
theorem pixelAt_storeData (hx : x < columns) (hy : y < rows)
    (h : ¬Reaches ppu x y (graphicsAddress ppu.latches.vramAddress)) (value : UInt8) :
    pixelAt (ppu.storeData value) hx hy = pixelAt ppu hx hy := by
  have hm : (ppu.storeData value).memory = ppu.memory.write ppu.latches.vramAddress value := rfl
  have ht : (ppu.storeData value).backgroundTable = ppu.backgroundTable := rfl
  rw [pixelAt, pixelAt, hm, ht]
  rcases Nat.lt_or_ge (graphicsAddress ppu.latches.vramAddress) 0x2000 with h₁ | h₁
  · rw [ppu.memory.palette_write value (by omega), colorIndex_write_pattern hx hy h₁ h]
  · rcases Nat.lt_or_ge (graphicsAddress ppu.latches.vramAddress) 0x3F00 with h₂ | h₂
    · rw [ppu.memory.palette_write value h₂, colorIndex_write_nametable hx hy h₁ h₂ h]
    · rw [ppu.memory.nametable_write value (.inr h₂), ppu.memory.patternTable_write value h₁]
      exact color_write_palette hx hy h₂ h value (indexAt_eq ppu hx hy)

end

/-! ## Pixels after an event -/

section

variable {ppu : Ppu} {x y : Nat}

/-- Of the registers, one bit of control decides about a pixel. -/
theorem pixelAt_of_eq {ppu' : Ppu} (hx : x < columns) (hy : y < rows)
    (hm : ppu'.memory = ppu.memory)
    (hc : bit ppu'.latches.control 4 = bit ppu.latches.control 4) :
    pixelAt ppu' hx hy = pixelAt ppu hx hy := by
  simp only [pixelAt, backgroundTable_eq, hm, hc]

theorem control_readRegister (address : UInt16) (ppu : Ppu) :
    (final (Ppu.readRegister address ppu)).latches.control = ppu.latches.control := by
  unfold Ppu.readRegister
  split <;> rfl

theorem control_writeRegister {address : UInt16} (h : PpuRegister.ofAddress address ≠ .control)
    (value : UInt8) (ppu : Ppu) :
    (final (Ppu.writeRegister address value ppu)).latches.control = ppu.latches.control := by
  unfold Ppu.writeRegister
  split
  case h_1 hc => exact absurd hc h
  case h_6 =>
    show (Ppu.writeScroll value ppu.latches).control = _
    unfold Ppu.writeScroll
    split_ifs
    · rfl
    · rfl
  case h_7 =>
    show (Ppu.writeAddress value ppu.latches).control = _
    unfold Ppu.writeAddress
    split_ifs
    · rfl
    · rfl
  case h_8 =>
    unfold Ppu.writeData
    split_ifs
    · rfl
    · rfl
  all_goals rfl

/-- A byte that the data register refuses changes nothing. -/
theorem pixelAt_writeData (hx : x < columns) (hy : y < rows) {register : UInt16}
    (hr : PpuRegister.ofAddress register = .data) {value : UInt8}
    (h : ¬Touches ppu x y (.write register value)) :
    pixelAt (final (Ppu.writeData value ppu)) hx hy = pixelAt ppu hx hy := by
  unfold Ppu.writeData
  split_ifs with ha
  · have hs : (Ppu.Event.write register value).store? ppu =
        some (graphicsAddress ppu.latches.vramAddress, value) := by
      simp only [Ppu.Event.store?, Ppu.writeRegister, hr, Ppu.writeData, if_pos ha]
    exact pixelAt_storeData hx hy (fun hreaches => h (.store hs hreaches)) value
  · rfl

/-- What an event does not touch looks the same after it. -/
theorem pixelAt_apply (hx : x < columns) (hy : y < rows) {event : Ppu.Event}
    (h : ¬Touches ppu x y event) : pixelAt (event.apply ppu) hx hy = pixelAt ppu hx hy := by
  cases event with
  | read address =>
    exact pixelAt_of_eq hx hy (Ppu.memory_readRegister address ppu)
      (congrArg (bit · 4) (control_readRegister address ppu))
  | write register value =>
    by_cases hd : PpuRegister.ofAddress register = .data
    · have hw : (Ppu.Event.write register value).apply ppu = final (Ppu.writeData value ppu) := by
        simp only [Ppu.Event.apply, Ppu.writeRegister, hd]
      rw [hw]
      exact pixelAt_writeData hx hy hd h
    · refine pixelAt_of_eq hx hy (Ppu.memory_writeRegister hd value ppu) ?_
      by_cases hc : PpuRegister.ofAddress register = .control
      · have hw : ((Ppu.Event.write register value).apply ppu).latches.control = value := by
          simp only [Ppu.Event.apply, Ppu.writeRegister, hc, final]
        rw [hw]
        by_contra hne
        exact h (.control hc hne)
      · exact congrArg (bit · 4) (control_writeRegister hc value ppu)
  | writeOam value => exact pixelAt_of_eq hx hy rfl rfl
  | startVblank => exact pixelAt_of_eq hx hy rfl rfl
  | reset =>
    refine pixelAt_of_eq hx hy rfl ?_
    by_contra hne
    have hz : bit (Ppu.Event.reset.apply ppu).latches.control 4 = 0 := by
      show bit 0 4 = 0
      decide
    exact h (.reset fun h₀ => hne (hz.trans h₀.symm))

end

/-! ## Frames -/

/-- **Main theorem.** Whatever has happened to a picture unit, a frame of `n` pixels gets as many
whole rows of the picture as it has, every pixel as the tables have it, and keeps its other pixels.
No index is out of range for its table, and tiles are never taken from the attribute bytes. -/
theorem draw_shows (pattern : Array UInt8) (mirroring : Mirroring) (events : List Ppu.Event)
    {n : Nat} (frame : Vector UInt32 n) :
    let ppu := Ppu.after events (.ofPattern pattern mirroring)
    (∀ i : Fin n,
      let x := i.val % 256
      let y := i.val / 256
      if y < min (n / 256) 240 then Shows ppu x y (draw ppu frame)[i]
      else (draw ppu frame)[i] = frame[i]) ∧
    Bare.Picture.draw ppu.bare frame.toArray = some (draw ppu frame).toArray ∧
    ∀ (x : Fin 256) (y : Fin 240), tileOffset x y < 0x3C0 ∧
      0x3C0 ≤ attributeOffset x y ∧ attributeOffset x y < 0x400 := by
  intro ppu
  have hp := (Ppu.holds_ofPattern.after events : Ppu.Holds pattern mirroring _ ppu).palette_lt
  refine ⟨fun i => ?_, bare_draw ppu frame, fun x y => ⟨?_, ?_, ?_⟩⟩
  · intro x y
    have hd := getElem_draw ppu frame i.isLt
    have hiff : i.val < drawn n ↔ y < min (n / 256) 240 := lt_drawn_iff i.val n
    by_cases h : i.val < drawn n
    · rw [if_pos (hiff.1 h)]
      rw [dif_pos h] at hd
      show Shows ppu x y (getElem (draw ppu frame) i.val i.isLt)
      rw [hd]
      exact shows_pixelAt ppu (column_lt i) (row_lt h) hp
    · rw [if_neg (mt hiff.2 h)]
      rw [dif_neg h] at hd
      exact hd
  · exact tileOffset_lt x.isLt y.isLt
  · rw [attributeOffset_eq]
    omega
  · exact attributeOffset_lt x.isLt y.isLt

/-- **Main theorem.** One event changes only pixels of a picture that it touches: those that use
the byte it stores, and all of them if it chooses the other pattern table. What fails, what is
read and what goes to another register is not seen. -/
theorem touches_of_draw_ne (ppu : Ppu) (event : Ppu.Event) {n : Nat} (frame : Vector UInt32 n)
    (i : Fin n) (h : (draw (event.apply ppu) frame)[i] ≠ (draw ppu frame)[i]) :
    i.val / 256 < min (n / 256) 240 ∧ Touches ppu (i.val % 256) (i.val / 256) event := by
  have h₁ := getElem_draw (event.apply ppu) frame i.isLt
  have h₂ := getElem_draw ppu frame i.isLt
  rw [Fin.getElem_fin, Fin.getElem_fin, h₁, h₂] at h
  by_cases hi : i.val < drawn n
  · rw [dif_pos hi, dif_pos hi] at h
    refine ⟨(lt_drawn_iff i.val n).1 hi, ?_⟩
    by_contra ht
    exact h (pixelAt_apply (column_lt i) (row_lt hi) ht)
  · rw [dif_neg hi, dif_neg hi] at h
    exact absurd rfl h

theorem touches_of_draw_ne_backdrop :
    let ppu := Ppu.after [.write 0x2006 0x3F, .write 0x2006 0x00] (.ofPattern #[] .horizontal)
    let store : Ppu.Event := .write 0x2007 0x01
    let frame : Vector UInt32 256 := .replicate 256 0
    (draw (store.apply ppu) frame)[(0 : Fin 256)] ≠ (draw ppu frame)[(0 : Fin 256)] ∧
      0 < min (256 / 256) 240 ∧ Touches ppu 0 0 store := by
  intro ppu store frame
  have hx : 0 < columns := by decide
  have hy : 0 < rows := by decide
  have hbit : bit 0 4 = 0 := by decide
  have hm : ppu.memory = .ofPattern #[] .horizontal := rfl
  have hm' : (store.apply ppu).memory = ppu.memory.write 0x3F00 0x01 := rfl
  have hindex : colorIndex (ppu.memory.nametable 0) (ppu.memory.patternTable 0) hx hy = 0 := by
    simp only [hm, colorIndex, GraphicsMemory.nametable, GraphicsMemory.patternTable,
      GraphicsMemory.ofPattern, Vector.getElem_ofFn, Vector.getElem_replicate]
    decide
  have hold : pixelAt ppu hx hy = 0x666666FF := by
    have ht : ppu.backgroundTable = 0 := (backgroundTable_eq ppu).trans hbit
    have hp : ppu.memory.palette = .replicate 32 0 := rfl
    rw [pixelAt, ht, hindex, hp]
    rfl
  have hnew : pixelAt (store.apply ppu) hx hy = 0x002A88FF := by
    have ht : (store.apply ppu).backgroundTable = 0 := (backgroundTable_eq _).trans hbit
    have hp : (ppu.memory.write 0x3F00 0x01).palette =
        GraphicsMemory.setPalette (.replicate 32 0) 0 1 := rfl
    rw [pixelAt, ht, hm', ppu.memory.nametable_write 0x01 (.inr (by decide)),
      ppu.memory.patternTable_write 0x01 (by decide), hindex, hp]
    rfl
  have h : (draw (store.apply ppu) frame)[(0 : Fin 256)] ≠ (draw ppu frame)[(0 : Fin 256)] := by
    have hd : 0 < drawn 256 := by decide
    have h₁ := getElem_draw (store.apply ppu) frame (i := 0) (by decide)
    have h₂ := getElem_draw ppu frame (i := 0) (by decide)
    rw [dif_pos hd] at h₁ h₂
    have hne : (0x002A88FF : UInt32) ≠ 0x666666FF := by decide
    intro he
    exact hne (hnew.symm.trans (h₁.symm.trans (he.trans (h₂.trans hold))))
  exact ⟨h, touches_of_draw_ne ppu store frame 0 h⟩

end Picture

end Nes
