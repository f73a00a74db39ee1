import Nes.Bus

/-!
# Graphics memory

The picture unit has an address space of its own, of which 14 bits count. Sixteen windows of 1024
bytes lie over pattern memory and over four name table pages, as the cartridge arranges them; the
last 256 addresses reach the 32 palette entries instead.

* `$0000`-`$1FFF`: two pattern tables, windows 0 to 7.
* `$2000`-`$2FFF`: four name tables, windows 8 to 11.
* `$3000`-`$3EFF`: the name tables again, windows 12 to 15.
* `$3F00`-`$3FFF`: the palette, over and over.

Results:

* `read_write_of_pattern`, `read_write_of_nametable`: a write is read back at every address of the
  same cell and nowhere else.
-/

namespace Nes

/-! ## Windows -/

/-- How a cartridge arranges name table pages under the four name tables. -/
inductive Mirroring where
  | horizontal | vertical | fourScreen
deriving DecidableEq

/-- What lies behind a window: a page of pattern memory or of name table memory. -/
inductive Bank where
  | pattern (page : Fin 8)
  | nametable (page : Fin 4)
deriving DecidableEq

/-- The size of a window and of a page. -/
def pageSize : Nat := 0x400

/-- Where a bank begins in its memory. -/
def Bank.offset : Bank → Nat
  | pattern page => page * pageSize
  | nametable page => page * pageSize

namespace Mirroring

/-- The page behind each of the four name tables. -/
def pages : Mirroring → Vector (Fin 4) 4
  | horizontal => #v[0, 0, 1, 1]
  | vertical => #v[0, 1, 0, 1]
  | fourScreen => #v[0, 1, 2, 3]

/-- The bank behind each of the sixteen windows (`map_banks`). -/
def bank (mirroring : Mirroring) (window : Fin 16) : Bank :=
  if h : window.val < 8 then .pattern ⟨window, h⟩
  else .nametable mirroring.pages[Fin.ofNat 4 window]

end Mirroring

/-! ## Cells -/

/-- One byte of graphics memory. -/
inductive Cell where
  | pattern (offset : Fin 0x2000)
  | nametable (offset : Fin 0x1000)
  | palette (entry : Fin 32)
deriving DecidableEq

/-- The cell that an address reaches. -/
def Mirroring.cell (mirroring : Mirroring) (address : UInt16) : Cell :=
  let a := address.toNat % 0x4000
  if h : a < 0x3F00 then
    match mirroring.bank ⟨a / pageSize, by unfold pageSize; omega⟩ with
    | .pattern page => .pattern ⟨page * pageSize + a % pageSize, by unfold pageSize; omega⟩
    | .nametable page => .nametable ⟨page * pageSize + a % pageSize, by unfold pageSize; omega⟩
  else .palette ⟨a % 32, by omega⟩

/-- The contents of graphics memory. -/
structure GraphicsMemory where
  pattern : Vector UInt8 0x2000
  /-- Pattern memory can be written. -/
  writable : Bool
  nametables : Vector UInt8 0x1000 := Vector.replicate 0x1000 0
  palette : Vector UInt8 32 := Vector.replicate 32 0
  mirroring : Mirroring

namespace GraphicsMemory

/-- The memory of a cartridge with the given pattern bytes, cut or filled with zeros to 8192. A
    cartridge without any carries pattern memory that can be written. -/
def ofPattern (pattern : Array UInt8) (mirroring : Mirroring) : GraphicsMemory where
  pattern := Vector.ofFn fun i => pattern[i.val]?.getD 0
  writable := pattern.isEmpty
  mirroring := mirroring

/-- Palette entries are six bits wide (`write_palette`). An entry whose two low bits are clear is
    shared with the one 16 away. -/
def setPalette (palette : Vector UInt8 32) (entry : Fin 32) (value : UInt8) : Vector UInt8 32 :=
  let value := value &&& 0x3F
  if entry.val % 4 ≠ 0 then palette.set entry value
  else (palette.set (entry.val % 16) value).set (entry.val % 16 + 16) value

/-- The byte at an address. -/
def read (memory : GraphicsMemory) (address : UInt16) : UInt8 :=
  match memory.mirroring.cell address with
  | .pattern offset => memory.pattern[offset]
  | .nametable offset => memory.nametables[offset]
  | .palette entry => memory.palette[entry]

/-- The address can be written. -/
def accepts (memory : GraphicsMemory) (address : UInt16) : Bool :=
  match memory.mirroring.cell address with
  | .pattern _ => memory.writable
  | .nametable _ | .palette _ => true

/-- Store a byte. Pattern memory that cannot be written keeps what it has. -/
def write (memory : GraphicsMemory) (address : UInt16) (value : UInt8) : GraphicsMemory :=
  match memory.mirroring.cell address with
  | .pattern offset =>
    if memory.writable then { memory with pattern := memory.pattern.set offset value } else memory
  | .nametable offset => { memory with nametables := memory.nametables.set offset value }
  | .palette entry => { memory with palette := setPalette memory.palette entry value }

/-! ## Whole tables -/

/-- Name table `index` modulo 4, with its attribute bytes. -/
def nametable (memory : GraphicsMemory) (index : Nat) : Vector UInt8 0x400 :=
  let page := memory.mirroring.pages[Fin.ofNat 4 index]
  Vector.ofFn fun o => memory.nametables[page.val * 0x400 + o.val]

/-- Pattern table `index` modulo 2 (`pattern_table`). -/
def patternTable (memory : GraphicsMemory) (index : Nat) : Vector UInt8 0x1000 :=
  Vector.ofFn fun o => memory.pattern[index % 2 * 0x1000 + o.val]

/-! ## Stores -/

@[simp] theorem write_mirroring (memory : GraphicsMemory) (address : UInt16) (value : UInt8) :
    (memory.write address value).mirroring = memory.mirroring := by
  unfold write
  split
  · split <;> rfl
  · rfl
  · rfl

theorem read_write_of_pattern (memory : GraphicsMemory) {address : UInt16}
    {offset : Fin 0x2000} (h : memory.mirroring.cell address = .pattern offset)
    (hw : memory.writable = true) (value : UInt8) (other : UInt16) :
    (memory.write address value).read other =
      if memory.mirroring.cell other = .pattern offset then value else memory.read other := by
  simp only [read, write_mirroring]
  simp only [write, h, hw, if_true]
  cases hc : memory.mirroring.cell other with
  | pattern o => simp [Vector.getElem_set, Fin.ext_iff, eq_comm]
  | nametable o => simp
  | palette e => simp

theorem read_write_of_nametable (memory : GraphicsMemory) {address : UInt16}
    {offset : Fin 0x1000} (h : memory.mirroring.cell address = .nametable offset)
    (value : UInt8) (other : UInt16) :
    (memory.write address value).read other =
      if memory.mirroring.cell other = .nametable offset then value else memory.read other := by
  simp only [read, write_mirroring]
  simp only [write, h]
  cases hc : memory.mirroring.cell other with
  | pattern o => simp
  | nametable o => simp [Vector.getElem_set, Fin.ext_iff, eq_comm]
  | palette e => simp

end GraphicsMemory

end Nes
