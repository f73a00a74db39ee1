import Nes.Graphics.Ppu
import Nes.Proofs.Cpu.Simulation

/-!
# What graphics memory holds

Of an address of the picture unit 14 bits count, and many addresses reach the same byte: the name
tables as the cartridge arranges their pages, once below `$3000` and once above, and the palette
every 32 addresses, with the first of every four entries shared between its halves. Which addresses
these are is said here of the addresses alone. What a byte is, is then settled by what has been
written to the data register: the last write to any alias of its address that was not refused.

Results:

* `GraphicsMemory.read_write`: a write is read back at the aliases of its address, as many bits of
  it as are kept, and nowhere else.
* `Ppu.Holds.event`, `Ppu.Holds.after`: what one event leaves in graphics memory, and any history.
* `Ppu.portByte_after`: what the data register reaches after any history, which writes of it are
  refused, and what the palette looks like.
-/

namespace Nes

/-- An address without the bits that do not count. -/
def graphicsAddress (address : UInt16) : Nat := address.toNat % 0x4000

/-! ## Aliases -/

namespace Mirroring

/-- The page behind name table `index`. -/
def pageOf : Mirroring → Nat → Nat
  | fourScreen, index => index
  | vertical, index => index % 2
  | horizontal, index => index / 2

/-- The palette entry that stands for an address: the shared ones go by their lower number. -/
def paletteEntry (a : Nat) : Nat := if a % 4 = 0 then a % 16 else a % 32

/-- The two addresses reach the same byte. -/
def aliases (mirroring : Mirroring) (a b : Nat) : Bool :=
  if a < 0x2000 then a == b
  else if a < 0x3F00 then
    0x2000 ≤ b && b < 0x3F00 && a % 0x400 == b % 0x400 &&
      mirroring.pageOf (a / 0x400 % 4) == mirroring.pageOf (b / 0x400 % 4)
  else 0x3F00 ≤ b && paletteEntry a == paletteEntry b

theorem aliases_of_palette (mirroring : Mirroring) {a : Nat} (h : 0x3F00 ≤ a) (b : Nat) :
    mirroring.aliases a b = (decide (0x3F00 ≤ b) && paletteEntry a == paletteEntry b) := by
  rw [aliases, if_neg (by omega), if_neg (by omega)]

/-- The page of a name table, as the arrangement has it. -/
theorem pages_eq (mirroring : Mirroring) (index : Fin 4) :
    (getElem mirroring.pages index index.isLt).val = mirroring.pageOf index.val := by
  revert index
  cases mirroring <;> decide

theorem pageOf_lt (mirroring : Mirroring) {index : Nat} (h : index < 4) :
    mirroring.pageOf index < 4 := by
  have he := pages_eq mirroring ⟨index, h⟩
  dsimp only at he
  rw [← he]
  exact Fin.isLt _

section

variable (mirroring : Mirroring) {address : UInt16}

/-- Below `$2000` every address has a cell of its own. -/
theorem cell_of_pattern (h : graphicsAddress address < 0x2000) :
    mirroring.cell address = .pattern ⟨graphicsAddress address, h⟩ := by
  have hlt : address.toNat % 0x4000 < 0x3F00 := Nat.lt_trans h (by decide)
  have hw : address.toNat % 0x4000 / pageSize < 8 := by
    rw [graphicsAddress] at h
    rw [pageSize]
    omega
  simp only [cell, dif_pos hlt, bank, dif_pos hw, Cell.pattern.injEq, Fin.mk.injEq]
  exact Nat.div_add_mod' ..

/-- Addresses of name tables share a cell when their tables share a page. -/
theorem cell_of_nametable (h₁ : 0x2000 ≤ graphicsAddress address)
    (h₂ : graphicsAddress address < 0x3F00) :
    mirroring.cell address = .nametable
      ⟨mirroring.pageOf (graphicsAddress address / 0x400 % 4) * 0x400 +
        graphicsAddress address % 0x400, by
          have hi : graphicsAddress address / 0x400 % 4 < 4 := Nat.mod_lt _ (by decide)
          have := mirroring.pageOf_lt hi
          omega⟩ := by
  have hlt : address.toNat % 0x4000 < 0x3F00 := h₂
  have hw : ¬address.toNat % 0x4000 / pageSize < 8 := by
    rw [graphicsAddress] at h₁
    rw [pageSize]
    omega
  simp only [cell, dif_pos hlt, bank, dif_neg hw, Cell.nametable.injEq, Fin.mk.injEq, pages_eq]
  rfl

/-- From `$3F00` on an address is one of 32 entries. -/
theorem cell_of_palette (h : 0x3F00 ≤ graphicsAddress address) :
    mirroring.cell address =
      .palette ⟨graphicsAddress address % 32, Nat.mod_lt _ (by decide)⟩ := by
  have hge : ¬address.toNat % 0x4000 < 0x3F00 := Nat.not_lt.2 h
  simp only [cell, dif_neg hge]
  rfl

theorem lt_palette_iff_of_aliases {a b : Nat} (h : mirroring.aliases a b = true) :
    a < 0x3F00 ↔ b < 0x3F00 := by
  unfold aliases at h
  split at h
  · simp only [beq_iff_eq] at h
    omega
  · split at h
    · simp only [Bool.and_eq_true, decide_eq_true_eq] at h
      omega
    · simp only [Bool.and_eq_true, decide_eq_true_eq] at h
      omega

variable (other : UInt16)

theorem aliases_iff_of_pattern (h : graphicsAddress address < 0x2000) :
    mirroring.aliases (graphicsAddress other) (graphicsAddress address) = true ↔
      mirroring.cell other = .pattern ⟨graphicsAddress address, h⟩ := by
  rcases Nat.lt_or_ge (graphicsAddress other) 0x2000 with ho | ho
  · rw [cell_of_pattern _ ho, aliases, if_pos ho]
    simp only [beq_iff_eq, Cell.pattern.injEq, Fin.mk.injEq]
  · have hne : mirroring.cell other ≠ .pattern ⟨graphicsAddress address, h⟩ := by
      rcases Nat.lt_or_ge (graphicsAddress other) 0x3F00 with ho' | ho'
      · rw [cell_of_nametable _ ho ho']
        exact nofun
      · rw [cell_of_palette _ ho']
        exact nofun
    refine iff_of_false ?_ hne
    rw [aliases, if_neg (by omega)]
    split
    · simp only [Bool.and_eq_true, decide_eq_true_eq]
      omega
    · simp only [Bool.and_eq_true, decide_eq_true_eq]
      omega

/-- Two addresses of name tables are aliases if and only if they have the same cell. -/
theorem aliases_iff_of_nametable (h₁ : 0x2000 ≤ graphicsAddress address)
    (h₂ : graphicsAddress address < 0x3F00) :
    mirroring.aliases (graphicsAddress other) (graphicsAddress address) = true ↔
      mirroring.cell other = mirroring.cell address := by
  rw [cell_of_nametable _ h₁ h₂]
  rcases Nat.lt_or_ge (graphicsAddress other) 0x2000 with ho | ho
  · rw [cell_of_pattern _ ho, aliases, if_pos ho]
    refine iff_of_false ?_ nofun
    simp only [beq_iff_eq]
    omega
  · rcases Nat.lt_or_ge (graphicsAddress other) 0x3F00 with ho' | ho'
    · rw [cell_of_nametable _ ho ho', aliases, if_neg (by omega), if_pos ho']
      simp only [h₁, h₂, decide_true, Bool.true_and, Bool.and_eq_true, beq_iff_eq,
        Cell.nametable.injEq, Fin.mk.injEq]
      omega
    · rw [cell_of_palette _ ho', aliases_of_palette _ ho']
      refine iff_of_false ?_ nofun
      simp only [Bool.and_eq_true, decide_eq_true_eq]
      omega

end

end Mirroring

namespace GraphicsMemory

/-- What is stored of a byte written to an address: palette entries are six bits wide. -/
def stored (a : Nat) (value : UInt8) : UInt8 := if a < 0x3F00 then value else value &&& 0x3F

/-- An entry that is set is set in both halves of the palette, if it is a backdrop. -/
theorem getElem_setPalette (palette : Vector UInt8 32) (entry other : Fin 32) (value : UInt8) :
    getElem (setPalette palette entry value) other other.isLt =
      if Mirroring.paletteEntry other.val = Mirroring.paletteEntry entry.val then value &&& 0x3F
      else getElem palette other other.isLt := by
  have he := entry.isLt
  have ho := other.isLt
  unfold setPalette Mirroring.paletteEntry
  by_cases h : entry.val % 4 = 0
  · -- both numbers of a shared entry are set
    simp only [ne_eq, h, not_true_eq_false, if_false, if_true, Fin.getElem_fin, Vector.getElem_set]
    have hiff : (if other.val % 4 = 0 then other.val % 16 else other.val % 32) = entry.val % 16 ↔
        entry.val % 16 + 16 = other.val ∨ entry.val % 16 = other.val := by
      split <;> omega
    simp only [hiff]
    by_cases h₁ : entry.val % 16 + 16 = other.val <;>
      by_cases h₂ : entry.val % 16 = other.val <;> simp [h₁, h₂]
  · simp only [ne_eq, h, not_false_eq_true, if_true, if_false, Fin.getElem_fin, Vector.getElem_set]
    have hiff : (if other.val % 4 = 0 then other.val % 16 else other.val % 32) = entry.val % 32 ↔
        entry.val = other.val := by
      split <;> omega
    simp only [hiff]

/-- A stored colour is read at every alias of its address, with the bits that a colour has. -/
theorem read_write_of_palette (memory : GraphicsMemory) {address : UInt16}
    (h : 0x3F00 ≤ graphicsAddress address) (value : UInt8) (other : UInt16) :
    (memory.write address value).read other =
      if memory.mirroring.aliases (graphicsAddress other) (graphicsAddress address) then
        stored (graphicsAddress other) value
      else memory.read other := by
  have hmod (a : UInt16) : Mirroring.paletteEntry (graphicsAddress a % 32) =
      Mirroring.paletteEntry (graphicsAddress a) := by
    unfold Mirroring.paletteEntry
    split <;> split <;> omega
  have ha := memory.mirroring.cell_of_palette h
  simp only [read, write_mirroring]
  simp only [write, ha]
  rcases Nat.lt_or_ge (graphicsAddress other) 0x3F00 with ho | ho
  · rw [if_neg fun hal => Nat.not_lt.2 h ((Mirroring.lt_palette_iff_of_aliases _ hal).1 ho)]
    rcases Nat.lt_or_ge (graphicsAddress other) 0x2000 with ho' | ho'
    · rw [memory.mirroring.cell_of_pattern ho']
    · rw [memory.mirroring.cell_of_nametable ho' ho]
  · rw [memory.mirroring.cell_of_palette ho, Mirroring.aliases_of_palette _ ho, decide_eq_true h,
      Bool.true_and]
    dsimp only
    rw [getElem_setPalette, hmod, hmod, stored, if_neg (Nat.not_lt.2 ho)]
    simp only [beq_iff_eq]

/-- A write that is accepted is read back at the aliases of its address and nowhere else. -/
theorem read_write (memory : GraphicsMemory) {address : UInt16}
    (h : memory.accepts address = true) (value : UInt8) (other : UInt16) :
    (memory.write address value).read other =
      if memory.mirroring.aliases (graphicsAddress other) (graphicsAddress address) then
        stored (graphicsAddress other) value
      else memory.read other := by
  have hplain (ha : graphicsAddress address < 0x3F00)
      (hal : memory.mirroring.aliases (graphicsAddress other) (graphicsAddress address) = true) :
      stored (graphicsAddress other) value = value :=
    if_pos ((Mirroring.lt_palette_iff_of_aliases _ hal).2 ha)
  rcases Nat.lt_or_ge (graphicsAddress address) 0x2000 with h₁ | h₁
  · have hc := memory.mirroring.cell_of_pattern h₁
    rw [accepts, hc] at h
    rw [read_write_of_pattern memory hc h]
    simp only [← memory.mirroring.aliases_iff_of_pattern other h₁]
    split
    next hal => exact (hplain (Nat.lt_trans h₁ (by decide)) hal).symm
    next => rfl
  · rcases Nat.lt_or_ge (graphicsAddress address) 0x3F00 with h₂ | h₂
    · have hc := memory.mirroring.cell_of_nametable h₁ h₂
      rw [read_write_of_nametable memory hc, ← hc]
      simp only [← memory.mirroring.aliases_iff_of_nametable other h₁ h₂]
      split
      next hal => exact (hplain h₂ hal).symm
      next => rfl
    · exact read_write_of_palette memory h₂ value other

theorem write_writable (memory : GraphicsMemory) (address : UInt16) (value : UInt8) :
    (memory.write address value).writable = memory.writable := by
  unfold write
  split
  · split <;> rfl
  · rfl
  · rfl

/-- The byte at an address before anything is stored. -/
def initialByte (pattern : Array UInt8) (a : Nat) : UInt8 :=
  if a < 0x2000 then pattern[a]?.getD 0 else 0

/-- At power on the cartridge's pattern is there, and all else is zero. -/
theorem read_ofPattern (pattern : Array UInt8) (mirroring : Mirroring) (address : UInt16) :
    (ofPattern pattern mirroring).read address = initialByte pattern (graphicsAddress address) := by
  have hm : (ofPattern pattern mirroring).mirroring = mirroring := rfl
  rw [read, hm, initialByte]
  rcases Nat.lt_or_ge (graphicsAddress address) 0x2000 with h₁ | h₁
  · rw [mirroring.cell_of_pattern h₁, if_pos h₁]
    exact Vector.getElem_ofFn _
  · rw [if_neg (Nat.not_lt.2 h₁)]
    rcases Nat.lt_or_ge (graphicsAddress address) 0x3F00 with h₂ | h₂
    · rw [mirroring.cell_of_nametable h₁ h₂]
      exact Vector.getElem_replicate _
    · rw [mirroring.cell_of_palette h₂]
      exact Vector.getElem_replicate _

/-- Only pattern memory can refuse a byte. -/
theorem accepts_eq (memory : GraphicsMemory) (address : UInt16) :
    memory.accepts address = (memory.writable || decide (0x2000 ≤ graphicsAddress address)) := by
  rw [accepts]
  rcases Nat.lt_or_ge (graphicsAddress address) 0x2000 with h₁ | h₁
  · rw [memory.mirroring.cell_of_pattern h₁, decide_eq_false (Nat.not_le.2 h₁), Bool.or_false]
  · rw [decide_eq_true h₁, Bool.or_true]
    rcases Nat.lt_or_ge (graphicsAddress address) 0x3F00 with h₂ | h₂
    · rw [memory.mirroring.cell_of_nametable h₁ h₂]
    · rw [memory.mirroring.cell_of_palette h₂]

end GraphicsMemory

namespace Ppu

/-! ## Events -/

/-- Something that happens to the picture unit. -/
inductive Event where
  | read (address : UInt16)
  | write (address : UInt16) (value : UInt8)
  | writeOam (value : UInt8)
  | startVblank
  | reset
deriving DecidableEq

namespace Event

/-- The unit after an event, which may have failed. -/
def apply : Event → Ppu → Ppu
  | read address, ppu => final (readRegister address ppu)
  | write address value, ppu => final (writeRegister address value ppu)
  | writeOam value, ppu => ppu.writeOam value
  | startVblank, ppu => ppu.startVblank
  | reset, ppu => ppu.reset

/-- The address and the byte of an event that writes the data register with success. -/
def store? : Event → Ppu → Option (Nat × UInt8)
  | write address value, ppu =>
    match PpuRegister.ofAddress address, writeRegister address value ppu with
    | .data, .ok .. => some (graphicsAddress ppu.latches.vramAddress, value)
    | _, _ => none
  | _, _ => none

end Event

/-- The unit after some events. -/
def after (events : List Event) (ppu : Ppu) : Ppu :=
  events.foldl (fun ppu event => event.apply ppu) ppu

/-- What is written to the data register with success while some events happen, oldest first. -/
def stores : List Event → Ppu → List (Nat × UInt8)
  | [], _ => []
  | event :: rest, ppu => (event.store? ppu).toList ++ stores rest (event.apply ppu)

/-- The last byte that was written to one of the given addresses, if there is one. -/
def lastStored (reaches : Nat → Bool) (log : List (Nat × UInt8)) : Option UInt8 :=
  (log.reverse.find? fun store => reaches store.1).map Prod.snd

theorem lastStored_append (reaches : Nat → Bool) (log : List (Nat × UInt8)) (a : Nat)
    (value : UInt8) :
    lastStored reaches (log ++ [(a, value)]) =
      if reaches a then some value else lastStored reaches log := by
  rw [lastStored, lastStored, List.reverse_append, List.reverse_singleton,
    List.singleton_append, List.find?_cons]
  cases reaches a <;> rfl

/-! ## The byte at an address -/

/-- The byte that the data register reaches if its address is `address`: a read keeps it for the
read after it. -/
def portByte (ppu : Ppu) (address : UInt16) : UInt8 :=
  let ppu := { ppu with latches := { ppu.latches with vramAddress := address } }
  ppu.readData.2.latches.readBuffer

/-- What the data register shows, apart from its buffer, is what memory has. -/
theorem portByte_eq (ppu : Ppu) (address : UInt16) :
    ppu.portByte address = ppu.memory.read address := rfl

/-- Graphics memory as some stores leave it that found what a cartridge brings. -/
structure Holds (pattern : Array UInt8) (mirroring : Mirroring) (log : List (Nat × UInt8))
    (ppu : Ppu) : Prop where
  mirroring_eq : ppu.memory.mirroring = mirroring
  writable_eq : ppu.memory.writable = pattern.isEmpty
  read_eq (address : UInt16) :
    ppu.memory.read address =
      ((lastStored (mirroring.aliases (graphicsAddress address)) log).map
        (GraphicsMemory.stored (graphicsAddress address))).getD
        (GraphicsMemory.initialByte pattern (graphicsAddress address))

section

variable {pattern : Array UInt8} {mirroring : Mirroring} {log : List (Nat × UInt8)} {ppu : Ppu}

theorem holds_ofPattern : Holds pattern mirroring [] (ofPattern pattern mirroring) :=
  ⟨rfl, rfl, GraphicsMemory.read_ofPattern pattern mirroring⟩

theorem Holds.of_memory_eq (h : Holds pattern mirroring log ppu) {ppu' : Ppu}
    (he : ppu'.memory = ppu.memory) : Holds pattern mirroring log ppu' := by
  refine ⟨?_, ?_, ?_⟩
  · rw [he, h.mirroring_eq]
  · rw [he, h.writable_eq]
  · rw [he]
    exact h.read_eq

/-- No read of a register changes memory. -/
theorem memory_readRegister (address : UInt16) (ppu : Ppu) :
    (final (readRegister address ppu)).memory = ppu.memory := by
  unfold readRegister
  split <;> rfl

/-- Only the data register writes to memory. -/
theorem memory_writeRegister {address : UInt16} (h : PpuRegister.ofAddress address ≠ .data)
    (value : UInt8) (ppu : Ppu) :
    (final (writeRegister address value ppu)).memory = ppu.memory := by
  unfold writeRegister
  split
  case h_8 hd => exact absurd hd h
  all_goals rfl

/-- A byte that is accepted is the last one at its address, and one that is refused changes nothing.
-/
theorem Holds.writeData (h : Holds pattern mirroring log ppu) (value : UInt8) :
    match Ppu.writeData value ppu with
    | .ok _ ppu' =>
      Holds pattern mirroring (log ++ [(graphicsAddress ppu.latches.vramAddress, value)]) ppu'
    | .error _ ppu' => Holds pattern mirroring log ppu' := by
  unfold Ppu.writeData
  by_cases ha : ppu.memory.accepts ppu.latches.vramAddress = true
  · rw [if_pos ha]
    have hm : (ppu.storeData value).memory =
      ppu.memory.write ppu.latches.vramAddress value := rfl
    refine ⟨?_, ?_, fun address => ?_⟩
    · rw [hm, GraphicsMemory.write_mirroring, h.mirroring_eq]
    · rw [hm, GraphicsMemory.write_writable, h.writable_eq]
    · rw [hm, ppu.memory.read_write ha, h.mirroring_eq, lastStored_append, h.read_eq]
      split
      · rfl
      · rfl
  · rw [if_neg ha]
    exact h

/-- One event. -/
theorem Holds.event (h : Holds pattern mirroring log ppu) (event : Event) :
    Holds pattern mirroring (log ++ (event.store? ppu).toList) (event.apply ppu) := by
  have stays {ppu' : Ppu} (he : ppu'.memory = ppu.memory) :
      Holds pattern mirroring (log ++ []) ppu' := by
    rw [List.append_nil]
    exact h.of_memory_eq he
  cases event with
  | read address => exact stays (memory_readRegister address ppu)
  | write address value =>
    by_cases hd : PpuRegister.ofAddress address = .data
    · have hw := h.writeData value
      simp only [Event.store?, Event.apply, writeRegister, hd]
      cases hc : Ppu.writeData value ppu with
      | ok _ ppu' =>
        rw [hc] at hw
        exact hw
      | error cause ppu' =>
        rw [hc] at hw
        rw [Option.toList_none, List.append_nil]
        exact hw
    · have hnone : (Event.write address value).store? ppu = none := by
        simp only [Event.store?]
        split
        next hd' _ => exact absurd hd' hd
        next => rfl
      rw [hnone]
      exact stays (memory_writeRegister hd value ppu)
  | writeOam value => exact stays rfl
  | startVblank => exact stays rfl
  | reset => exact stays rfl

/-- So memory is what the bytes stored so far have made of it. -/
theorem Holds.after (h : Holds pattern mirroring log ppu) (events : List Event) :
    Holds pattern mirroring (log ++ stores events ppu) (after events ppu) := by
  induction events generalizing ppu log with
  | nil => rwa [stores, List.append_nil]
  | cons event rest ih =>
    rw [stores, ← List.append_assoc]
    exact ih (h.event event)

/-! ## The palette -/

theorem graphicsAddress_palette (entry : Fin 32) :
    graphicsAddress (0x3F00 + UInt16.ofNat entry.val) = 0x3F00 + entry.val := by
  have he := entry.isLt
  simp only [graphicsAddress, UInt16.toNat_add, UInt16.toNat_ofNat', UInt16.reduceToNat]
  omega

theorem getElem_palette (ppu : Ppu) (entry : Fin 32) :
    getElem ppu.memory.palette entry entry.isLt =
      ppu.memory.read (0x3F00 + UInt16.ofNat entry.val) := by
  have ha := graphicsAddress_palette entry
  have he : (0x3F00 + entry.val) % 32 = entry.val := by
    have := entry.isLt
    omega
  rw [GraphicsMemory.read, ppu.memory.mirroring.cell_of_palette (by rw [ha]; omega)]
  simp only [ha, he]

theorem Holds.getElem_palette (h : Holds pattern mirroring log ppu) (entry : Fin 32) :
    getElem ppu.memory.palette entry entry.isLt =
      ((lastStored (mirroring.aliases (0x3F00 + entry.val)) log).map (· &&& 0x3F)).getD 0 := by
  rw [Ppu.getElem_palette, h.read_eq, graphicsAddress_palette, GraphicsMemory.initialByte,
    if_neg (by omega)]
  congr 2
  funext value
  exact if_neg (by omega)

/-- Colours have six bits. -/
theorem Holds.palette_lt (h : Holds pattern mirroring log ppu) (entry : Fin 32) :
    getElem ppu.memory.palette entry entry.isLt < 0x40 := by
  rw [h.getElem_palette]
  cases lastStored (mirroring.aliases (0x3F00 + entry.val)) log with
  | none => decide
  | some value =>
    rw [Option.map_some, Option.getD_some, UInt8.lt_iff_toNat_lt, UInt8.toNat_and]
    exact Nat.lt_succ_of_le Nat.and_le_right

/-- The backdrops of both halves are the same. -/
theorem Holds.palette_shared (h : Holds pattern mirroring log ppu) {entry other : Fin 32}
    (h₁ : entry.val % 4 = 0) (h₂ : other.val = entry.val + 16) :
    getElem ppu.memory.palette entry entry.isLt = getElem ppu.memory.palette other other.isLt := by
  have ha : mirroring.aliases (0x3F00 + entry.val) = mirroring.aliases (0x3F00 + other.val) := by
    have he : Mirroring.paletteEntry (0x3F00 + entry.val) =
        Mirroring.paletteEntry (0x3F00 + other.val) := by
      unfold Mirroring.paletteEntry
      rw [if_pos (by omega), if_pos (by omega)]
      omega
    funext b
    rw [Mirroring.aliases_of_palette _ (by omega), Mirroring.aliases_of_palette _ (by omega), he]
  rw [h.getElem_palette, h.getElem_palette, ha]

theorem Holds.writeRegister_data (h : Holds pattern mirroring log ppu) {register : UInt16}
    (hr : PpuRegister.ofAddress register = .data) (value : UInt8) :
    let a := graphicsAddress ppu.latches.vramAddress
    if pattern.isEmpty = false ∧ a < 0x2000 then
      writeRegister register value ppu = .error (.patternRomWrite (UInt16.ofNat a) value) ppu
    else ∃ ppu', writeRegister register value ppu = .ok () ppu' := by
  intro a
  have ha := ppu.memory.accepts_eq ppu.latches.vramAddress
  rw [h.writable_eq] at ha
  simp only [writeRegister, hr, Ppu.writeData, ha, Bool.or_eq_true, decide_eq_true_eq]
  by_cases hc : pattern.isEmpty = false ∧ a < 0x2000
  · rw [if_pos hc, if_neg]
    · rfl
    · rintro (hp | hp)
      · rw [hc.1] at hp
        cases hp
      · exact absurd hc.2 (Nat.not_lt.2 hp)
  · rw [if_neg hc, if_pos]
    · exact ⟨_, rfl⟩
    · by_cases hp : pattern.isEmpty = true
      · exact .inl hp
      · exact .inr (Nat.not_lt.1 fun hlt => hc ⟨by simpa using hp, hlt⟩)

/-- **Main theorem.** After any history of a picture unit, the data register reaches at an address
the last byte that was written to an alias of it, six bits of it in the palette, and what the
cartridge brought where there was none. Only a cartridge's pattern memory refuses to be written,
and then nothing changes. Palette entries have six bits, and the first of every four is the same in
both halves. -/
theorem portByte_after (pattern : Array UInt8) (mirroring : Mirroring) (events : List Event) :
    let ppu := after events (ofPattern pattern mirroring)
    let log := stores events (ofPattern pattern mirroring)
    (∀ address : UInt16,
      let a := graphicsAddress address
      ppu.portByte address =
        ((lastStored (mirroring.aliases a) log).map (GraphicsMemory.stored a)).getD
          (GraphicsMemory.initialByte pattern a)) ∧
    (∀ (register : UInt16) (value : UInt8), PpuRegister.ofAddress register = .data →
      let a := graphicsAddress ppu.latches.vramAddress
      if pattern.isEmpty = false ∧ a < 0x2000 then
        writeRegister register value ppu = .error (.patternRomWrite (UInt16.ofNat a) value) ppu
      else ∃ ppu', writeRegister register value ppu = .ok () ppu') ∧
    (∀ entry : Fin 32, getElem ppu.memory.palette entry entry.isLt < 0x40) ∧
    ∀ entry other : Fin 32, entry.val % 4 = 0 → other.val = entry.val + 16 →
      getElem ppu.memory.palette entry entry.isLt =
        getElem ppu.memory.palette other other.isLt := by
  intro ppu log
  have h : Holds pattern mirroring log ppu := holds_ofPattern.after events
  refine ⟨fun address => ?_, fun register value hr => ?_, h.palette_lt, fun _ _ =>
    h.palette_shared⟩
  · exact (portByte_eq ppu address).trans (h.read_eq address)
  · exact h.writeRegister_data hr value

theorem portByte_after_mirrored :
    let events : List Event := [.write 0x2006 0x24, .write 0x2006 0x05, .write 0x2007 0x42]
    let rom : Ppu := ofPattern #[0xAA] .vertical
    (after events (ofPattern #[] .horizontal)).portByte 0x3005 = 0x42 ∧
      writeRegister 0x3FFF 0x42 rom = .error (.patternRomWrite 0 0x42) rom ∧
      getElem rom.memory.palette (4 : Fin 32) (4 : Fin 32).isLt =
        getElem rom.memory.palette (20 : Fin 32) (20 : Fin 32).isLt := by
  intro events rom
  have h := (portByte_after #[] .horizontal events).1 0x3005
  have hrom := (portByte_after #[0xAA] .vertical []).2
  refine ⟨h.trans ?_, ?_, hrom.2.2 4 20 (by decide) (by decide)⟩
  · have hlog : stores events (ofPattern #[] .horizontal) = [(0x2405, 0x42)] := rfl
    rw [hlog]
    decide
  · exact hrom.1 0x3FFF 0x42 (by decide)

end

end Ppu

end Nes
