import Nes.Proofs.Graphics.Locality
import Nes.Proofs.Graphics.Streaming

/-!
# Tables that are taken whole

A renderer takes a name table or a pattern table whole: one piece of name table or pattern memory,
from where the first window of the table begins. The data register looks up a window for each byte.
Both see the same bytes. For a name table that is so because a table is as long as a window, and for
a pattern table because its four windows lie one behind the other. A byte that is written to the
data register is therefore seen in every table that contains an alias of its address, at the aliases
and nowhere else.

Results:

* `GraphicsMemory.nametable_eq_read`, `GraphicsMemory.patternTable_eq_read`: a byte of a table is
  what is read at an address of it.
* `View.contains_nametable_iff`: which name tables see an address.
* `View.getElem?_bytes_storeData`, `View.bytes_storeData_ne_iff`: a table after a byte is stored.
* `views_of_memory`: **tables that are taken whole, and the data register.**
-/

namespace Nes

/-! ## A byte of a table -/

namespace GraphicsMemory

variable (memory : GraphicsMemory)

theorem nametable_congr {i j : Nat} (h : i % 4 = j % 4) :
    memory.nametable i = memory.nametable j := by
  have hf : Fin.ofNat 4 i = Fin.ofNat 4 j := Fin.ext h
  simp only [nametable, hf]

theorem patternTable_congr {i j : Nat} (h : i % 2 = j % 2) :
    memory.patternTable i = memory.patternTable j := by
  simp only [patternTable, h]

theorem nametable_eq_read (address : UInt16) (h₁ : 0x2000 ≤ graphicsAddress address)
    (h₂ : graphicsAddress address < 0x3F00) :
    (memory.nametable (graphicsAddress address / 0x400))[graphicsAddress address % 0x400]? =
      some (memory.read address) := by
  have ho : graphicsAddress address % 0x400 < 0x400 := Nat.mod_lt _ (by decide)
  have hp := memory.mirroring.pages_eq (Fin.ofNat 4 (graphicsAddress address / 0x400))
  rw [read, memory.mirroring.cell_of_nametable h₁ h₂, Vector.getElem?_eq_getElem ho, nametable,
    Vector.getElem_ofFn]
  simp only [Fin.getElem_fin] at hp ⊢
  simp only [hp]
  rfl

theorem patternTable_eq_read (address : UInt16) (h : graphicsAddress address < 0x2000) :
    (memory.patternTable (graphicsAddress address / 0x1000))[graphicsAddress address % 0x1000]? =
      some (memory.read address) := by
  have ho : graphicsAddress address % 0x1000 < 0x1000 := Nat.mod_lt _ (by decide)
  have hoffset : graphicsAddress address / 0x1000 % 2 * 0x1000 + graphicsAddress address % 0x1000 =
      graphicsAddress address := by
    omega
  rw [getElem?_patternTable _ _ ho, hoffset, read, memory.mirroring.cell_of_pattern h]
  exact Vector.getElem?_eq_getElem h

end GraphicsMemory

namespace Ppu

/-! ## Views -/

/-- A table that can be taken whole. -/
inductive View where
  | nametable (index : Nat)
  | pattern (index : Nat)
  /-- The pattern table of the background. -/
  | background
deriving DecidableEq

namespace View

/-- The bytes of a table. -/
def bytes : View → Ppu → Array UInt8
  | nametable index, ppu => (ppu.memory.nametable index).toArray
  | pattern index, ppu => (ppu.memory.patternTable index).toArray
  | background, ppu => (ppu.memory.patternTable ppu.backgroundTable).toArray

/-- The bytes of a table, taken from memory at the beginning of a window. -/
def slice : View → Bare.Ppu → Option (Array UInt8)
  | nametable index, ppu => ppu.nametable index
  | pattern index, ppu => ppu.patternTable index
  | background, ppu => ppu.backgroundTable

/-- How many bytes a table has. -/
def size : View → Nat
  | nametable _ => 0x400
  | pattern _ | background => 0x1000

/-- The address of the first byte of a table. -/
def start : View → Ppu → Nat
  | nametable index, _ => 0x2000 + 0x400 * (index % 4)
  | pattern index, _ => 0x1000 * (index % 2)
  | background, ppu => 0x1000 * Picture.bit ppu.latches.control 4

/-- Some byte of the table is the one at address `a`. -/
def Contains (view : View) (ppu : Ppu) (a : Nat) : Prop :=
  ∃ o < view.size, ppu.memory.mirroring.aliases (view.start ppu + o) a = true

variable (view : View) (ppu : Ppu)

theorem slice_bare : view.slice ppu.bare = some (view.bytes ppu) := by
  cases view with
  | nametable index => exact ppu.bare_nametable index
  | pattern index => exact ppu.bare_patternTable index
  | background => exact ppu.bare_backgroundTable

theorem size_bytes : (view.bytes ppu).size = view.size := by
  cases view with
  | nametable index => exact Vector.size_toArray _
  | pattern index => exact Vector.size_toArray _
  | background => exact Vector.size_toArray _

theorem bytes_background :
    background.bytes ppu = (pattern (Picture.bit ppu.latches.control 4)).bytes ppu := by
  rw [bytes, bytes, Picture.backgroundTable_eq]

theorem start_add_lt {o : Nat} (h : o < view.size) : view.start ppu + o < 0x3000 := by
  cases view with
  | nametable index =>
    rw [size] at h
    rw [start]
    omega
  | pattern index =>
    rw [size] at h
    rw [start]
    omega
  | background =>
    have hbit : Picture.bit ppu.latches.control 4 < 2 := Nat.mod_lt _ (by decide)
    rw [size] at h
    rw [start]
    omega

/-- A name table at an address of it. The tables are there twice, below `$3000` and above. -/
theorem getElem?_nametable {index o a : Nat} (ho : o < 0x400) (h : a < 0x3F00)
    (ha : a = 0x2000 + 0x400 * (index % 4) + o ∨ a = 0x3000 + 0x400 * (index % 4) + o) :
    ((nametable index).bytes ppu)[o]? = some (ppu.byteAt a) := by
  have hga : graphicsAddress (.ofNat a) = a := graphicsAddress_ofNat (by omega)
  have hread := ppu.memory.nametable_eq_read (.ofNat a) (by omega) (by omega)
  have hoffset : a % 0x400 = o := by omega
  have hindex : a / 0x400 % 4 = index % 4 := by omega
  rw [hga, hoffset, ppu.memory.nametable_congr hindex] at hread
  rwa [bytes, Vector.getElem?_toArray]

theorem getElem?_pattern {index o : Nat} (ho : o < 0x1000) :
    ((pattern index).bytes ppu)[o]? = some (ppu.byteAt (0x1000 * (index % 2) + o)) := by
  have hga : graphicsAddress (.ofNat (0x1000 * (index % 2) + o)) = 0x1000 * (index % 2) + o :=
    graphicsAddress_ofNat (by omega)
  have hread := ppu.memory.patternTable_eq_read (.ofNat (0x1000 * (index % 2) + o)) (by omega)
  have hoffset : (0x1000 * (index % 2) + o) % 0x1000 = o := by omega
  have hindex : (0x1000 * (index % 2) + o) / 0x1000 % 2 = index % 2 := by omega
  rw [hga, hoffset, ppu.memory.patternTable_congr hindex] at hread
  rwa [bytes, Vector.getElem?_toArray]

theorem getElem?_bytes {o : Nat} (h : o < view.size) :
    (view.bytes ppu)[o]? = some (ppu.byteAt (view.start ppu + o)) := by
  cases view with
  | nametable index =>
    have hlt := start_add_lt (nametable index) ppu h
    exact getElem?_nametable ppu h (Nat.lt_trans hlt (by decide)) (.inl rfl)
  | pattern index => exact getElem?_pattern ppu h
  | background =>
    have hbit : Picture.bit ppu.latches.control 4 % 2 = Picture.bit ppu.latches.control 4 :=
      Nat.mod_mod ..
    rw [bytes_background, getElem?_pattern ppu h, hbit, start]

/-! ## Which tables see an address -/

theorem contains_nametable_iff {index a : Nat} : (nametable index).Contains ppu a ↔
    0x2000 ≤ a ∧ a < 0x3F00 ∧
      ppu.memory.mirroring.pageOf (a / 0x400 % 4) = ppu.memory.mirroring.pageOf (index % 4) := by
  have hindex (o : Nat) (h : o < 0x400) :
      (0x2000 + 0x400 * (index % 4) + o) / 0x400 % 4 = index % 4 := by
    omega
  have haliases (o : Nat) (h : o < 0x400) :
      ppu.memory.mirroring.aliases (0x2000 + 0x400 * (index % 4) + o) a = true ↔
        0x2000 ≤ a ∧ a < 0x3F00 ∧ o = a % 0x400 ∧ ppu.memory.mirroring.pageOf (index % 4) =
          ppu.memory.mirroring.pageOf (a / 0x400 % 4) := by
    have ho : (0x2000 + 0x400 * (index % 4) + o) % 0x400 = o := by omega
    rw [Mirroring.aliases, if_neg (by omega), if_pos (by omega), hindex o h, ho]
    simp only [Bool.and_eq_true, decide_eq_true_eq, beq_iff_eq, and_assoc]
  constructor
  · rintro ⟨o, ho, h⟩
    obtain ⟨h₁, h₂, -, hp⟩ := (haliases o ho).1 h
    exact ⟨h₁, h₂, hp.symm⟩
  · rintro ⟨h₁, h₂, hp⟩
    have ho : a % 0x400 < 0x400 := Nat.mod_lt _ (by decide)
    exact ⟨a % 0x400, ho, (haliases _ ho).2 ⟨h₁, h₂, rfl, hp.symm⟩⟩

/-! ## A table after a byte is stored -/

variable {view ppu}

/-- A table is known by its bytes below its size. -/
theorem bytes_congr {ppu' : Ppu}
    (h : ∀ o < view.size, (view.bytes ppu)[o]? = (view.bytes ppu')[o]?) :
    view.bytes ppu = view.bytes ppu' := by
  apply Array.ext_getElem?
  intro o
  rcases Nat.lt_or_ge o view.size with ho | ho
  · exact h o ho
  · rw [Array.getElem?_eq_none (by rwa [size_bytes]), Array.getElem?_eq_none (by rwa [size_bytes])]

theorem getElem?_bytes_storeData (ha : ppu.memory.accepts ppu.latches.vramAddress = true)
    (value : UInt8) {o : Nat} (h : o < view.size) :
    (view.bytes (ppu.storeData value))[o]? =
      if ppu.memory.mirroring.aliases (view.start ppu + o)
        (graphicsAddress ppu.latches.vramAddress) then some value
      else (view.bytes ppu)[o]? := by
  have hlt := view.start_add_lt ppu h
  have hstart : view.start (ppu.storeData value) = view.start ppu := by
    cases view <;> rfl
  have hstored : GraphicsMemory.stored (view.start ppu + o) value = value := if_pos (by omega)
  rw [getElem?_bytes view _ h, getElem?_bytes view _ h, hstart,
    byteAt_storeData ha value (by omega), hstored, streamAddress_zero]
  split
  · rfl
  · rfl

/-- Which byte was stored shows in the tables that contain an alias of its address. -/
theorem bytes_storeData_ne_iff (ha : ppu.memory.accepts ppu.latches.vramAddress = true)
    {value other : UInt8} (hne : other ≠ value) :
    view.bytes (ppu.storeData other) ≠ view.bytes (ppu.storeData value) ↔
      view.Contains ppu (graphicsAddress ppu.latches.vramAddress) := by
  constructor
  · intro h
    by_contra hcontains
    refine h (bytes_congr fun o ho => ?_)
    have halias : ¬ppu.memory.mirroring.aliases (view.start ppu + o)
        (graphicsAddress ppu.latches.vramAddress) = true := fun hal => hcontains ⟨o, ho, hal⟩
    rw [getElem?_bytes_storeData ha other ho, getElem?_bytes_storeData ha value ho,
      if_neg halias, if_neg halias]
  · rintro ⟨o, ho, hal⟩ h
    have hother := getElem?_bytes_storeData ha other ho
    have hvalue := getElem?_bytes_storeData ha value ho
    rw [if_pos hal] at hother hvalue
    rw [h, hvalue] at hother
    exact hne (Option.some.inj hother).symm

end View

theorem eq_storeData_of_ok {register : UInt16} (hr : PpuRegister.ofAddress register = .data)
    {value : UInt8} {ppu next : Ppu} (h : writeRegister register value ppu = .ok () next) :
    ppu.memory.accepts ppu.latches.vramAddress = true ∧ next = ppu.storeData value := by
  simp only [writeRegister, hr, writeData] at h
  split at h
  next ha =>
    cases h
    exact ⟨ha, rfl⟩
  next => cases h

/-- **Main theorem.** Every table that can be taken whole lies in one piece of memory, and each of
its bytes is what the data register reaches at an address of the table: a name table at both of its
places, as far as the palette does not cover the second, and a pattern table at its only one. The
background uses the pattern table that bit 4 of the control register names. A successful write of
the data register puts its byte into every table at the aliases of its address and changes nothing
else of the table, so that the byte can be told from another in exactly the tables that contain an
alias. -/
theorem views_of_memory (ppu : Ppu) :
    (∀ view : View, view.slice ppu.bare = some (view.bytes ppu) ∧
      (view.bytes ppu).size = view.size) ∧
    (∀ index o, o < 0x400 →
      ((View.nametable index).bytes ppu)[o]? =
        some (ppu.portByte (.ofNat (0x2000 + 0x400 * (index % 4) + o))) ∧
      (0x3000 + 0x400 * (index % 4) + o < 0x3F00 →
        ((View.nametable index).bytes ppu)[o]? =
          some (ppu.portByte (.ofNat (0x3000 + 0x400 * (index % 4) + o))))) ∧
    (∀ index o, o < 0x1000 →
      ((View.pattern index).bytes ppu)[o]? =
        some (ppu.portByte (.ofNat (0x1000 * (index % 2) + o)))) ∧
    View.background.bytes ppu = (View.pattern (Picture.bit ppu.latches.control 4)).bytes ppu ∧
    ∀ register value next, PpuRegister.ofAddress register = .data →
      writeRegister register value ppu = .ok () next →
      let a := graphicsAddress ppu.latches.vramAddress
      ∀ view : View,
        (∀ o < view.size, (view.bytes next)[o]? =
          if ppu.memory.mirroring.aliases (view.start ppu + o) a then some value
          else (view.bytes ppu)[o]?) ∧
        ∀ other next', other ≠ value → writeRegister register other ppu = .ok () next' →
          (view.bytes next' ≠ view.bytes next ↔ view.Contains ppu a) := by
  refine ⟨fun view => ⟨view.slice_bare ppu, view.size_bytes ppu⟩, fun index o ho => ⟨?_, ?_⟩,
    fun index o ho => ?_, View.bytes_background ppu, ?_⟩
  · rw [portByte_eq]
    exact View.getElem?_nametable ppu ho (by omega) (.inl rfl)
  · intro h
    rw [portByte_eq]
    exact View.getElem?_nametable ppu ho h (.inr rfl)
  · rw [portByte_eq]
    exact View.getElem?_pattern ppu ho
  · intro register value next hr hwrite a view
    obtain ⟨ha, rfl⟩ := eq_storeData_of_ok hr hwrite
    refine ⟨fun o ho => View.getElem?_bytes_storeData ha value ho, ?_⟩
    intro other next' hne hother
    obtain ⟨-, rfl⟩ := eq_storeData_of_ok hr hother
    exact View.bytes_storeData_ne_iff ha hne

theorem views_of_memory_horizontal :
    let ppu : Ppu := { ofPattern #[] .horizontal with latches := { vramAddress := 0x2005 } }
    ∃ next next', writeRegister 0x2007 0x42 ppu = .ok () next ∧
      writeRegister 0x2007 0x43 ppu = .ok () next' ∧
      ((View.nametable 1).bytes next)[5]? = some 0x42 ∧ next.portByte 0x3405 = 0x42 ∧
      (View.nametable 1).bytes next' ≠ (View.nametable 1).bytes next ∧
      (View.nametable 2).bytes next' = (View.nametable 2).bytes next := by
  intro ppu
  have hok (value : UInt8) : writeRegister 0x2007 value ppu = .ok () (ppu.storeData value) := by
    show writeData value ppu = _
    rw [writeData, if_pos (by decide)]
  have hviews := (views_of_memory ppu).2.2.2.2 0x2007 0x42 _ (by decide) (hok 0x42)
  have hshown : ((View.nametable 1).bytes (ppu.storeData 0x42))[5]? = some 0x42 := by
    rw [(hviews (.nametable 1)).1 5 (by decide), if_pos (by decide)]
  have hport := ((views_of_memory (ppu.storeData 0x42)).2.1 1 5 (by decide)).2 (by decide)
  refine ⟨_, _, hok 0x42, hok 0x43, hshown, ?_, ?_, ?_⟩
  · rw [hshown] at hport
    exact (Option.some.inj hport).symm
  · rw [(hviews (.nametable 1)).2 0x43 _ (by decide) (hok 0x43), View.contains_nametable_iff]
    decide
  · by_contra h
    rw [← ne_eq, (hviews (.nametable 2)).2 0x43 _ (by decide) (hok 0x43),
      View.contains_nametable_iff] at h
    revert h
    decide

end Ppu

end Nes
