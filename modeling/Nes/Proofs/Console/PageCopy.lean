import Mathlib.Data.List.FinRange
import Nes.Proofs.Console.Refusals

/-!
# The copy to object memory

One write starts a loop of 256 rounds. Each reads the next byte of a page, through the decoder and
with all that a read may do, and stores it where the object address points. The page decides how it
ends. Pages of memory are copied whole. The first byte of a page of registers, or of the expansion
area, cannot be read, so nothing of these is copied. One page begins with 32 addresses of the pads
and goes on in the expansion area, and its copy breaks off halfway.

Results:

* `forM_range_of_invariant`, `forM_range_of_error`: loops by an invariant of their rounds.
* `Ppu.Stored.write`: what one more byte in object memory does.
* `Copied.step`: one round of a copy.
* `write_oamDma`: **how the copy of every page ends, and what it leaves.**
-/

namespace Nes

/-! ## Loops -/

section

variable {ε σ : Type} {f : Nat → EStateM ε σ Unit} {I : Nat → σ → Prop} {m n : Nat} {s : σ}

/-- The loop runs over numbers as well as over numbers with a bound. -/
theorem forM_finRange (n : Nat) (f : Nat → EStateM ε σ Unit) :
    ((List.finRange n).forM fun i => f i) = (List.range n).forM f := by
  rw [← List.map_coe_finRange_eq_range]
  exact List.forM_map.symm

theorem forM_append_of_ok {xs ys : List Nat} {middle : σ} (h : xs.forM f s = .ok () middle) :
    (xs ++ ys).forM f s = ys.forM f middle := by
  have happend : (xs ++ ys).forM f = xs.forM f >>= fun _ => ys.forM f := List.forM_append
  rw [happend]
  show EStateM.bind (xs.forM f) (fun _ => ys.forM f) s = _
  rw [EStateM.bind, h]

theorem forM_cons_of_ok {x : Nat} {xs : List Nat} {middle : σ} (h : f x s = .ok () middle) :
    (x :: xs).forM f s = xs.forM f middle := by
  show EStateM.bind (f x) (fun _ => xs.forM f) s = _
  rw [EStateM.bind, h]

theorem forM_cons_of_error {x : Nat} {xs : List Nat} {cause : ε} {last : σ}
    (h : f x s = .error cause last) : (x :: xs).forM f s = .error cause last := by
  show EStateM.bind (f x) (fun _ => xs.forM f) s = _
  rw [EStateM.bind, h]

theorem range_of_lt (h : n < m) : ∃ rest, List.range m = List.range n ++ n :: rest := by
  obtain ⟨k, rfl⟩ := Nat.exists_eq_add_of_lt h
  rw [Nat.add_assoc, List.range_add, List.range_succ_eq_map, List.map_cons, Nat.add_zero]
  exact ⟨_, rfl⟩

/-- What holds before a loop, and is carried on by every round of it, holds after it. -/
theorem forM_range_of_invariant
    (hstep : ∀ i < n, ∀ s, I i s → ∃ next, f i s = .ok () next ∧ I (i + 1) next) (h : I 0 s) :
    ∃ last, (List.range n).forM f s = .ok () last ∧ I n last := by
  induction n with
  | zero => exact ⟨s, rfl, h⟩
  | succ n ih =>
    obtain ⟨middle, hm, hi⟩ := ih fun i hi => hstep i (Nat.lt_succ_of_lt hi)
    obtain ⟨last, hl, hi⟩ := hstep n (Nat.lt_succ_self n) middle hi
    refine ⟨last, ?_, hi⟩
    rw [List.range_succ, forM_append_of_ok hm, forM_cons_of_ok hl]
    rfl

/-- A loop whose round `n` fails leaves what the rounds before it have come to. -/
theorem forM_range_of_error {cause : ε} (hn : n < m)
    (hstep : ∀ i < n, ∀ s, I i s → ∃ next, f i s = .ok () next ∧ I (i + 1) next)
    (hlast : ∀ s, I n s → f n s = .error cause s) (h : I 0 s) :
    ∃ last, (List.range m).forM f s = .error cause last ∧ I n last := by
  obtain ⟨last, hl, hi⟩ := forM_range_of_invariant hstep h
  refine ⟨last, ?_, hi⟩
  obtain ⟨rest, hrange⟩ := range_of_lt hn
  rw [hrange, forM_append_of_ok hl]
  exact forM_cons_of_error (hlast last hi)

end

/-! ## Object memory -/

namespace Ppu

variable {bytes : UInt8 → UInt8} {n : Nat} {start next : Ppu}

/-- The byte of object memory at an address. -/
def objectByte (ppu : Ppu) (address : UInt8) : UInt8 := ppu.oam[(address.toFin : Fin 256)]

/-- The first `n` of some bytes have been stored from the object address of `start` on, and nothing
else has changed. -/
structure Stored (bytes : UInt8 → UInt8) (start : Ppu) (n : Nat) (next : Ppu) : Prop where
  memory_eq : next.memory = start.memory
  latches_eq : next.latches =
    { start.latches with oamAddress := start.latches.oamAddress + UInt8.ofNat n }
  objectByte_eq (i : UInt8) : next.objectByte (start.latches.oamAddress + i) =
    if i.toNat < n then bytes i else start.objectByte (start.latches.oamAddress + i)

theorem Stored.zero (bytes : UInt8 → UInt8) (ppu : Ppu) : Stored bytes ppu 0 ppu where
  memory_eq := rfl
  latches_eq := by
    show ppu.latches = { ppu.latches with oamAddress := ppu.latches.oamAddress + 0 }
    rw [UInt8.add_zero]
  objectByte_eq i := (if_neg (Nat.not_lt_zero _)).symm

theorem objectByte_writeOam (value : UInt8) (ppu : Ppu) (address : UInt8) :
    (ppu.writeOam value).objectByte address =
      if address = ppu.latches.oamAddress then value else ppu.objectByte address := by
  obtain ⟨latches, oam, memory⟩ := ppu
  have h : latches.oamAddress.toNat = address.toNat ↔ address = latches.oamAddress := by
    rw [UInt8.toNat_inj, eq_comm]
  simp only [writeOam, objectByte, Fin.getElem_fin, Vector.getElem_set]
  exact if_congr h rfl rfl

/-- One byte more. -/
theorem Stored.write (h : Stored bytes start n next) (hn : n < 256) :
    Stored bytes start (n + 1) (next.writeOam (bytes (.ofNat n))) where
  memory_eq := h.memory_eq
  latches_eq := by
    show advanceOam next.latches = _
    rw [h.latches_eq, advanceOam, UInt8.ofNat_add, ← UInt8.add_assoc]
    rfl
  objectByte_eq i := by
    have hi : (UInt8.ofNat n).toNat = n := UInt8.toNat_ofNat_of_lt' hn
    rw [objectByte_writeOam, h.latches_eq, h.objectByte_eq]
    by_cases he : i = .ofNat n
    · rw [he, hi, if_pos rfl, if_pos (Nat.lt_succ_self n)]
    · have hne : i.toNat ≠ n := fun hc => he (UInt8.toNat_inj.1 (hc.trans hi.symm))
      rw [if_neg fun hc => he ((UInt8.add_right_inj _).1 hc)]
      exact if_congr (by omega) rfl rfl

/-- The whole picture unit, from what is said of its parts. -/
theorem Stored.eq (h : Stored bytes start n next) :
    next = { start with
      oam := next.oam
      latches := { start.latches with oamAddress := start.latches.oamAddress + .ofNat n } } := by
  obtain ⟨latches, oam, memory⟩ := next
  obtain rfl : memory = start.memory := h.memory_eq
  obtain rfl : latches = _ := h.latches_eq
  rfl

end Ppu

/-! ## Pages -/

namespace Region

/-- Memory of some kind, which a read leaves alone. -/
def isMemory : Region → Bool
  | ram | saveRam | program => true
  | ppu | io | expansion => false

theorem isMemory_ofAddress_word_iff (offset page : UInt8) :
    (ofAddress (word offset page)).isMemory = true ↔ page < 0x20 ∨ 0x60 ≤ page := by
  have h := offset.toNat_lt
  have hr := ofAddress_mem (word offset page)
  rw [word_toNat] at hr
  simp only [UInt8.lt_iff_toNat_lt, UInt8.le_iff_toNat_le, UInt8.reduceToNat]
  cases hc : ofAddress (word offset page) with
  | ram | saveRam | program =>
    rw [hc, first, stop] at hr
    exact iff_of_true rfl (by omega)
  | ppu | io | expansion =>
    rw [hc, first, stop] at hr
    exact iff_of_false Bool.false_ne_true (by omega)

end Region

namespace Console

variable {address : UInt16} {value page : UInt8} {cause : BusError} {console next : Console}

theorem ofAddress_word_eq_ppu_iff (offset page : UInt8) :
    Region.ofAddress (word offset page) = .ppu ↔ 0x20 ≤ page ∧ page < 0x40 := by
  have h := offset.toNat_lt
  rw [Region.ofAddress_eq_ppu_iff]
  simp only [UInt16.le_iff_toNat_le, UInt16.lt_iff_toNat_lt, UInt8.le_iff_toNat_le,
    UInt8.lt_iff_toNat_lt, word_toNat, UInt16.reduceToNat, UInt8.reduceToNat]
  omega

theorem ofAddress_word_eq_expansion_iff (offset page : UInt8) :
    Region.ofAddress (word offset page) = .expansion ↔
      (page = 0x40 ∧ 0x20 ≤ offset) ∨ (0x41 ≤ page ∧ page < 0x60) := by
  have h := offset.toNat_lt
  rw [Region.ofAddress_eq_expansion_iff, ← UInt8.toNat_inj]
  simp only [UInt16.le_iff_toNat_le, UInt16.lt_iff_toNat_lt, UInt8.le_iff_toNat_le,
    UInt8.lt_iff_toNat_lt, word_toNat, UInt16.reduceToNat, UInt8.reduceToNat]
  omega

/-- Reading memory has no effect. -/
theorem read_of_isMemory (h : (Region.ofAddress address).isMemory = true) (console : Console) :
    read address console = .ok (console.peek address) console := by
  cases hr : Region.ofAddress address with
  | ram => exact read_of_ram hr console
  | saveRam => exact read_of_saveRam hr console
  | program => exact read_of_program hr console
  | ppu | io | expansion =>
    rw [hr] at h
    cases h

/-- Memory does not depend on the devices. -/
theorem peek_of_isMemory (h : (Region.ofAddress address).isMemory = true) (console : Console)
    (ppu : Ppu) (controllers : Controllers) :
    peek { console with ppu, controllers } address = console.peek address := by
  unfold peek
  cases hr : Region.ofAddress address with
  | ram | saveRam | program => rfl
  | ppu | io | expansion => cases hr ▸ h

/-! ## One round -/

theorem copyToOam_of_read (h : read address console = .ok value next) :
    copyToOam address console = .ok () (next.mapPpu (Ppu.writeOam value)) := by
  show EStateM.bind (read address) _ console = _
  rw [EStateM.bind, h]
  rfl

theorem copyToOam_of_refused (h : read address console = .error cause next) :
    copyToOam address console = .error cause next := by
  show EStateM.bind (read address) _ console = _
  rw [EStateM.bind, h]

/-- Storing a byte at the object address is writing it to the register for that. -/
theorem write_oamData (value : UInt8) (console : Console) :
    write 0x2004 value console = .ok () (console.mapPpu (Ppu.writeOam value)) := rfl

/-- A byte of the copy is read and written like any other. -/
theorem copyToOam_eq (address : UInt16) :
    copyToOam address = (do write 0x2004 (← read address)) := by
  funext console
  cases hr : read address console with
  | ok value next =>
    rw [copyToOam_of_read hr]
    show _ = EStateM.bind (read address) _ console
    rw [EStateM.bind, hr]
    exact (write_oamData value next).symm
  | error cause next =>
    rw [copyToOam_of_refused hr]
    show _ = EStateM.bind (read address) _ console
    rw [EStateM.bind, hr]

/-- A copy that began at `start` has stored the first `n` of some bytes. The pads are as `pads` has
them by then. Nothing else has changed. -/
structure Copied (bytes : UInt8 → UInt8) (pads : Nat → Controllers) (start : Console) (n : Nat)
    (next : Console) : Prop where
  console_eq : next = { start with ppu := next.ppu, controllers := pads n }
  stored : start.ppu.Stored bytes n next.ppu

variable {bytes : UInt8 → UInt8} {pads : Nat → Controllers} {start : Console} {n : Nat}

theorem Copied.zero (h : pads 0 = console.controllers) : Copied bytes pads console 0 console where
  console_eq := by rw [h]
  stored := .zero bytes console.ppu

/-- **One byte of the copy**, from a page whose bytes are known as far as they are read. -/
theorem Copied.step (h : Copied bytes pads start n next) (hn : n < 256)
    (hr : read (word (.ofNat n) page) next =
      .ok (bytes (.ofNat n)) { next with controllers := pads (n + 1) }) :
    ∃ last, copyToOam (word (.ofNat n) page) next = .ok () last ∧
      Copied bytes pads start (n + 1) last := by
  refine ⟨_, copyToOam_of_read hr, ?_, h.stored.write hn⟩
  rw [h.console_eq]
  rfl

/-! ## Whole pages -/

theorem copyPage_eq_range (page : UInt8) :
    copyPage page = (List.range 256).forM fun n => copyToOam (word (.ofNat n) page) := by
  exact forM_finRange 256 fun n => copyToOam (word (.ofNat n) page)

/-- A page whose first byte cannot be read is not copied. -/
theorem copyPage_of_refused (h : read (word 0 page) console = .error cause console) :
    copyPage page console = .error cause console := by
  have hrange : List.range 256 = 0 :: (List.range 255).map Nat.succ := List.range_succ_eq_map
  rw [copyPage_eq_range, hrange]
  exact forM_cons_of_error (copyToOam_of_refused h)

/-- A page of registers is refused at its first byte, which is the control register. -/
theorem copyPage_of_ppu {page : UInt8} (h₁ : 0x20 ≤ page) (h₂ : page < 0x40) (console : Console) :
    copyPage page console = .error (.writeOnlyRegister (word 0 page)) console := by
  have hr := (ofAddress_word_eq_ppu_iff 0 page).2 ⟨h₁, h₂⟩
  have hc : PpuRegister.ofAddress (word 0 page) = .control := by
    have hn : (word 0 page).toNat % 8 = 0 := by
      rw [word_toNat]
      show (0 + _) % 8 = 0
      omega
    simp only [PpuRegister.ofAddress, hn]
  exact copyPage_of_refused (by simp only [read, hr, onPpu, Ppu.readRegister, hc])

/-- A page of the expansion area is refused at its first byte. -/
theorem copyPage_of_expansion (h₁ : 0x41 ≤ page) (h₂ : page < 0x60) (console : Console) :
    copyPage page console = .error (.expansionAccess (word 0 page)) console :=
  copyPage_of_refused
    (read_of_expansion ((ofAddress_word_eq_expansion_iff 0 page).2 (.inr ⟨h₁, h₂⟩)) console)

/-- A page of memory is copied whole, from bytes that the copy does not change. -/
theorem copyPage_of_memory (h : page < 0x20 ∨ 0x60 ≤ page) (console : Console) :
    ∃ next, copyPage page console = .ok () next ∧
      Copied (fun i => console.peek (word i page)) (fun _ => console.controllers) console 256
        next := by
  rw [copyPage_eq_range]
  refine forM_range_of_invariant (fun n hn next hc => hc.step hn ?_) (.zero rfl)
  have hm := (Region.isMemory_ofAddress_word_iff (.ofNat n) page).2 h
  rw [read_of_isMemory hm, hc.console_eq, peek_of_isMemory hm]

/-! ## The page of the pads -/

/-- What the addresses from `$4000` on give: zeros, and a bit of each pad. -/
def padBytes (controllers : Controllers) (offset : UInt8) : UInt8 :=
  if offset = 0x16 then (controllers.read .one).1
  else if offset = 0x17 then (controllers.read .two).1
  else 0

/-- The pads after `n` addresses from `$4000` on have been read. -/
def padsAfter (controllers : Controllers) (n : Nat) : Controllers :=
  let first := if n ≤ 0x16 then controllers else (controllers.read .one).2
  if n ≤ 0x17 then first else (first.read .two).2

theorem padsAfter_succ (controllers : Controllers) {n : Nat} (h₁ : n ≠ 0x16) (h₂ : n ≠ 0x17) :
    padsAfter controllers (n + 1) = padsAfter controllers n := by
  have hone : n + 1 ≤ 0x16 ↔ n ≤ 0x16 := by omega
  have htwo : n + 1 ≤ 0x17 ↔ n ≤ 0x17 := by omega
  simp only [padsAfter, hone, htwo]

theorem read_of_io (h : Region.ofAddress address = .io) (console : Console) :
    read address console =
      .ok (console.readInput address).1 (console.readInput address).2 := by
  simp only [read, h]

/-- The bytes of page `$40` up to `$4020`: those of the pads, and zero. -/
theorem read_pads {n : Nat} (hn : n < 32) (h : next.controllers = padsAfter start.controllers n) :
    read (word (.ofNat n) 0x40) next =
      .ok (padBytes start.controllers (.ofNat n))
        { next with controllers := padsAfter start.controllers (n + 1) } := by
  have hword : (word (.ofNat n) 0x40).toNat = 0x4000 + n := by
    rw [word_toNat, UInt8.toNat_ofNat_of_lt' (by omega : n < 256), Nat.add_comm]
    rfl
  have hio : Region.ofAddress (word (.ofNat n) 0x40) = .io := by
    rw [Region.ofAddress_eq_iff, hword, Region.first, Region.stop]
    omega
  rw [read_of_io hio]
  by_cases h₁ : n = 0x16
  · subst h₁
    have hpad : next.readInput (word (.ofNat 0x16) 0x40) = next.readPad .one := rfl
    rw [hpad, readPad, h]
    rfl
  by_cases h₂ : n = 0x17
  · subst h₂
    have hpad : next.readInput (word (.ofNat 0x17) 0x40) = next.readPad .two := rfl
    rw [hpad, readPad, h]
    rfl
  · have hbyte (place : UInt8) (hp : n ≠ place.toNat) : UInt8.ofNat n ≠ place := by
      rintro rfl
      exact hp (UInt8.toNat_ofNat_of_lt' (by omega : n < 256)).symm
    have haddress (place : UInt16) (hp : 0x4000 + n ≠ place.toNat) :
        word (.ofNat n) 0x40 ≠ place := by
      rintro rfl
      exact hp hword.symm
    have hfirst := haddress firstPad fun hc => h₁ (Nat.add_left_cancel hc)
    have hsecond := haddress secondPad fun hc => h₂ (Nat.add_left_cancel hc)
    rw [readInput, if_neg hfirst, if_neg hsecond, padBytes, if_neg (hbyte 0x16 h₁),
      if_neg (hbyte 0x17 h₂), padsAfter_succ _ h₁ h₂, ← h]

/-- Page `$40` is copied up to `$4020`, where the expansion area begins. Each pad has been read
once. -/
theorem copyPage_of_pads (console : Console) :
    ∃ next, copyPage 0x40 console = .error (.expansionAccess 0x4020) next ∧
      Copied (padBytes console.controllers) (padsAfter console.controllers) console 32 next := by
  rw [copyPage_eq_range]
  refine forM_range_of_error (n := 32) (by decide) (fun n hn next hc => hc.step (by omega) ?_)
    (fun next _ => ?_) (.zero rfl)
  · exact read_pads hn (by rw [hc.console_eq])
  · exact copyToOam_of_refused (read_of_expansion (by decide) next)

/-! ## The register that starts a copy -/

/-- The four kinds of pages. -/
theorem page_cases (page : UInt8) : (page < 0x20 ∨ 0x60 ≤ page) ∨ (0x20 ≤ page ∧ page < 0x40) ∨
    page = 0x40 ∨ (0x41 ≤ page ∧ page < 0x60) := by
  rw [← UInt8.toNat_inj]
  simp only [UInt8.lt_iff_toNat_lt, UInt8.le_iff_toNat_le, UInt8.reduceToNat]
  omega

theorem write_oamDma_eq (page : UInt8) (console : Console) :
    write oamDma page console = copyPage page console := rfl

/-- **Main theorem.** Writing the number of a page to the copy register does what 256 reads do, each
followed by a write of the byte to the register for object memory. It succeeds if and only if the
page is memory; then object memory holds the page from the object address on, and nothing else has
changed. A page of registers or of the expansion area is refused at its first address and leaves no
trace. The page of the pads is refused at `$4020`, after 32 bytes, and both pads have gone on by one
read. -/
theorem write_oamDma (console : Console) (page : UInt8) :
    let start := console.ppu.latches.oamAddress
    write oamDma page console = ((List.finRange 256).forM fun i => do
        write 0x2004 (← read (word (.ofNat i) page))) console ∧
    ((∃ next, write oamDma page console = .ok () next) ↔ page < 0x20 ∨ 0x60 ≤ page) ∧
    (page < 0x20 ∨ 0x60 ≤ page → ∃ oam,
      write oamDma page console = .ok () { console with ppu := { console.ppu with oam } } ∧
      ∀ i : UInt8, oam[((start + i).toFin : Fin 256)] = console.peek (word i page)) ∧
    (0x20 ≤ page → page < 0x40 →
      write oamDma page console = .error (.writeOnlyRegister (word 0 page)) console) ∧
    (0x41 ≤ page → page < 0x60 →
      write oamDma page console = .error (.expansionAccess (word 0 page)) console) ∧
    (page = 0x40 → ∃ oam,
      write oamDma page console = .error (.expansionAccess 0x4020) { console with
        ppu := { console.ppu with
          oam, latches := { console.ppu.latches with oamAddress := start + 32 } }
        controllers := { console.controllers with
          one := { console.controllers.one with reads := console.controllers.one.reads + 1 }
          two := { console.controllers.two with reads := console.controllers.two.reads + 1 } } } ∧
      ∀ i : UInt8, oam[((start + i).toFin : Fin 256)] =
        if i < 0x20 then padBytes console.controllers i
        else console.ppu.oam[((start + i).toFin : Fin 256)]) := by
  intro start
  have hmemory (h : page < 0x20 ∨ 0x60 ≤ page) : ∃ oam,
      write oamDma page console = .ok () { console with ppu := { console.ppu with oam } } ∧
      ∀ i : UInt8, oam[((start + i).toFin : Fin 256)] = console.peek (word i page) := by
    obtain ⟨next, hn, hc⟩ := copyPage_of_memory h console
    refine ⟨next.ppu.oam, ?_, fun i => (hc.stored.objectByte_eq i).trans (if_pos i.toNat_lt)⟩
    have hstart : start + UInt8.ofNat 256 = start := UInt8.add_zero start
    rw [write_oamDma_eq, hn, hc.console_eq, hc.stored.eq]
    show EStateM.Result.ok () { console with ppu := { console.ppu with
      oam := next.ppu.oam
      latches := { console.ppu.latches with oamAddress := start + UInt8.ofNat 256 } } } = _
    rw [hstart]
  have hppu (h₁ : 0x20 ≤ page) (h₂ : page < 0x40) := copyPage_of_ppu h₁ h₂ console
  have hexpansion (h₁ : 0x41 ≤ page) (h₂ : page < 0x60) := copyPage_of_expansion h₁ h₂ console
  have hpads (h : page = 0x40) := h ▸ copyPage_of_pads console
  refine ⟨?_, ⟨?_, ?_⟩, hmemory, hppu, hexpansion, ?_⟩
  · simp only [← copyToOam_eq]
    rfl
  · rintro ⟨next, hn⟩
    rw [write_oamDma_eq] at hn
    obtain h | ⟨h₁, h₂⟩ | h | ⟨h₁, h₂⟩ := page_cases page
    · exact h
    · cases (hppu h₁ h₂).symm.trans hn
    · obtain ⟨last, hl, -⟩ := hpads h
      cases hl.symm.trans hn
    · cases (hexpansion h₁ h₂).symm.trans hn
  · intro h
    obtain ⟨oam, ho, -⟩ := hmemory h
    exact ⟨_, ho⟩
  · intro h
    obtain ⟨next, hn, hc⟩ := hpads h
    refine ⟨next.ppu.oam, ?_, fun i => ?_⟩
    · rw [write_oamDma_eq, hn, hc.console_eq, hc.stored.eq]
      rfl
    · refine (hc.stored.objectByte_eq i).trans (if_congr ?_ rfl rfl)
      show i.toNat < (0x20 : UInt8).toNat ↔ i < 0x20
      exact UInt8.lt_iff_toNat_lt.symm

/-- Copies that start eight bytes before the end of object memory. -/
theorem write_oamDma_from_end :
    let console : Console :=
      { ofCartridge (.filled 0x48) with
        ppu := { Ppu.ofPattern #[] .horizontal with latches := { oamAddress := 0xF8 } } }
    ((0xFF : UInt8) < 0x20 ∨ (0x60 : UInt8) ≤ 0xFF) ∧
    (∃ oam, write oamDma 0xFF console =
        .ok () { console with ppu := { console.ppu with oam } } ∧
      ∀ i : UInt8, oam[((0xF8 + i).toFin : Fin 256)] = console.peek (word i 0xFF)) ∧
    write oamDma 0x20 console = .error (.writeOnlyRegister 0x2000) console ∧
    write oamDma 0x41 console = .error (.expansionAccess 0x4100) console ∧
    ∃ oam, write oamDma 0x40 console = .error (.expansionAccess 0x4020) { console with
        ppu := { console.ppu with oam, latches := { oamAddress := 0xF8 + 32 } }
        controllers := { one := { reads := 0 + 1 }, two := { reads := 0 + 1 } } } ∧
      ∀ i : UInt8, oam[((0xF8 + i).toFin : Fin 256)] =
        if i < 0x20 then padBytes {} i else console.ppu.oam[((0xF8 + i).toFin : Fin 256)] := by
  intro console
  have hmemory : (0xFF : UInt8) < 0x20 ∨ (0x60 : UInt8) ≤ 0xFF := by decide
  refine ⟨hmemory, (write_oamDma console 0xFF).2.2.1 hmemory, ?_, ?_, ?_⟩
  · exact (write_oamDma console 0x20).2.2.2.1 (by decide) (by decide)
  · exact (write_oamDma console 0x41).2.2.2.2.1 (by decide) (by decide)
  · exact (write_oamDma console 0x40).2.2.2.2.2 rfl

end Console

end Nes
