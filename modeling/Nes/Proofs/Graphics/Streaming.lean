import Nes.Proofs.Graphics.Memory

/-!
# Streams through the data register

The data register is made for streams: every access moves its address on, by one or by a row. Reads
come one late, because a read gives what the read before it has fetched; only the palette is given
at once, and a read of it fetches all the same. The address counts 16 bits, of which 14 name a byte,
so a stream goes round from the palette to the pattern tables.

A list that was written and is read again comes back behind one stale byte. There is one exception:
the read that should give the last byte has an address of its own, the one after the list, and if
that is in the palette the palette is what it gives.

Results:

* `readAll_eq`: any number of reads in a row.
* `latches_of_writeAll`, `byteAt_of_writeAll`: any number of writes in a row, and what they leave in
  graphics memory.
* `streams_through_data`: **reads, writes, and a list that is written and read again.**
-/

namespace Nes

theorem graphicsAddress_ofNat {a : Nat} (h : a < 0x4000) : graphicsAddress (.ofNat a) = a := by
  rw [graphicsAddress, UInt16.toNat_ofNat']
  omega

theorem Mirroring.aliases_self (mirroring : Mirroring) (a : Nat) :
    mirroring.aliases a a = true := by
  unfold aliases
  split
  · exact beq_self_eq_true a
  · split
    · simp only [Bool.and_eq_true, decide_eq_true_eq, beq_self_eq_true, and_true]
      omega
    · simp only [Bool.and_eq_true, decide_eq_true_eq, beq_self_eq_true, and_true]
      omega

namespace Ppu

/-! ## Addresses of a stream -/

/-- The byte of graphics memory or of the palette at an address. -/
def byteAt (ppu : Ppu) (a : Nat) : UInt8 := ppu.memory.read (.ofNat a)

/-- The address of access `i` of a stream that starts now. -/
def streamAddress (ppu : Ppu) (i : Nat) : Nat :=
  (ppu.latches.vramAddress.toNat + i * ppu.addressStep.toNat) % 0x4000

/-- Where the address register is after `n` accesses. -/
def advanced (ppu : Ppu) (n : Nat) : UInt16 :=
  ppu.latches.vramAddress + .ofNat n * ppu.addressStep

variable {ppu next : Ppu} {n : Nat}

theorem streamAddress_lt (ppu : Ppu) (i : Nat) : ppu.streamAddress i < 0x4000 :=
  Nat.mod_lt _ (by decide)

theorem streamAddress_zero (ppu : Ppu) :
    ppu.streamAddress 0 = graphicsAddress ppu.latches.vramAddress := by
  rw [streamAddress, Nat.zero_mul, Nat.add_zero, graphicsAddress]

/-- The byte that an access would reach now. -/
theorem byteAt_streamAddress_zero (ppu : Ppu) :
    ppu.byteAt (ppu.streamAddress 0) = ppu.memory.read ppu.latches.vramAddress := by
  have h : graphicsAddress (.ofNat (ppu.streamAddress 0)) =
      graphicsAddress ppu.latches.vramAddress := by
    rw [graphicsAddress_ofNat (ppu.streamAddress_lt 0), streamAddress_zero]
  have hc : ppu.memory.mirroring.cell (.ofNat (ppu.streamAddress 0)) =
      ppu.memory.mirroring.cell ppu.latches.vramAddress := by
    simp only [graphicsAddress] at h
    simp only [Mirroring.cell, h]
  simp only [byteAt, GraphicsMemory.read, hc]

/-- One access of a stream has been made. -/
structure Moved (ppu next : Ppu) : Prop where
  control_eq : next.latches.control = ppu.latches.control
  vramAddress_eq : next.latches.vramAddress = ppu.latches.vramAddress + ppu.addressStep

theorem Moved.addressStep_eq (h : Moved ppu next) : next.addressStep = ppu.addressStep := by
  rw [addressStep, addressStep, h.control_eq]

/-- One access later, the stream is the same stream without its first address. -/
theorem Moved.streamAddress_eq (h : Moved ppu next) (i : Nat) :
    next.streamAddress i = ppu.streamAddress (i + 1) := by
  rw [streamAddress, streamAddress, h.addressStep_eq, h.vramAddress_eq, UInt16.toNat_add,
    Nat.succ_mul]
  omega

theorem advanced_zero (ppu : Ppu) : ppu.advanced 0 = ppu.latches.vramAddress := by
  show _ + 0 * _ = _
  rw [UInt16.zero_mul, UInt16.add_zero]

theorem advanced_one (ppu : Ppu) :
    ppu.advanced 1 = ppu.latches.vramAddress + ppu.addressStep := by
  show _ + 1 * _ = _
  rw [UInt16.one_mul]

theorem Moved.advanced_eq (h : Moved ppu next) (n : Nat) :
    next.advanced n = ppu.advanced (n + 1) := by
  rw [advanced, advanced, h.addressStep_eq, h.vramAddress_eq, Nat.add_comm, UInt16.ofNat_add,
    UInt16.add_mul, UInt16.add_assoc]
  show _ = _ + (1 * _ + _)
  rw [UInt16.one_mul]

/-! ## Reads -/

/-- Read the data register `n` times. -/
def readAll : Nat → EStateM BusError Ppu (List UInt8)
  | 0 => return []
  | n + 1 => do
    let value ← readRegister 0x2007
    let rest ← readAll n
    return value :: rest

/-- What the read buffer holds after `i` reads: what it held before, and then the byte at the
address of the last read. -/
def fetched (ppu : Ppu) : Nat → UInt8
  | 0 => ppu.latches.readBuffer
  | i + 1 => ppu.byteAt (ppu.streamAddress i)

/-- What read `i` gives: the palette at once, and everything else one read late. -/
def streamByte (ppu : Ppu) (i : Nat) : UInt8 :=
  if ppu.streamAddress i < paletteStart then ppu.fetched i else ppu.byteAt (ppu.streamAddress i)

/-- The unit after `n` reads. -/
def streamed (ppu : Ppu) (n : Nat) : Ppu :=
  { ppu with latches := { ppu.latches with
    vramAddress := ppu.advanced n, readBuffer := ppu.fetched n } }

/-- A read of the data register gives the first byte of the stream, and leaves the rest of it. -/
theorem readRegister_data (ppu : Ppu) :
    readRegister 0x2007 ppu = .ok (ppu.streamByte 0) (ppu.streamed 1) := by
  have hread : readRegister 0x2007 ppu = .ok ppu.readData.1 ppu.readData.2 := rfl
  have hvalue : ppu.dataValue = ppu.streamByte 0 := by
    rw [dataValue, streamByte, byteAt_streamAddress_zero, streamAddress_zero]
    rfl
  rw [hread, readData, hvalue, streamed, advanced_one, fetched, byteAt_streamAddress_zero]

theorem moved_streamed (ppu : Ppu) : Moved ppu (ppu.streamed 1) := ⟨rfl, ppu.advanced_one⟩

/-- The buffer is behind the stream by one access, before and after a read. -/
theorem fetched_streamed (ppu : Ppu) (i : Nat) :
    (ppu.streamed 1).fetched i = ppu.fetched (i + 1) := by
  cases i with
  | zero => rfl
  | succ i =>
    rw [fetched, fetched, ppu.moved_streamed.streamAddress_eq]
    rfl

theorem streamByte_streamed (ppu : Ppu) (i : Nat) :
    (ppu.streamed 1).streamByte i = ppu.streamByte (i + 1) := by
  rw [streamByte, streamByte, ppu.moved_streamed.streamAddress_eq, fetched_streamed]
  rfl

theorem streamed_streamed (ppu : Ppu) (n : Nat) :
    (ppu.streamed 1).streamed n = ppu.streamed (n + 1) := by
  rw [streamed, ppu.moved_streamed.advanced_eq, fetched_streamed]
  rfl

/-- The reads give the bytes of the stream, and nothing but the address and the buffer changes. -/
theorem readAll_eq (n : Nat) (ppu : Ppu) :
    readAll n ppu = .ok ((List.range n).map ppu.streamByte) (ppu.streamed n) := by
  induction n generalizing ppu with
  | zero =>
    show EStateM.Result.ok [] ppu = .ok [] (ppu.streamed 0)
    rw [streamed, advanced_zero]
    rfl
  | succ n ih =>
    simp only [readAll, bind, EStateM.bind, readRegister_data, ih, streamed_streamed]
    rw [List.range_succ_eq_map, List.map_cons, List.map_map]
    have htail : (ppu.streamed 1).streamByte = ppu.streamByte ∘ Nat.succ :=
      funext ppu.streamByte_streamed
    rw [htail]
    rfl

/-! ## Writes -/

/-- Write some bytes to the data register, up to the first that is refused. -/
def writeAll : List UInt8 → EStateM BusError Ppu Unit
  | [] => return
  | value :: rest => do
    writeRegister 0x2007 value
    writeAll rest

/-- A stream is accepted if its first byte is, and what remains is accepted after that. -/
theorem writeAll_cons_eq_ok_iff {value : UInt8} {rest : List UInt8} :
    writeAll (value :: rest) ppu = .ok () next ↔
      ppu.memory.accepts ppu.latches.vramAddress = true ∧
        writeAll rest (ppu.storeData value) = .ok () next := by
  have hwrite : writeAll (value :: rest) ppu =
      EStateM.bind (writeData value) (fun _ => writeAll rest) ppu := rfl
  rw [hwrite, EStateM.bind, writeData]
  by_cases ha : ppu.memory.accepts ppu.latches.vramAddress = true
  · rw [if_pos ha]
    exact (and_iff_right ha).symm
  · rw [if_neg ha]
    refine iff_of_false (fun h => ?_) fun h => ha h.1
    cases h

/-- A write moves the stream as a read does. -/
theorem moved_storeData (ppu : Ppu) (value : UInt8) : Moved ppu (ppu.storeData value) := ⟨rfl, rfl⟩

/-- What writes in a row leave alone: everything but the address and graphics memory. -/
theorem latches_of_writeAll {values : List UInt8} (h : writeAll values ppu = .ok () next) :
    next.latches = { ppu.latches with vramAddress := ppu.advanced values.length } ∧
      next.oam = ppu.oam ∧ next.memory.mirroring = ppu.memory.mirroring := by
  induction values generalizing ppu with
  | nil =>
    obtain rfl : ppu = next := by injection h
    rw [List.length_nil, advanced_zero]
    exact ⟨rfl, rfl, rfl⟩
  | cons value rest ih =>
    obtain ⟨-, h⟩ := writeAll_cons_eq_ok_iff.1 h
    obtain ⟨hl, ho, hm⟩ := ih h
    refine ⟨?_, ho, hm.trans (GraphicsMemory.write_mirroring ..)⟩
    rw [hl, (ppu.moved_storeData value).advanced_eq]
    rfl

/-- The first `n` addresses of a stream are below the palette and reach different bytes. -/
structure Apart (ppu : Ppu) (n : Nat) : Prop where
  below {i : Nat} (h : i < n) : ppu.streamAddress i < paletteStart
  distinct {i j : Nat} (h : i < j) (hj : j < n) :
    ppu.memory.mirroring.aliases (ppu.streamAddress i) (ppu.streamAddress j) = false

/-- The addresses that remain are apart. -/
theorem Apart.tail (h : Apart ppu (n + 1)) (value : UInt8) : Apart (ppu.storeData value) n := by
  have hs := (ppu.moved_storeData value).streamAddress_eq
  have hm : (ppu.storeData value).memory.mirroring = ppu.memory.mirroring :=
    GraphicsMemory.write_mirroring ..
  refine ⟨fun hi => ?_, fun hij hj => ?_⟩
  · rw [hs]
    exact h.below (Nat.succ_lt_succ hi)
  · rw [hs, hs, hm]
    exact h.distinct (Nat.succ_lt_succ hij) (Nat.succ_lt_succ hj)

/-- A byte that is accepted is at every alias of its address, and no other byte changes. -/
theorem byteAt_storeData (ha : ppu.memory.accepts ppu.latches.vramAddress = true) (value : UInt8)
    {a : Nat} (h : a < 0x4000) : (ppu.storeData value).byteAt a =
      if ppu.memory.mirroring.aliases a (ppu.streamAddress 0) then GraphicsMemory.stored a value
      else ppu.byteAt a := by
  have hw := ppu.memory.read_write ha value (.ofNat a)
  rwa [graphicsAddress_ofNat h, ← streamAddress_zero] at hw

/-- Writes in a row leave a byte alone that none of their addresses reaches. -/
theorem byteAt_of_writeAll_of_apart {values : List UInt8} (h : writeAll values ppu = .ok () next)
    {a : Nat} (ha : a < 0x4000)
    (hd : ∀ i < values.length, ppu.memory.mirroring.aliases a (ppu.streamAddress i) = false) :
    next.byteAt a = ppu.byteAt a := by
  induction values generalizing ppu with
  | nil =>
    obtain rfl : ppu = next := by injection h
    rfl
  | cons value rest ih =>
    obtain ⟨haccepts, h⟩ := writeAll_cons_eq_ok_iff.1 h
    have hm : (ppu.storeData value).memory.mirroring = ppu.memory.mirroring :=
      GraphicsMemory.write_mirroring ..
    rw [ih h, byteAt_storeData haccepts value ha, hd 0 (Nat.succ_pos _)]
    · rfl
    · intro i hi
      rw [hm, (ppu.moved_storeData value).streamAddress_eq]
      exact hd (i + 1) (Nat.succ_lt_succ hi)

/-- Writes in a row to different bytes leave the list in graphics memory. -/
theorem byteAt_of_writeAll {values : List UInt8} (h : writeAll values ppu = .ok () next)
    (hapart : Apart ppu values.length) {i : Nat} (hi : i < values.length) :
    next.byteAt (ppu.streamAddress i) = values[i] := by
  induction values generalizing ppu i with
  | nil => cases hi
  | cons value rest ih =>
    obtain ⟨haccepts, hrest⟩ := writeAll_cons_eq_ok_iff.1 h
    have hs := (ppu.moved_storeData value).streamAddress_eq
    have hm : (ppu.storeData value).memory.mirroring = ppu.memory.mirroring :=
      GraphicsMemory.write_mirroring ..
    cases i with
    | zero =>
      have hlt := ppu.streamAddress_lt 0
      have hstored : GraphicsMemory.stored (ppu.streamAddress 0) value = value :=
        if_pos (hapart.below hi)
      rw [byteAt_of_writeAll_of_apart hrest hlt, byteAt_storeData haccepts value hlt,
        Mirroring.aliases_self, if_pos rfl, hstored]
      · rfl
      · intro j hj
        rw [hs, hm]
        exact hapart.distinct (Nat.succ_pos j) (Nat.succ_lt_succ hj)
    | succ i =>
      rw [← hs]
      exact ih hrest (hapart.tail value) (Nat.lt_of_succ_lt_succ hi)

/-! ## Reading back -/

/-- Point the data register at an address: read the status, so that a pair of bytes begins, and
write the pair. -/
def pointTo (address : UInt16) : EStateM BusError Ppu Unit := do
  let _ ← readRegister 0x2002
  writeRegister 0x2006 (highByte address)
  writeRegister 0x2006 (lowByte address)

/-- The unit with its data register pointed at an address. -/
def pointed (address : UInt16) (ppu : Ppu) : Ppu :=
  { ppu with latches := { ppu.latches with
    vblank := false, second := false, vramAddress := address } }

/-- Two writes to the address register point it anywhere, and are never refused. -/
theorem pointTo_eq (address : UInt16) (ppu : Ppu) :
    pointTo address ppu = .ok () (ppu.pointed address) := by
  have hword : word (lowByte address)
      (highByte (word (lowByte ppu.latches.vramAddress) (highByte address))) = address := by
    rw [highByte_word, word_lowByte_highByte]
  have h : pointTo address ppu = .ok () (ppu.pointed (word (lowByte address)
      (highByte (word (lowByte ppu.latches.vramAddress) (highByte address))))) := rfl
  rw [h, hword]

/-- Read `n` bytes from an address on. One read more fetches the first of them. -/
def readBack (address : UInt16) (n : Nat) : EStateM BusError Ppu (List UInt8) := do
  pointTo address
  readAll (n + 1)

/-- What is read back: a byte from the buffer, and then the stream. -/
theorem readBack_eq (address : UInt16) (n : Nat) (ppu : Ppu) :
    readBack address n ppu =
      .ok ((ppu.pointed address).streamByte 0 ::
          (List.range n).map fun i => (ppu.pointed address).streamByte (i + 1))
        ((ppu.pointed address).streamed (n + 1)) := by
  have h : readBack address n ppu =
      EStateM.bind (pointTo address) (fun _ => readAll (n + 1)) ppu := rfl
  rw [h, EStateM.bind, pointTo_eq]
  show readAll (n + 1) _ = _
  rw [readAll_eq, List.range_succ_eq_map, List.map_cons, List.map_map]
  rfl

section

variable {values : List UInt8}

/-- The reads that read a list back have the addresses at which it was written. -/
theorem streamAddress_pointed (h : writeAll values ppu = .ok () next) (i : Nat) :
    (next.pointed ppu.latches.vramAddress).streamAddress i = ppu.streamAddress i := by
  have hc : next.latches.control = ppu.latches.control := by
    rw [(latches_of_writeAll h).1]
  have hs : (next.pointed ppu.latches.vramAddress).addressStep = ppu.addressStep := by
    rw [addressStep, addressStep]
    show (if next.latches.control &&& 0x04 != 0 then _ else _) = _
    rw [hc]
  rw [streamAddress, streamAddress, hs]
  rfl

/-- The first read gives what the buffer held before anything was written. -/
theorem fetched_pointed_zero (h : writeAll values ppu = .ok () next) :
    (next.pointed ppu.latches.vramAddress).fetched 0 = ppu.latches.readBuffer := by
  show next.latches.readBuffer = _
  rw [(latches_of_writeAll h).1]

/-- Every later one gives the byte that was written one place before. -/
theorem fetched_pointed_succ (h : writeAll values ppu = .ok () next)
    (hapart : Apart ppu values.length) {i : Nat} (hi : i < values.length) :
    (next.pointed ppu.latches.vramAddress).fetched (i + 1) = values[i] := by
  rw [fetched, streamAddress_pointed h]
  exact byteAt_of_writeAll h hapart hi

/-- Every read that is not of the palette gives a byte of the list. -/
theorem streamByte_pointed_succ (h : writeAll values ppu = .ok () next)
    (hapart : Apart ppu values.length) {i : Nat} (hi : i < values.length) :
    (next.pointed ppu.latches.vramAddress).streamByte (i + 1) =
      if ppu.streamAddress (i + 1) < paletteStart then values[i]
      else next.byteAt (ppu.streamAddress (i + 1)) := by
  rw [streamByte, fetched_pointed_succ h hapart hi, streamAddress_pointed h]
  rfl

theorem streamByte_pointed_zero (h : writeAll values ppu = .ok () next) :
    (next.pointed ppu.latches.vramAddress).streamByte 0 =
      if ppu.streamAddress 0 < paletteStart then ppu.latches.readBuffer
      else next.byteAt (ppu.streamAddress 0) := by
  rw [streamByte, fetched_pointed_zero h, streamAddress_pointed h]
  rfl

/-- What comes back of a list behind the first byte: the list, but for its last byte if the address
after the list is in the palette. -/
def returned (ppu next : Ppu) (values : List UInt8) : List UInt8 :=
  values.mapIdx fun i value =>
    if i + 1 = values.length ∧ paletteStart ≤ ppu.streamAddress values.length then
      next.byteAt (ppu.streamAddress values.length)
    else value

/-- Below the palette, what was written comes back. -/
theorem returned_of_lt (h : ppu.streamAddress values.length < paletteStart) :
    returned ppu next values = values := by
  refine List.ext_getElem List.length_mapIdx fun i _ _ => ?_
  simp only [returned, List.getElem_mapIdx]
  exact if_neg fun hc => Nat.not_le.2 h hc.2

theorem map_streamByte_pointed (h : writeAll values ppu = .ok () next)
    (hapart : Apart ppu values.length) :
    ((List.range values.length).map fun i =>
      (next.pointed ppu.latches.vramAddress).streamByte (i + 1)) = returned ppu next values := by
  refine List.ext_getElem (by simp [returned]) fun i hi _ => ?_
  rw [List.length_map, List.length_range] at hi
  simp only [returned, List.getElem_map, List.getElem_range, List.getElem_mapIdx]
  rw [streamByte_pointed_succ h hapart hi]
  by_cases hlast : i + 1 = values.length
  · rw [hlast]
    simp only [true_and, ← Nat.not_lt, ite_not]
  · have hlt := hapart.below (Nat.lt_of_le_of_ne hi hlast)
    rw [if_pos hlt, if_neg fun hc => hlast hc.1]

end

/-- **Main theorem.** Reads in a row of the data register give the bytes of the palette at once and
all others one read late; they leave the last byte fetched in the buffer, move the address on by the
step for each, and change nothing else. Writes in a row move it on alike and leave the buffer alone.
A list that was written to different bytes below the palette comes back, behind the first byte read,
when the address is set to where it was and read once more than the list is long; only the last byte
of it is another if the address after the list is in the palette. -/
theorem streams_through_data (ppu : Ppu) :
    (∀ n, readAll n ppu = .ok
      ((List.range n).map fun i =>
        if paletteStart ≤ ppu.streamAddress i then ppu.byteAt (ppu.streamAddress i)
        else if i = 0 then ppu.latches.readBuffer
        else ppu.byteAt (ppu.streamAddress (i - 1)))
      { ppu with latches := { ppu.latches with
        vramAddress := ppu.latches.vramAddress + .ofNat n * ppu.addressStep
        readBuffer := if n = 0 then ppu.latches.readBuffer
          else ppu.byteAt (ppu.streamAddress (n - 1)) } }) ∧
    ∀ values next, writeAll values ppu = .ok () next →
      next.latches = { ppu.latches with
        vramAddress := ppu.latches.vramAddress + .ofNat values.length * ppu.addressStep } ∧
      (Apart ppu values.length → ∃ last,
        readBack ppu.latches.vramAddress values.length next = .ok
          ((if ppu.streamAddress 0 < paletteStart then ppu.latches.readBuffer
            else next.byteAt (ppu.streamAddress 0)) :: returned ppu next values) last ∧
        (ppu.streamAddress values.length < paletteStart → returned ppu next values = values)) := by
  have hfetched (i : Nat) : (if i = 0 then ppu.latches.readBuffer
      else ppu.byteAt (ppu.streamAddress (i - 1))) = ppu.fetched i := by
    cases i <;> rfl
  refine ⟨fun n => ?_, fun values next h => ⟨(latches_of_writeAll h).1, fun hapart => ?_⟩⟩
  · simp only [hfetched, ← Nat.not_lt, ite_not]
    exact readAll_eq n ppu
  · rw [readBack_eq, map_streamByte_pointed h hapart, streamByte_pointed_zero h]
    exact ⟨_, rfl, returned_of_lt⟩

theorem streams_through_data_nametable :
    let ppu : Ppu := { ofPattern #[] .horizontal with latches := { vramAddress := 0x2000 } }
    let next := (ppu.storeData 0x11).storeData 0x22
    writeAll [0x11, 0x22] ppu = .ok () next ∧ Apart ppu 2 ∧
      ∃ last, readBack 0x2000 2 next = .ok [0, 0x11, 0x22] last := by
  intro ppu next
  have hwrite : writeAll [0x11, 0x22] ppu = .ok () next := by
    rw [writeAll_cons_eq_ok_iff, writeAll_cons_eq_ok_iff]
    exact ⟨by decide, by decide, rfl⟩
  have hapart : Apart ppu 2 := by
    refine ⟨fun {i} hi => ?_, fun {i j} hij hj => ?_⟩
    · obtain rfl | rfl : i = 0 ∨ i = 1 := by omega
      · decide
      · decide
    · obtain ⟨rfl, rfl⟩ : i = 0 ∧ j = 1 := by omega
      decide
  obtain ⟨last, hlast, hreturned⟩ := ((streams_through_data ppu).2 _ _ hwrite).2 hapart
  rw [hreturned (by decide), if_pos (by decide)] at hlast
  exact ⟨hwrite, hapart, last, hlast⟩

/-- A byte at the last address before the palette does not come back: the read that should give it
gives the first entry of the palette. -/
theorem readBack_before_palette :
    let ppu : Ppu := { ofPattern #[] .horizontal with latches := { vramAddress := 0x3EFF } }
    ∃ next, writeAll [0x42] ppu = .ok () next ∧ Apart ppu 1 ∧
      ¬∃ stale last, readBack 0x3EFF 1 next = .ok [stale, 0x42] last := by
  intro ppu
  have hwrite : writeAll [0x42] ppu = .ok () (ppu.storeData 0x42) := by
    rw [writeAll_cons_eq_ok_iff]
    exact ⟨by decide, rfl⟩
  have hapart : Apart ppu 1 := by
    refine ⟨fun {i} hi => ?_, fun {i j} hij hj => by omega⟩
    obtain rfl : i = 0 := by omega
    decide
  have hpalette : (ppu.storeData 0x42).byteAt 0x3F00 = 0 := by
    rw [byteAt_of_writeAll_of_apart hwrite (by decide)]
    · exact GraphicsMemory.read_ofPattern #[] .horizontal 0x3F00
    · intro i hi
      obtain rfl : i = 0 := by simpa using hi
      decide
  refine ⟨_, hwrite, hapart, ?_⟩
  rintro ⟨stale, last, h⟩
  have hread := readBack_eq 0x3EFF 1 (ppu.storeData 0x42)
  rw [h] at hread
  have hvalue : (0x42 : UInt8) = ((ppu.storeData 0x42).pointed 0x3EFF).streamByte 1 := by
    injection hread with hlist
    injection hlist with _ htail
    injection htail
  have hbyte := streamByte_pointed_succ hwrite hapart (Nat.zero_lt_one)
  have haddress : ppu.streamAddress (0 + 1) = 0x3F00 := by decide
  rw [haddress, if_neg (by decide), hpalette] at hbyte
  cases hvalue.trans hbyte

end Ppu

end Nes
