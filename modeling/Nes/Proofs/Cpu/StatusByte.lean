import Nes.Cpu.Instruction

/-!
# The status as a byte

The processor keeps its flags apart, but outside it is a byte that is spoken of, with a bit that
stands for no flag. A byte is written in three ways: it is replaced, bits of it are set or cleared
under a mask, or zero and negative are made those of a result. The third does not look after bit 5.
Each way is the same on the flags and on the byte, and every instruction makes of the byte what some
of these writes make of it, those that its mnemonic allows.

Results:

* `Status.bits_apply`: a write of the flags is the write of the byte.
* `Status.Write.reserved_onByte`: no write clears bit 5.
* `Status.Write.onByte_and`: a write leaves the bits alone that it does not reach.
* `ReadOp.written_apply`, `ModifyOp.written_apply`, `RegisterOp.written_apply`: what operations make
  of the byte.
-/

namespace Nes

/-! ## Parts of the registers -/

/-- The registers and flags that only some instructions change. -/
inductive Part where
  | a | x | y | sp
  | carry | zero | interrupt | decimal | brk | overflow | negative
deriving DecidableEq

namespace Part

/-- What the part holds, as a number. -/
def value : Part → Registers → Nat
  | a, r => r.a.toNat
  | x, r => r.x.toNat
  | y, r => r.y.toNat
  | sp, r => r.sp.toNat
  | carry, r => r.p.carry.toNat
  | zero, r => r.p.zero.toNat
  | interrupt, r => r.p.interrupt.toNat
  | decimal, r => r.p.decimal.toNat
  | brk, r => r.p.brk.toNat
  | overflow, r => r.p.overflow.toNat
  | negative, r => r.p.negative.toNat

/-- The bit of the status byte that the part is, if it is a flag. -/
def mask : Part → UInt8
  | a | x | y | sp => 0
  | carry => 0x01
  | zero => 0x02
  | interrupt => 0x04
  | decimal => 0x08
  | brk => 0x10
  | overflow => 0x40
  | negative => 0x80

/-- Give the part another value, if it is a flag. -/
def put (value : Bool) (p : Status) : Part → Status
  | a | x | y | sp => p
  | carry => { p with carry := value }
  | zero => { p with zero := value }
  | interrupt => { p with interrupt := value }
  | decimal => { p with decimal := value }
  | brk => { p with brk := value }
  | overflow => { p with overflow := value }
  | negative => { p with negative := value }

/-- The instructions that give zero and negative a new value. -/
def judges : List String :=
  ["LDA", "LDX", "LDY", "TAX", "TXA", "TAY", "TYA", "TSX", "PLA", "AND", "ORA", "EOR", "ADC",
    "SBC", "CMP", "CPX", "CPY", "BIT", "INC", "DEC", "INX", "DEX", "INY", "DEY", "ASL", "LSR",
    "ROL", "ROR", "PLP", "RTI", "LAX", "DCP", "ISB", "SLO", "RLA", "SRE", "RRA", "ANC", "ALR",
    "ARR", "AXS"]

/-- The instructions that may change the part, wherever their operand is. -/
def changers : Part → List String
  | a => ["LDA", "TXA", "TYA", "PLA", "AND", "ORA", "EOR", "ADC", "SBC", "LAX", "SLO", "RLA",
      "SRE", "RRA", "ISB", "ANC", "ALR", "ARR"]
  | x => ["LDX", "TAX", "TSX", "INX", "DEX", "LAX", "AXS"]
  | y => ["LDY", "TAY", "INY", "DEY"]
  | sp => ["TXS", "PHA", "PHP", "PLA", "PLP", "JSR", "RTS", "RTI", "BRK"]
  | carry => ["ADC", "SBC", "CMP", "CPX", "CPY", "ASL", "LSR", "ROL", "ROR", "CLC", "SEC", "PLP",
      "RTI", "DCP", "ISB", "SLO", "RLA", "SRE", "RRA", "ANC", "ALR", "ARR", "AXS"]
  | zero | negative => judges
  | interrupt => ["CLI", "SEI", "PLP", "RTI", "BRK"]
  | decimal => ["CLD", "SED", "PLP", "RTI"]
  | brk => ["PLP", "RTI"]
  | overflow => ["ADC", "SBC", "BIT", "CLV", "PLP", "RTI", "ISB", "RRA", "ARR"]

theorem mask_and_reserved (part : Part) : part.mask &&& 0x20 = 0 := by
  cases part <;> decide

/-- A flag is its bit of the status byte. -/
theorem value_eq_of_mask {part : Part} (h : part.mask ≠ 0) (r : Registers) :
    part.value r = (r.p.bits &&& part.mask != 0).toNat := by
  have hb := Status.ofBits_bits r.p
  cases part with
  | a | x | y | sp => exact absurd rfl h
  | carry => exact congrArg (fun p => p.carry.toNat) hb.symm
  | zero => exact congrArg (fun p => p.zero.toNat) hb.symm
  | interrupt => exact congrArg (fun p => p.interrupt.toNat) hb.symm
  | decimal => exact congrArg (fun p => p.decimal.toNat) hb.symm
  | brk => exact congrArg (fun p => p.brk.toNat) hb.symm
  | overflow => exact congrArg (fun p => p.overflow.toNat) hb.symm
  | negative => exact congrArg (fun p => p.negative.toNat) hb.symm

/-- A register has no part in the status. -/
theorem value_of_mask_eq {part : Part} (h : part.mask = 0) (r : Registers) (p : Status) :
    part.value { r with p := p } = part.value r := by
  cases part with
  | a | x | y | sp => rfl
  | _ => exact absurd h (by decide)

theorem value_brk_eq_zero_iff (r : Registers) :
    Part.brk.value r = 0 ↔ r.p.bits &&& 0x10 = 0 := by
  rw [value_eq_of_mask (by decide), Bool.toNat_eq_zero, bne_eq_false_iff_eq]
  rfl

end Part

/-! ## Writes -/

namespace Status

/-- A way to write the status byte. -/
inductive Write where
  /-- The byte is replaced. -/
  | byte (v : UInt8)
  /-- All bits of a mask are set or cleared. -/
  | flags (mask : UInt8) (value : Bool)
  /-- Zero and negative become what they are of a result. -/
  | result (v : UInt8)
deriving DecidableEq

/-- Set or clear all bits of a mask. -/
def setBits (mask : UInt8) (value : Bool) (bits : UInt8) : UInt8 :=
  if value then bits ||| mask else bits &&& ~~~mask

namespace Write

/-- What the write makes of the flags. -/
def apply (p : Status) : Write → Status
  | byte v => .ofBits v
  | flags mask value => p.assign mask value
  | result v => p.setResult v

/-- What the write makes of the byte, whatever that is. The first two see to bit 5. -/
def onByte (old : UInt8) : Write → UInt8
  | byte v => v ||| 0x20
  | flags mask value => setBits mask value old ||| 0x20
  | result v => setBits 0x80 (v &&& 0x80 != 0) (setBits 0x02 (v == 0) old)

/-- The flags that the write can change, as bits. -/
def reach : Write → UInt8
  | byte _ => 0xFF
  | flags mask _ => mask
  | result _ => 0x82

end Write

theorem bits_setResult (p : Status) (v : UInt8) :
    (p.setResult v).bits = setBits 0x80 (v &&& 0x80 != 0) (setBits 0x02 (v == 0) p.bits) := by
  have key : ∀ carry zero interrupt decimal brk overflow negative zero' negative' : Bool,
      (⟨carry, zero', interrupt, decimal, brk, overflow, negative'⟩ : Status).bits =
        setBits 0x80 negative' (setBits 0x02 zero'
          (⟨carry, zero, interrupt, decimal, brk, overflow, negative⟩ : Status).bits) := by
    decide +kernel
  exact key ..

/-- Flags and byte are written alike. -/
theorem bits_apply (write : Write) (p : Status) : (write.apply p).bits = write.onByte p.bits := by
  cases write with
  | byte v => exact bits_ofBits v
  | flags mask value => exact bits_ofBits _
  | result v => exact bits_setResult p v

/-- A flag is written under its mask. -/
theorem assign_mask {part : Part} (h : part.mask ≠ 0) (p : Status) (value : Bool) :
    p.assign part.mask value = part.put value p := by
  have key : ∀ carry zero interrupt decimal brk overflow negative value : Bool,
      (⟨carry, zero, interrupt, decimal, brk, overflow, negative⟩ : Status).assign
          part.mask value =
        part.put value ⟨carry, zero, interrupt, decimal, brk, overflow, negative⟩ := by
    cases part with
    | a | x | y | sp => exact absurd rfl h
    | _ => decide +kernel
  exact key ..

/-! ## Bits that a write spares -/

/-- Setting or clearing bits does nothing to those under a mask that has none of them. -/
theorem setBits_and {mask other : UInt8} (h : mask &&& other = 0) (value : Bool) (bits : UInt8) :
    setBits other value bits &&& mask = bits &&& mask := by
  have hb (i : Nat) (hi : i < 8) : (mask.toBitVec[i] && other.toBitVec[i]) = false := by
    rw [← BitVec.getElem_and, ← UInt8.toBitVec_and, h]
    exact BitVec.getElem_zero hi
  refine UInt8.toBitVec_inj.1 (BitVec.eq_of_getElem_eq fun i hi => ?_)
  have hi := hb i hi
  cases value with
  | true =>
    simp only [setBits, if_true, UInt8.toBitVec_and, UInt8.toBitVec_or, BitVec.getElem_and,
      BitVec.getElem_or]
    revert hi
    cases bits.toBitVec[i] <;> cases mask.toBitVec[i] <;> cases other.toBitVec[i] <;> decide
  | false =>
    simp only [setBits, Bool.false_eq_true, if_false, UInt8.toBitVec_and, UInt8.toBitVec_not,
      BitVec.getElem_and, BitVec.getElem_not]
    revert hi
    cases bits.toBitVec[i] <;> cases mask.toBitVec[i] <;> cases other.toBitVec[i] <;> decide

namespace Write

theorem onByte_and {mask : UInt8} {write : Write} (hr : mask &&& 0x20 = 0)
    (h : mask &&& write.reach = 0) (old : UInt8) : write.onByte old &&& mask = old &&& mask := by
  have hreserved (bits : UInt8) : (bits ||| 0x20) &&& mask = bits &&& mask :=
    setBits_and hr true bits
  cases write with
  | byte v =>
    have hm : mask = 0 := by
      rw [← h]
      exact (UInt8.and_neg_one).symm
    rw [hm, UInt8.and_zero, UInt8.and_zero]
  | flags other value =>
    have hm : mask &&& other = 0 := h
    rw [onByte, hreserved, setBits_and hm]
  | result v =>
    have hz : mask &&& 0x02 = 0 := by
      have he : (0x02 : UInt8) = 0x82 &&& 0x02 := by decide
      rw [he, ← UInt8.and_assoc, show mask &&& 0x82 = 0 from h, UInt8.zero_and]
    have hn : mask &&& 0x80 = 0 := by
      have he : (0x80 : UInt8) = 0x82 &&& 0x80 := by decide
      rw [he, ← UInt8.and_assoc, show mask &&& 0x82 = 0 from h, UInt8.zero_and]
    rw [onByte, setBits_and hn, setBits_and hz]

/-- Bit 5 is no flag, and none of the writes clears it. -/
theorem reserved_onByte {old : UInt8} (h : old &&& 0x20 = 0x20) (write : Write) :
    write.onByte old &&& 0x20 = 0x20 := by
  have hset : ∀ bits : UInt8, (bits ||| 0x20) &&& 0x20 = 0x20 := by decide +kernel
  cases write with
  | byte v => exact hset v
  | flags mask value => exact hset _
  | result v => rw [onByte, setBits_and (by decide), setBits_and (by decide), h]

end Write

/-- Bit 5 of a status byte is set. -/
theorem bits_reserved (p : Status) : p.bits &&& 0x20 = 0x20 := by
  obtain ⟨carry, zero, interrupt, decimal, brk, overflow, negative⟩ := p
  revert carry zero interrupt decimal brk overflow negative
  decide +kernel

end Status

/-- A write spares the flags that it does not reach, and all registers. -/
theorem Part.value_apply {part : Part} {write : Status.Write} (h : part.mask &&& write.reach = 0)
    (r : Registers) : part.value { r with p := write.apply r.p } = part.value r := by
  by_cases hp : part.mask = 0
  · exact part.value_of_mask_eq hp r _
  · rw [part.value_eq_of_mask hp, part.value_eq_of_mask hp]
    dsimp only
    rw [Status.bits_apply, Status.Write.onByte_and part.mask_and_reserved h]

/-! ## Writes of an instruction -/

namespace Status

/-- An instruction of that mnemonic may write so. The break flag is cleared and never set. -/
def Write.AllowedIn (mnemonic : String) : Write → Prop
  | byte _ => mnemonic ∈ Part.brk.changers
  | flags mask value => ∃ part : Part, mask = part.mask ∧ mask ≠ 0 ∧ mnemonic ∈ part.changers ∧
      (part = .brk → value = false)
  | result _ => mnemonic ∈ Part.zero.changers

/-- Some writes that are allowed make one byte of the other, one after the other. -/
inductive Written (allowed : Write → Prop) (start : UInt8) : UInt8 → Prop
  | refl : Written allowed start start
  | write {old : UInt8} (h : Written allowed start old) {write : Write} (hw : allowed write) :
    Written allowed start (write.onByte old)

theorem Write.AllowedIn.mono {name other : String} {write : Write} (h : write.AllowedIn name)
    (hm : ∀ part : Part, name ∈ part.changers → other ∈ part.changers) :
    write.AllowedIn other := by
  cases write with
  | byte v => exact hm .brk h
  | flags mask value =>
    obtain ⟨part, hmask, hn, hp, hb⟩ := h
    exact ⟨part, hmask, hn, hm part hp, hb⟩
  | result v => exact hm .zero h

variable {allowed : Write → Prop} {start : UInt8} {p : Status}

/-- Further writes, with other allowances. -/
theorem Written.append {before : Write → Prop} {middle byte : UInt8}
    (h : Written allowed start middle) (hw : Written before middle byte)
    (ha : ∀ write, before write → allowed write) : Written allowed start byte := by
  induction hw with
  | refl => exact h
  | write _ hw ih => exact ih.write (ha _ hw)

theorem Written.reserved {byte : UInt8} (hw : Written allowed start byte)
    (h : start &&& 0x20 = 0x20) : byte &&& 0x20 = 0x20 := by
  induction hw with
  | refl => exact h
  | write _ _ ih => exact Write.reserved_onByte ih _

theorem Written.apply (h : Written allowed start p.bits) {write : Write} (hw : allowed write) :
    Written allowed start (write.apply p).bits := by
  rw [bits_apply]
  exact h.write hw

variable {mnemonic : String}

theorem Written.put (h : Written (Write.AllowedIn mnemonic) start p.bits) (part : Part)
    (hp : part.mask ≠ 0 ∧ mnemonic ∈ part.changers ∧ part ≠ .brk) (value : Bool) :
    Written (Write.AllowedIn mnemonic) start (part.put value p).bits := by
  obtain ⟨hmask, hm, hb⟩ := hp
  have hw : Write.AllowedIn mnemonic (.flags part.mask value) :=
    ⟨part, rfl, hmask, hm, fun he => absurd he hb⟩
  have hs := h.apply hw
  rw [Write.apply, assign_mask hmask] at hs
  exact hs

theorem Written.result (h : Written (Write.AllowedIn mnemonic) start p.bits)
    (hm : mnemonic ∈ Part.zero.changers) {v : UInt8} :
    Written (Write.AllowedIn mnemonic) start (p.setResult v).bits := by
  have hw : Write.AllowedIn mnemonic (.result v) := hm
  have hs := h.apply hw
  exact hs

/-- A byte from the stack replaces the status, and then the break flag is cleared. -/
theorem Written.pulled (h : Written (Write.AllowedIn mnemonic) start p.bits)
    (hm : mnemonic ∈ Part.brk.changers) {v : UInt8} :
    Written (Write.AllowedIn mnemonic) start (ofPulled v).bits := by
  have hbyte : Write.AllowedIn mnemonic (.byte v) := hm
  have hbrk : Write.AllowedIn mnemonic (.flags Part.brk.mask false) :=
    ⟨.brk, rfl, by decide, hm, fun _ => rfl⟩
  have hb : Write.apply (ofBits v) (.flags Part.brk.mask false) = ofPulled v :=
    assign_mask (by decide) _ _
  rw [← hb]
  exact (h.apply hbyte).apply hbrk

end Status

open Status (Written)
open Status.Write (AllowedIn)

theorem ReadOp.written_apply (op : ReadOp) {start : UInt8} (v : UInt8) (r : Registers)
    (h : Written (AllowedIn op.mnemonic) start r.p.bits) :
    Written (AllowedIn op.mnemonic) start (op.apply v r).p.bits := by
  cases op with
  | adc | sbc =>
    exact ((h.put .carry (by decide) _).put .overflow (by decide) _).result (by decide)
  | bit =>
    have hz := h.put .zero (by decide) (r.a &&& v == 0)
    have hv := hz.put .overflow (by decide) (v &&& 0x40 != 0)
    exact hv.put .negative (by decide) (v &&& 0x80 != 0)
  | cmp => exact (h.put .carry (by decide) (v ≤ r.a)).result (by decide)
  | cpx => exact (h.put .carry (by decide) (v ≤ r.x)).result (by decide)
  | cpy => exact (h.put .carry (by decide) (v ≤ r.y)).result (by decide)
  | alr => exact (h.put .carry (by decide) (r.a &&& v &&& 0x01 != 0)).result (by decide)
  | axs => exact (h.put .carry (by decide) (v ≤ r.a &&& r.x)).result (by decide)
  | and | ora | eor | lda | ldx | ldy | lax => exact h.result (by decide)
  | anc =>
    have hr := h.result (by decide) (v := r.a &&& v)
    exact hr.put .carry (by decide) _
  | arr =>
    have hr := h.result (by decide) (v := (r.a &&& v) >>> 1 ||| Status.bit r.p.carry 0x80)
    exact (hr.put .carry (by decide) _).put .overflow (by decide) _

theorem ModifyOp.written_apply (op : ModifyOp) {start : UInt8} (v : UInt8) {p : Status}
    (h : Written (AllowedIn op.mnemonic) start p.bits) :
    Written (AllowedIn op.mnemonic) start (op.apply v p).2.bits := by
  cases op with
  | asl | lsr | rol | ror => exact (h.put .carry (by decide) _).result (by decide)
  | inc | dec => exact h.result (by decide)

theorem RegisterOp.written_apply (op : RegisterOp) {start : UInt8} (r : Registers)
    (h : Written (AllowedIn op.mnemonic) start r.p.bits) :
    Written (AllowedIn op.mnemonic) start (op.apply r).p.bits := by
  cases op with
  | clc | sec => exact h.put .carry (by decide) _
  | cld | sed => exact h.put .decimal (by decide) _
  | cli | sei => exact h.put .interrupt (by decide) _
  | clv => exact h.put .overflow (by decide) _
  | dex | dey | inx | iny | tax | tay | tsx | txa | tya => exact h.result (by decide)
  | txs => exact h

end Nes
