import Mathlib.Algebra.Group.Nat.Defs
import Nes.Bus.Flat
import Nes.Proofs.Cpu.Rules

/-!
# Sign and zero follow the result

Most instructions end with a result, and the negative and zero flags tell its sign and whether it is
zero. Which byte is the result depends on the operation alone, however the operand is found. An
operation that combines two sets the flags twice, and what counts is its last result.

Results:

* `ReadOp.signs_apply`, `ModifyOp.tells_apply`, `RegisterOp.signs_apply`: the flags of an operation.
* `Runs.signs`: the flags of every rule.
* `signs_step`: **after every step, on any bus, the flags tell the result.**
-/

namespace Nes

/-! ## What flags tell -/

/-- Zero and negative tell of the byte `v` whether it is zero and what its highest bit is. -/
def Status.Tells (p : Status) (v : UInt8) : Prop :=
  (p.zero = true ↔ v = 0) ∧ (p.negative = true ↔ v.toNat.testBit 7 = true)

/-- Zero and negative are what they were. -/
def Status.KeepsSigns (before after : Status) : Prop :=
  after.zero = before.zero ∧ after.negative = before.negative

namespace Status

/-- A mask of one bit picks that bit of the number, by enumeration of byte and bit. -/
theorem bit_eq_testBit (v : UInt8) (k : Fin 8) :
    (v &&& UInt8.ofNat (2 ^ k.val) != 0) = v.toNat.testBit k.val := by
  revert v k
  decide +kernel

theorem bit_iff (v : UInt8) (k : Fin 8) :
    (v &&& UInt8.ofNat (2 ^ k.val) != 0) = true ↔ v.toNat.testBit k.val = true := by
  rw [bit_eq_testBit]

theorem zero_iff (v : UInt8) : (v == 0) = true ↔ v = 0 := beq_iff_eq

theorem tells_setResult (p : Status) (v : UInt8) : (p.setResult v).Tells v :=
  ⟨zero_iff v, bit_iff v 7⟩

end Status

/-! ## Operations -/

/-- The flags after an operation with an operand, given the registers before and after it. -/
def ReadOp.Signs (op : ReadOp) (operand : UInt8) (before after : Registers) : Prop :=
  match op with
  | lda | and | ora | eor | adc | sbc | lax | alr | anc | arr => after.p.Tells after.a
  | ldx | axs => after.p.Tells after.x
  | ldy => after.p.Tells after.y
  | cmp => after.p.Tells (before.a - operand)
  | cpx => after.p.Tells (before.x - operand)
  | cpy => after.p.Tells (before.y - operand)
  | bit => (after.p.zero = true ↔ before.a &&& operand = 0) ∧
      (after.p.negative = true ↔ operand.toNat.testBit 7 = true)

/-- The flags after an operation that writes a byte and combines it with the accumulator. -/
def CombinedOp.Signs (op : CombinedOp) (written : UInt8) (before after : Registers) : Prop :=
  match op with
  | slo | rla | sre | rra | isb => after.p.Tells after.a
  | dcp => after.p.Tells (before.a - written)

/-- The flags after an operation inside the registers. -/
def RegisterOp.Signs (op : RegisterOp) (before after : Registers) : Prop :=
  match op with
  | txa | tya => after.p.Tells after.a
  | tax | tsx | inx | dex => after.p.Tells after.x
  | tay | iny | dey => after.p.Tells after.y
  | clc | sec | cld | sed | cli | sei | clv | txs => before.p.KeepsSigns after.p

theorem ReadOp.signs_apply (op : ReadOp) (operand : UInt8) (r : Registers) :
    op.Signs operand r (op.apply operand r) := by
  cases op with
  | bit => exact ⟨Status.zero_iff _, Status.bit_iff operand 7⟩
  -- these two set the carry by the result
  | anc | arr => exact Status.tells_setResult r.p _
  | _ => exact Status.tells_setResult _ _

theorem CombinedOp.signs_apply (op : CombinedOp) (written : UInt8) (r : Registers) :
    op.Signs written r (op.second.apply written r) := by
  cases op <;> exact Status.tells_setResult _ _

theorem RegisterOp.signs_apply (op : RegisterOp) (r : Registers) : op.Signs r (op.apply r) := by
  cases op with
  | txa | tya | tax | tsx | inx | dex | tay | iny | dey => exact Status.tells_setResult _ _
  | clc | sec | cld | sed | cli | sei | clv | txs => exact ⟨rfl, rfl⟩

theorem ModifyOp.tells_apply (op : ModifyOp) (v : UInt8) (p : Status) :
    (op.apply v p).2.Tells (op.apply v p).1 :=
  Status.tells_setResult _ _

/-! ## Instructions -/

open Cpu (stackAddress)

/-- The flags after an instruction, given the registers before it with its opcode read, those that
it leaves, and its accesses behind the opcode. An operand is what is read at the address that the
mode names. -/
def Instruction.Signs (before : Registers) (log : List Access) (after : Registers) :
    Instruction → Prop
  | read op mode => ∃ finding address operand, Names before mode finding address ∧
      log = finding ++ [.read address operand] ∧ op.Signs operand before after
  | modify _ mode => ∃ finding address old new, Names before mode finding address ∧
      log = finding ++ [.read address old, .write address new] ∧ after.p.Tells new
  | modifyA _ => after.p.Tells after.a
  | combined op mode => ∃ finding address old new, Names before mode finding address ∧
      log = finding ++ [.read address old, .write address new] ∧ op.Signs new before after
  | register op => op.Signs before after
  | stack .pla => after.p.Tells after.a
  | stack .plp | rti => ∃ pulled rest, log = .read (stackAddress (before.sp + 1)) pulled :: rest ∧
      (after.p.zero = true ↔ pulled.toNat.testBit 1 = true) ∧
      (after.p.negative = true ↔ pulled.toNat.testBit 7 = true)
  | write _ _ | stack .pha | stack .php | branch _ | jmp _ | jsr | rts | brk | nop _ =>
      before.p.KeepsSigns after.p

theorem Runs.signs {r after : Registers} {i : Instruction} {log : List Access}
    (h : Runs r i log after) : i.Signs r log after := by
  cases h with
  | @read op mode _ _ h operand =>
    refine ⟨_, _, operand, h, rfl, ?_⟩
    have hs := op.signs_apply operand (r.skip mode)
    cases op <;> exact hs
  | modify h old => exact ⟨_, _, old, _, h, rfl, ModifyOp.tells_apply _ old r.p⟩
  | @modifyA op => exact op.tells_apply r.a r.p
  | @combined op mode _ _ h old =>
    refine ⟨_, _, old, _, h, rfl, ?_⟩
    -- the flags of the first operation are overwritten by the second
    have hs := op.signs_apply (op.first.apply old r.p).1
      { r.skip mode with p := (op.first.apply old r.p).2 }
    cases op <;> exact hs
  | register => exact RegisterOp.signs_apply _ r
  | pla value => exact Status.tells_setResult r.p value
  | plp status => exact ⟨status, _, rfl, Status.bit_iff status 1, Status.bit_iff status 7⟩
  | rti status lo hi => exact ⟨status, _, rfl, Status.bit_iff status 1, Status.bit_iff status 7⟩
  | write | pha | php | branch | jmp | jsr | rts | brk | nop | skip => exact ⟨rfl, rfl⟩

namespace Cpu

/-- **Main theorem.** After a step on any bus zero and negative tell the result of the instruction,
and an instruction without one leaves them as they were. -/
theorem signs_step {β : Type} [Bus β] {cpu next : Cpu β} (h : step cpu = .ok () next) :
    ∃ opcode i log, Opcode.ofByte opcode = .instruction i ∧
      cpu.accesses .step = .read cpu.registers.pc opcode :: log ∧
      i.Signs { cpu.registers with pc := cpu.registers.pc + 1 } log next.registers := by
  obtain ⟨opcode, i, log, ho, hl, hr⟩ := runs_of_step h
  exact ⟨opcode, i, log, ho, hl, hr.signs⟩

/-- A processor whose next instruction is `RRA`: it rotates `$67` to `$33`, which is not zero, and
adds it with the bit that drops out to `$CC`, which gives zero. -/
def rotateAndAdd : Cpu FlatBus := ⟨{ a := 0xCC, pc := 0x0300, p := {} }, 0, .filled 0x67⟩

theorem step_rotateAndAdd :
    step rotateAndAdd = .ok () ⟨{ a := 0, pc := 0x0302, p := { zero := true, carry := true } }, 1,
      (FlatBus.filled 0x67).poke 0x0067 0x33⟩ := by
  have hop : Opcode.ofByte 0x67 = .instruction (.combined .rra .zeroPage) := by decide
  simp only [step_eq, fetch_eq, Bus.read, rotateAndAdd, FlatBus.peek_filled, hop]
  simp only [Instruction.run, resolve, fetch, Instruction.modifyAt, bind, EStateM.bind, pure,
    EStateM.pure, getRegisters, update, read, write, Bus.read, Bus.write, FlatBus.peek_filled]
  rfl

theorem signs_rotateAndAdd :
    ∃ next, step rotateAndAdd = .ok () next ∧ next.registers.p.zero = true ∧
      ∃ opcode i log, Opcode.ofByte opcode = .instruction i ∧
        rotateAndAdd.accesses .step = .read 0x0300 opcode :: log ∧
        i.Signs { rotateAndAdd.registers with pc := 0x0301 } log next.registers :=
  ⟨_, step_rotateAndAdd, rfl, signs_step step_rotateAndAdd⟩

end Cpu

end Nes
