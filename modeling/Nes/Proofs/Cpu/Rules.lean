import Nes.Proofs.Cpu.Courses

/-!
# The rules of the instruction set

One rule for every kind of instruction says, without a bus, which accesses it makes and which
registers it leaves: first the bytes of the operand and of a pointer in it, as the mode has them,
then what the operation does at the address, then the stack. The bytes read are free, and all else
follows from them. Whatever the bus, a step keeps to these rules, and a step that fails keeps to
them up to the access that the bus refuses.

Results:

* `follows_resolve`: every mode keeps to its rule.
* `KeepsRule`, `follows_run`: every instruction keeps to its rule, one lemma for each kind.
* `stepped_step`: **so does every step of a processor, on any bus.**
* `runs_of_step`: the rule of a step that succeeds.
-/

namespace Nes

/-! ## Modes -/

/-- The registers after the operand bytes of a mode. -/
def Registers.skip (r : Registers) (mode : AddressMode) : Registers :=
  { r with pc := r.pc + UInt16.ofNat mode.operandBytes }

/-- With the program counter of `r` at the operand bytes, the mode makes these accesses and names
this address. -/
inductive Names (r : Registers) : AddressMode → List Access → UInt16 → Prop
  | immediate : Names r .immediate [] r.pc
  | zeroPage (byte : UInt8) : Names r .zeroPage [.read r.pc byte] byte.toUInt16
  | zeroPageX (byte : UInt8) : Names r .zeroPageX [.read r.pc byte] (byte + r.x).toUInt16
  | zeroPageY (byte : UInt8) : Names r .zeroPageY [.read r.pc byte] (byte + r.y).toUInt16
  | absolute (lo hi : UInt8) :
    Names r .absolute [.read r.pc lo, .read (r.pc + 1) hi] (word lo hi)
  | absoluteX (lo hi : UInt8) :
    Names r .absoluteX [.read r.pc lo, .read (r.pc + 1) hi] (word lo hi + r.x.toUInt16)
  | absoluteY (lo hi : UInt8) :
    Names r .absoluteY [.read r.pc lo, .read (r.pc + 1) hi] (word lo hi + r.y.toUInt16)
  | indirect (lo hi lo' hi' : UInt8) :
    Names r .indirect [.read r.pc lo, .read (r.pc + 1) hi, .read (word lo hi) lo',
      .read (Cpu.nextInPage (word lo hi)) hi'] (word lo' hi')
  | indirectX (byte lo hi : UInt8) :
    Names r .indirectX [.read r.pc byte, .read (byte + r.x).toUInt16 lo,
      .read (byte + r.x + 1).toUInt16 hi] (word lo hi)
  | indirectY (byte lo hi : UInt8) :
    Names r .indirectY [.read r.pc byte, .read byte.toUInt16 lo, .read (byte + 1).toUInt16 hi]
      (word lo hi + r.y.toUInt16)
  | relative (byte : UInt8) : Names r .relative [.read r.pc byte] (r.pc + 1 + signExtend byte)

/-! ## Instructions -/

open Cpu (stackAddress)

/-- With the opcode read and `r` in the registers, the instruction makes these accesses and leaves
these registers. -/
inductive Runs (r : Registers) : Instruction → List Access → Registers → Prop
  | read {op : ReadOp} {mode : AddressMode} {log : List Access} {address : UInt16}
      (h : Names r mode log address) (operand : UInt8) :
    Runs r (.read op mode) (log ++ [.read address operand]) (op.apply operand (r.skip mode))
  | write {op : WriteOp} {mode : AddressMode} {log : List Access} {address : UInt16}
      (h : Names r mode log address) :
    Runs r (.write op mode) (log ++ [.write address (op.value r)]) (r.skip mode)
  | modify {op : ModifyOp} {mode : AddressMode} {log : List Access} {address : UInt16}
      (h : Names r mode log address) (old : UInt8) :
    Runs r (.modify op mode) (log ++ [.read address old, .write address (op.apply old r.p).1])
      { r.skip mode with p := (op.apply old r.p).2 }
  | modifyA {op : ModifyOp} : Runs r (.modifyA op) [] (op.applyA r)
  | combined {op : CombinedOp} {mode : AddressMode} {log : List Access} {address : UInt16}
      (h : Names r mode log address) (old : UInt8) :
    Runs r (.combined op mode)
      (log ++ [.read address old, .write address (op.first.apply old r.p).1])
      (op.second.apply (op.first.apply old r.p).1
        { r.skip mode with p := (op.first.apply old r.p).2 })
  | register {op : RegisterOp} : Runs r (.register op) [] (op.apply r)
  | pha : Runs r (.stack .pha) [.write (stackAddress r.sp) r.a] { r with sp := r.sp - 1 }
  | php :
    Runs r (.stack .php) [.write (stackAddress r.sp) r.p.pushedBits] { r with sp := r.sp - 1 }
  | pla (value : UInt8) :
    Runs r (.stack .pla) [.read (stackAddress (r.sp + 1)) value]
      (Registers.setA { r with sp := r.sp + 1 } value)
  | plp (status : UInt8) :
    Runs r (.stack .plp) [.read (stackAddress (r.sp + 1)) status]
      { r with sp := r.sp + 1, p := .ofPulled status }
  | branch {condition : Condition} {log : List Access} {target : UInt16}
      (h : Names r .relative log target) :
    Runs r (.branch condition) log
      { r with pc := if condition.holds r.p then target else r.pc + 1 }
  | jmp {mode : AddressMode} {log : List Access} {target : UInt16} (h : Names r mode log target) :
    Runs r (.jmp mode) log { r with pc := target }
  | jsr {log : List Access} {target : UInt16} (h : Names r .absolute log target) :
    Runs r .jsr (log ++ [.write (stackAddress r.sp) (highByte (r.pc + 1)),
        .write (stackAddress (r.sp - 1)) (lowByte (r.pc + 1))])
      { r with sp := r.sp - 2, pc := target }
  | rts (lo hi : UInt8) :
    Runs r .rts [.read (stackAddress (r.sp + 1)) lo, .read (stackAddress (r.sp + 2)) hi]
      { r with sp := r.sp + 2, pc := word lo hi + 1 }
  | rti (status lo hi : UInt8) :
    Runs r .rti [.read (stackAddress (r.sp + 1)) status, .read (stackAddress (r.sp + 2)) lo,
        .read (stackAddress (r.sp + 3)) hi]
      { r with sp := r.sp + 3, p := .ofPulled status, pc := word lo hi }
  | brk (lo hi : UInt8) :
    Runs r .brk [.write (stackAddress r.sp) (highByte (r.pc + 1)),
        .write (stackAddress (r.sp - 1)) (lowByte (r.pc + 1)),
        .write (stackAddress (r.sp - 2)) r.p.pushedBits,
        .read irqVector lo, .read (irqVector + 1) hi]
      { r with sp := r.sp - 3, p := { r.p with interrupt := true }, pc := word lo hi }
  | nop {mode : Mode} (h : mode = .implied ∨ mode = .accumulator) : Runs r (.nop mode) [] r
  | skip {mode : AddressMode} {log : List Access} {address : UInt16}
      (h : Names r mode log address) :
    Runs r (.nop (.address mode)) log (r.skip mode)

namespace Cpu

section

variable {β : Type} [Bus β]

/-! ## Modes keep to their rules -/

/-- Page 0 ends with `$FF`, and begins again behind it. -/
theorem nextInPage_toUInt16 (byte : UInt8) : nextInPage byte.toUInt16 = (byte + 1).toUInt16 := by
  have h := byte.toNat_lt
  apply UInt16.toNat_inj.1
  rw [nextInPage_toNat, UInt8.toNat_toUInt16, UInt8.toNat_toUInt16, UInt8.toNat_add]
  simp only [UInt8.reduceToNat]
  omega

theorem follows_readZeroPage (byte : UInt8) :
    Follows (readPointer byte.toUInt16 : Action (Recorder β) UInt16) fun r log v after =>
      ∃ lo hi, log = [.read byte.toUInt16 lo, .read (byte + 1).toUInt16 hi] ∧ v = word lo hi ∧
        after = r := by
  have h := @follows_readPointer β _ byte.toUInt16
  rwa [nextInPage_toUInt16] at h

/-- Every mode keeps to its rule, whatever bytes it is given. -/
theorem follows_resolve (mode : AddressMode) :
    Follows (resolve mode : Action (Recorder β) UInt16) fun r log address after =>
      Names r mode log address ∧ after = r.skip mode := by
  cases mode with
  | immediate =>
    refine .mono (.bind follows_getRegisters fun r => .bind (follows_jump _) fun _ =>
      .pure r.pc) ?_
    rintro r _ _ _ ⟨⟨rfl, rfl, rfl⟩, ⟨⟨rfl, rfl⟩, ⟨rfl, rfl, rfl⟩⟩⟩
    exact ⟨.immediate, rfl⟩
  | zeroPage =>
    refine .mono (.bind follows_fetch fun byte => .pure byte.toUInt16) ?_
    rintro r _ _ _ ⟨⟨rfl, rfl⟩, ⟨rfl, rfl, rfl⟩⟩
    exact ⟨.zeroPage _, rfl⟩
  | zeroPageX =>
    refine .mono (.bind follows_fetch fun byte => .bind follows_getRegisters fun r =>
      .pure (byte + r.x).toUInt16) ?_
    rintro r _ _ _ ⟨⟨rfl, rfl⟩, ⟨⟨rfl, rfl, rfl⟩, ⟨rfl, rfl, rfl⟩⟩⟩
    exact ⟨.zeroPageX _, rfl⟩
  | zeroPageY =>
    refine .mono (.bind follows_fetch fun byte => .bind follows_getRegisters fun r =>
      .pure (byte + r.y).toUInt16) ?_
    rintro r _ _ _ ⟨⟨rfl, rfl⟩, ⟨⟨rfl, rfl, rfl⟩, ⟨rfl, rfl, rfl⟩⟩⟩
    exact ⟨.zeroPageY _, rfl⟩
  | absolute =>
    refine follows_fetchWord.mono ?_
    rintro r _ _ _ ⟨lo, hi, rfl, rfl, rfl⟩
    exact ⟨.absolute lo hi, rfl⟩
  | absoluteX =>
    refine .mono (.bind follows_fetchWord fun base => .bind follows_getRegisters fun r =>
      .pure (base + r.x.toUInt16)) ?_
    rintro r _ _ _ ⟨⟨lo, hi, rfl, rfl, rfl⟩, ⟨⟨rfl, rfl, rfl⟩, ⟨rfl, rfl, rfl⟩⟩⟩
    exact ⟨.absoluteX lo hi, rfl⟩
  | absoluteY =>
    refine .mono (.bind follows_fetchWord fun base => .bind follows_getRegisters fun r =>
      .pure (base + r.y.toUInt16)) ?_
    rintro r _ _ _ ⟨⟨lo, hi, rfl, rfl, rfl⟩, ⟨⟨rfl, rfl, rfl⟩, ⟨rfl, rfl, rfl⟩⟩⟩
    exact ⟨.absoluteY lo hi, rfl⟩
  | indirect =>
    refine .mono (.bind follows_fetchWord fun pointer => follows_readPointer pointer) ?_
    rintro r _ _ _ ⟨⟨lo, hi, rfl, rfl, rfl⟩, ⟨lo', hi', rfl, rfl, rfl⟩⟩
    exact ⟨.indirect lo hi lo' hi', rfl⟩
  | indirectX =>
    refine .mono (.bind follows_fetch fun byte => .bind follows_getRegisters fun r =>
      follows_readZeroPage (byte + r.x)) ?_
    rintro r _ _ _ ⟨⟨rfl, rfl⟩, ⟨⟨rfl, rfl, rfl⟩, ⟨lo, hi, rfl, rfl, rfl⟩⟩⟩
    exact ⟨.indirectX _ lo hi, rfl⟩
  | indirectY =>
    refine .mono (.bind follows_fetch fun byte => .bind (follows_readZeroPage byte) fun base =>
      .bind follows_getRegisters fun r => .pure (base + r.y.toUInt16)) ?_
    rintro r _ _ _ ⟨⟨rfl, rfl⟩, ⟨⟨lo, hi, rfl, rfl, rfl⟩, ⟨⟨rfl, rfl, rfl⟩, ⟨rfl, rfl, rfl⟩⟩⟩⟩
    exact ⟨.indirectY _ lo hi, rfl⟩
  | relative =>
    refine .mono (.bind follows_fetch fun byte => .bind follows_getRegisters fun r =>
      .pure (r.pc + signExtend byte)) ?_
    rintro r _ _ _ ⟨⟨rfl, rfl⟩, ⟨⟨rfl, rfl, rfl⟩, ⟨rfl, rfl, rfl⟩⟩⟩
    exact ⟨.relative _, rfl⟩

/-! ## Instructions keep to their rules -/

/-- A byte is read, and its result written to the same address. -/
theorem follows_modifyAt (op : ModifyOp) (address : UInt16) :
    Follows (Instruction.modifyAt op address : Action (Recorder β) UInt8) fun r log v after =>
      ∃ old, log = [.read address old, .write address (op.apply old r.p).1] ∧
        v = (op.apply old r.p).1 ∧ after = { r with p := (op.apply old r.p).2 } := by
  refine .mono (.bind (follows_read address) fun old => .bind follows_getRegisters fun r =>
    .bind (follows_update fun r' => { r' with p := (op.apply old r.p).2 }) fun _ =>
      .bind (follows_write address (op.apply old r.p).1) fun _ => .pure (op.apply old r.p).1) ?_
  rintro r _ _ _ ⟨⟨rfl, rfl⟩, ⟨⟨rfl, rfl, rfl⟩, ⟨⟨rfl, rfl⟩, ⟨⟨rfl, rfl⟩, ⟨rfl, rfl, rfl⟩⟩⟩⟩⟩
  exact ⟨_, rfl, rfl, rfl⟩

/-- The return address, the status, and then the vector. -/
theorem follows_enterInterrupt (returnAddress : UInt16) (status : UInt8) (vector : UInt16) :
    Follows (Instruction.enterInterrupt returnAddress status vector : Action (Recorder β) Unit)
      fun r log _ after => ∃ lo hi,
        log = [.write (stackAddress r.sp) (highByte returnAddress),
          .write (stackAddress (r.sp - 1)) (lowByte returnAddress),
          .write (stackAddress (r.sp - 2)) status, .read vector lo, .read (vector + 1) hi] ∧
        after = { r with
          sp := r.sp - 3, p := { r.p with interrupt := true }, pc := word lo hi } := by
  refine .mono (.bind (follows_pushWord returnAddress) fun _ => .bind (follows_push status)
    fun _ => .bind (follows_update _) fun _ => .bind (follows_readWord vector) fun target =>
      follows_jump target) ?_
  rintro r _ _ _
    ⟨⟨rfl, rfl⟩, ⟨⟨rfl, rfl⟩, ⟨⟨rfl, rfl⟩, ⟨⟨lo, hi, rfl, rfl, rfl⟩, ⟨rfl, rfl⟩⟩⟩⟩⟩
  have hsp : r.sp - 2 - 1 = r.sp - 3 := by grind
  exact ⟨lo, hi, rfl, by rw [hsp]⟩

/-- What an instruction does over a bus that is recorded is what its rule says. -/
def KeepsRule (β : Type) [Bus β] (i : Instruction) : Prop :=
  Follows (i.run : Action (Recorder β) Unit) fun r log _ after => Runs r i log after

/-- The operand is read at the address, and the operation applied to it. -/
theorem keepsRule_read (op : ReadOp) (mode : AddressMode) : KeepsRule β (.read op mode) := by
  refine .mono (.bind (follows_resolve mode) fun address => .bind (follows_read address)
    fun value => follows_update _) ?_
  rintro r _ _ _ ⟨⟨h, rfl⟩, ⟨⟨rfl, rfl⟩, ⟨rfl, rfl⟩⟩⟩
  exact .read h _

/-- What is written does not depend on the program counter, so it may be taken before the operand.
-/
theorem keepsRule_write (op : WriteOp) (mode : AddressMode) : KeepsRule β (.write op mode) := by
  refine .mono (.bind (follows_resolve mode) fun address => .bind follows_getRegisters fun r =>
    follows_write address (op.value r)) ?_
  rintro r _ _ _ ⟨⟨h, rfl⟩, ⟨⟨rfl, rfl, rfl⟩, ⟨rfl, rfl⟩⟩⟩
  have hv : op.value (r.skip mode) = op.value r := by cases op <;> rfl
  rw [hv]
  exact .write h

theorem keepsRule_modify (op : ModifyOp) (mode : AddressMode) :
    KeepsRule β (.modify op mode) := by
  refine .mono (.bind (follows_resolve mode) fun address =>
    .bind (follows_modifyAt op address) fun _ => .pure ()) ?_
  rintro r _ _ _ ⟨⟨h, rfl⟩, ⟨⟨old, rfl, rfl, rfl⟩, ⟨rfl, -, rfl⟩⟩⟩
  exact .modify h old

/-- The second operation works on what the first has written. -/
theorem keepsRule_combined (op : CombinedOp) (mode : AddressMode) :
    KeepsRule β (.combined op mode) := by
  refine .mono (.bind (follows_resolve mode) fun address =>
    .bind (follows_modifyAt op.first address) fun value => follows_update _) ?_
  rintro r _ _ _ ⟨⟨h, rfl⟩, ⟨⟨old, rfl, rfl, rfl⟩, ⟨rfl, rfl⟩⟩⟩
  exact .combined h old

theorem keepsRule_stack (op : StackOp) : KeepsRule β (.stack op) := by
  cases op with
  | pha =>
    refine .mono (.bind follows_getRegisters fun r => follows_push r.a) ?_
    rintro r _ _ _ ⟨⟨rfl, rfl, rfl⟩, ⟨rfl, rfl⟩⟩
    exact .pha
  | php =>
    refine .mono (.bind follows_getRegisters fun r => follows_push r.p.pushedBits) ?_
    rintro r _ _ _ ⟨⟨rfl, rfl, rfl⟩, ⟨rfl, rfl⟩⟩
    exact .php
  | pla =>
    refine .mono (.bind follows_pull fun value => follows_update _) ?_
    rintro r _ _ _ ⟨⟨rfl, rfl⟩, ⟨rfl, rfl⟩⟩
    exact .pla _
  | plp =>
    refine .mono (.bind follows_pull fun value => follows_update _) ?_
    rintro r _ _ _ ⟨⟨rfl, rfl⟩, ⟨rfl, rfl⟩⟩
    exact .plp _

omit [Bus β] in
/-- A branch that is not taken leaves the program counter behind its operand. -/
theorem follows_jumpIf (condition : Condition) (target : UInt16) (r : Registers) :
    Follows (if condition.holds r.p then jump target else pure () : Action (Recorder β) Unit)
      fun r' log _ after => log = [] ∧
        after = { r' with pc := if condition.holds r.p then target else r'.pc } := by
  by_cases hc : condition.holds r.p = true
  · simp only [hc, if_true]
    exact follows_jump target
  · simp only [hc, if_false, Bool.false_eq_true]
    exact (Follows.pure ()).mono fun _ _ _ _ ⟨hl, _, hr⟩ => ⟨hl, hr⟩

theorem keepsRule_branch (condition : Condition) : KeepsRule β (.branch condition) := by
  refine .mono (.bind (follows_resolve .relative) fun target =>
    .bind follows_getRegisters fun r => follows_jumpIf condition target r) ?_
  rintro r _ _ _ ⟨⟨h, rfl⟩, ⟨⟨rfl, rfl, rfl⟩, ⟨rfl, rfl⟩⟩⟩
  rw [List.append_nil, List.append_nil]
  exact .branch h

theorem keepsRule_jmp (mode : AddressMode) : KeepsRule β (.jmp mode) := by
  refine .mono (.bind (follows_resolve mode) fun target => follows_jump target) ?_
  rintro r _ _ _ ⟨⟨h, rfl⟩, ⟨rfl, rfl⟩⟩
  rw [List.append_nil]
  exact .jmp h

/-- The operand is read before the return address is pushed, so that one lies a byte behind the
program counter. -/
theorem keepsRule_jsr : KeepsRule β .jsr := by
  refine .mono (.bind (follows_resolve .absolute) fun target =>
    .bind follows_getRegisters fun r => .bind (follows_pushWord (r.pc - 1)) fun _ =>
      follows_jump target) ?_
  rintro r _ _ _ ⟨⟨h, rfl⟩, ⟨⟨rfl, rfl, rfl⟩, ⟨⟨rfl, rfl⟩, ⟨rfl, rfl⟩⟩⟩⟩
  have hpc : (r.skip .absolute).pc - 1 = r.pc + 1 := by
    show r.pc + 2 - 1 = r.pc + 1
    grind
  rw [hpc]
  exact .jsr h

theorem keepsRule_rts : KeepsRule β .rts := by
  refine .mono (.bind follows_pullWord fun w => follows_jump (w + 1)) ?_
  rintro r _ _ _ ⟨⟨lo, hi, rfl, rfl, rfl⟩, ⟨rfl, rfl⟩⟩
  exact .rts lo hi

/-- The flags come back before the address. -/
theorem keepsRule_rti : KeepsRule β .rti := by
  refine .mono (.bind follows_pull fun status => .bind (follows_update _) fun _ =>
    .bind follows_pullWord fun target => follows_jump target) ?_
  rintro r _ _ _ ⟨⟨rfl, rfl⟩, ⟨⟨rfl, rfl⟩, ⟨⟨lo, hi, rfl, rfl, rfl⟩, ⟨rfl, rfl⟩⟩⟩⟩
  have h₂ : r.sp + 1 + 1 = r.sp + 2 := UInt8.add_assoc r.sp 1 1
  have h₃ : r.sp + 1 + 2 = r.sp + 3 := UInt8.add_assoc r.sp 1 2
  rw [h₂, h₃]
  exact .rti _ lo hi

theorem keepsRule_brk : KeepsRule β .brk := by
  refine .mono (.bind follows_getRegisters fun r =>
    follows_enterInterrupt (r.pc + 1) r.p.pushedBits irqVector) ?_
  rintro r _ _ _ ⟨⟨rfl, rfl, rfl⟩, ⟨lo, hi, rfl, rfl⟩⟩
  exact .brk lo hi

/-- The operand is read, but nothing at the address that it names. -/
theorem keepsRule_nop (mode : Mode) : KeepsRule β (.nop mode) := by
  cases mode with
  | implied =>
    refine (Follows.pure ()).mono ?_
    rintro r _ _ _ ⟨rfl, -, rfl⟩
    exact .nop (.inl rfl)
  | accumulator =>
    refine (Follows.pure ()).mono ?_
    rintro r _ _ _ ⟨rfl, -, rfl⟩
    exact .nop (.inr rfl)
  | address mode =>
    refine .mono (.bind (follows_resolve mode) fun _ => .pure ()) ?_
    rintro r _ _ _ ⟨⟨h, rfl⟩, ⟨rfl, -, rfl⟩⟩
    rw [List.append_nil]
    exact .skip h

/-- **Every instruction keeps to its rule.** -/
theorem follows_run (i : Instruction) :
    Follows (i.run : Action (Recorder β) Unit) fun r log _ after => Runs r i log after := by
  cases i with
  | read op mode => exact keepsRule_read op mode
  | write op mode => exact keepsRule_write op mode
  | modify op mode => exact keepsRule_modify op mode
  | modifyA op =>
    refine (follows_update _).mono ?_
    rintro r _ _ _ ⟨rfl, rfl⟩
    exact .modifyA
  | combined op mode => exact keepsRule_combined op mode
  | register op =>
    refine (follows_update _).mono ?_
    rintro r _ _ _ ⟨rfl, rfl⟩
    exact .register
  | stack op => exact keepsRule_stack op
  | branch condition => exact keepsRule_branch condition
  | jmp mode => exact keepsRule_jmp mode
  | jsr => exact keepsRule_jsr
  | rts => exact keepsRule_rts
  | rti => exact keepsRule_rti
  | brk => exact keepsRule_brk
  | nop mode => exact keepsRule_nop mode

/-! ## Steps keep to the rules -/

/-- With `r` in the registers, a step makes these accesses and comes to this end: the registers
that it leaves, or why it fails. -/
inductive Stepped (r : Registers) : List Access → Except CpuError Registers → Prop
  | done {opcode : UInt8} {i : Instruction} {log : List Access} {after : Registers}
      (ho : Opcode.ofByte opcode = .instruction i)
      (h : Runs { r with pc := r.pc + 1 } i log after) :
    Stepped r (.read r.pc opcode :: log) (.ok after)
  | fetch (cause : BusError) : Stepped r [.readFailed r.pc] (.error (.fetch r.pc cause))
  | unsupported {opcode : UInt8} {op : UnstableOp} {mode : Mode}
      (ho : Opcode.ofByte opcode = .unstable op mode) :
    Stepped r [.read r.pc opcode] (.error (.unsupportedOpcode opcode op r.pc))
  | bus {opcode : UInt8} {i : Instruction} {log : List Access}
      (ho : Opcode.ofByte opcode = .instruction i)
      (h : BrokenOff (fun log => ∃ after, Runs { r with pc := r.pc + 1 } i log after) log)
      (cause : BusError) :
    Stepped r (.read r.pc opcode :: log) (.error (.bus opcode r.pc cause))

/-- What a step comes to, without the processor that it leaves. -/
def verdict {γ : Type} : EStateM.Result CpuError (Cpu γ) Unit → Except CpuError Registers
  | .ok _ cpu => .ok cpu.registers
  | .error cause _ => .error cause

theorem fetch_watched (cpu : Cpu β) :
    fetch cpu.watched = match Bus.read cpu.registers.pc cpu.bus with
      | .error cause bus => .error cause
        ⟨cpu.registers, cpu.instructions, bus, #[.readFailed cpu.registers.pc]⟩
      | .ok opcode bus => .ok opcode ⟨{ cpu.registers with pc := cpu.registers.pc + 1 },
        cpu.instructions, bus, #[.read cpu.registers.pc opcode]⟩ := by
  rw [fetch_eq]
  simp only [Bus.read, watched]
  cases Bus.read cpu.registers.pc cpu.bus <;> rfl

/-- So does a step that is watched: the fetch first, and the instruction after it. -/
theorem stepped_watched (cpu : Cpu β) :
    Stepped cpu.registers (cpu.accesses .step) (verdict (step cpu.watched)) := by
  rw [accesses, perform, step_eq, fetch_watched]
  cases Bus.read cpu.registers.pc cpu.bus with
  | error cause bus => exact .fetch cause
  | ok opcode bus =>
    dsimp only
    cases ho : Opcode.ofByte opcode with
    | unstable op mode => exact .unsupported ho
    | instruction i =>
      let cpu' : Cpu (Recorder β) := ⟨{ cpu.registers with pc := cpu.registers.pc + 1 },
        cpu.instructions, bus, #[.read cpu.registers.pc opcode]⟩
      have hr := (follows_run i).ends cpu'
      dsimp only
      cases hc : i.run cpu' with
      | ok _ next =>
        rw [hc] at hr
        obtain ⟨log, hl, hruns⟩ := hr
        have hlog : next.bus.accesses.toList = .read cpu.registers.pc opcode :: log := hl
        exact hlog ▸ .done ho hruns
      | error cause next =>
        rw [hc] at hr
        obtain ⟨log, hl, hb⟩ := hr
        have hlog : next.bus.accesses.toList = .read cpu.registers.pc opcode :: log := hl
        refine hlog ▸ .bus ho (hb.mono ?_) cause
        rintro log ⟨_, after, h⟩
        exact ⟨after, h⟩

/-- **Main theorem.** Every step of a processor keeps to the rules, on any bus. -/
theorem stepped_step (cpu : Cpu β) :
    Stepped cpu.registers (cpu.accesses .step) (verdict (step cpu)) := by
  have h := stepped_watched cpu
  have hw : Agree _ (step cpu.watched) (step cpu) := perform_watched cpu .step
  generalize step cpu.watched = p at h hw
  generalize step cpu = q at hw ⊢
  cases hw with
  | ok _ hr =>
    obtain ⟨n, hr⟩ := hr
    rw [verdict, hr.registers] at h
    exact h
  | error cause _ => exact h

/-- A step that succeeds has run an instruction of the table. -/
theorem runs_of_step {cpu next : Cpu β} (h : step cpu = .ok () next) :
    ∃ opcode i log, Opcode.ofByte opcode = .instruction i ∧
      cpu.accesses .step = .read cpu.registers.pc opcode :: log ∧
      Runs { cpu.registers with pc := cpu.registers.pc + 1 } i log next.registers := by
  have hs := stepped_step cpu
  rw [h] at hs
  generalize cpu.accesses .step = log at hs ⊢
  cases hs with
  | done ho hr => exact ⟨_, _, _, ho, rfl, hr⟩

end

end Cpu

end Nes
