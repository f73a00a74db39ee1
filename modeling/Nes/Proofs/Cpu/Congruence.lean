import Nes.Cpu.Execution

/-!
# Congruences of processors

Whatever a processor does is put together from six things: to end with a value, to go on after
something else, to look at the registers, to change them, to read and to write. So a relation
between the actions of two processors that these respect, the two on buses of whatever kinds, holds
between everything that the one does and the same thing done by the other. What buses do to each
other's processors is thereby a matter of single accesses.

Most instructions have no business with the stack. What they are put together from does not move the
stack pointer, and finding an operand neither writes nor changes any register but the program
counter, so less has to be respected for these.

Results:

* `SeekCongruence.resolve`: modes.
* `StackCongruence.pushWord`, `StackCongruence.pullWord`: the moves of the stack.
* `QuietCongruence.instruction_of_quiet`: every instruction that leaves the stack alone.
* `Congruence.enterInterrupt`, `Congruence.instruction`: interrupts, and every instruction.
-/

namespace Nes

/-! ## Instructions and the stack -/

namespace Instruction

/-- The instruction stores bytes on the stack. -/
def pushes : Instruction → Bool
  | stack .pha | stack .php | jsr | brk => true
  | _ => false

/-- The instruction takes bytes from the stack. -/
def pulls : Instruction → Bool
  | stack .pla | stack .plp | rts | rti => true
  | _ => false

/-- The instruction neither uses the stack nor moves the stack pointer. -/
def isQuiet (i : Instruction) : Bool := !i.pushes && !i.pulls && i != register .txs

end Instruction

theorem ReadOp.sp_apply (op : ReadOp) (v : UInt8) (r : Registers) :
    (op.apply v r).sp = r.sp := by
  cases op <;> rfl

/-- `TXS` alone moves the stack pointer from another register. -/
theorem RegisterOp.sp_apply {op : RegisterOp} (h : op ≠ .txs) (r : Registers) :
    (op.apply r).sp = r.sp := by
  cases op <;> first
    | rfl
    | exact absurd rfl h

namespace Cpu

variable {β γ : Type} [Bus β] [Bus γ]

/-- A relation between actions of two processors that everything respects which only reads and
changes no register but the program counter. -/
structure SeekCongruence (R : (α : Type) → Action β α → Action γ α → Prop) : Prop where
  pure {α : Type} (value : α) : R α (pure value) (pure value)
  bind {α δ : Type} {x : Action β α} {y : Action γ α} {f : α → Action β δ} {g : α → Action γ δ} :
    R α x y → (∀ value, R δ (f value) (g value)) → R δ (x >>= f) (y >>= g)
  getRegisters : R Registers getRegisters getRegisters
  move (f : UInt16 → UInt16) :
    R Unit (update fun r => { r with pc := f r.pc }) (update fun r => { r with pc := f r.pc })
  read (address : UInt16) : R UInt8 (read address) (read address)

/-- Such a relation that writing and moving the stack pointer respect, too. -/
structure StackCongruence (R : (α : Type) → Action β α → Action γ α → Prop) : Prop
    extends SeekCongruence R where
  write (address : UInt16) (value : UInt8) : R Unit (write address value) (write address value)
  shift (f : UInt8 → UInt8) :
    R Unit (update fun r => { r with sp := f r.sp }) (update fun r => { r with sp := f r.sp })

/-- A relation between actions of two processors that everything respects which only reads and
leaves the stack pointer alone. -/
structure ReadCongruence (R : (α : Type) → Action β α → Action γ α → Prop) : Prop where
  pure {α : Type} (value : α) : R α (pure value) (pure value)
  bind {α δ : Type} {x : Action β α} {y : Action γ α} {f : α → Action β δ} {g : α → Action γ δ} :
    R α x y → (∀ value, R δ (f value) (g value)) → R δ (x >>= f) (y >>= g)
  getRegisters : R Registers getRegisters getRegisters
  adjust (f : Registers → Registers) (hf : ∀ r, (f r).sp = r.sp) : R Unit (update f) (update f)
  read (address : UInt16) : R UInt8 (read address) (read address)

/-- Such a relation that writing respects, too. -/
structure QuietCongruence (R : (α : Type) → Action β α → Action γ α → Prop) : Prop
    extends ReadCongruence R where
  write (address : UInt16) (value : UInt8) : R Unit (write address value) (write address value)

/-- A relation that everything respects from which actions are put together. -/
structure Congruence (R : (α : Type) → Action β α → Action γ α → Prop) : Prop
    extends QuietCongruence R where
  update (f : Registers → Registers) : R Unit (update f) (update f)

namespace SeekCongruence

variable {R : (α : Type) → Action β α → Action γ α → Prop} (h : SeekCongruence R)

include h

theorem jump (address : UInt16) : R Unit (jump address) (jump address) :=
  h.move fun _ => address

theorem readWord (address : UInt16) : R UInt16 (readWord address) (readWord address) := by
  refine h.bind (h.read address) fun lo => ?_
  refine h.bind (h.read (address + 1)) fun hi => ?_
  exact h.pure (word lo hi)

theorem fetch : R UInt8 fetch fetch := by
  refine h.bind h.getRegisters fun r => ?_
  refine h.bind (h.read r.pc) fun value => ?_
  refine h.bind (h.move (· + 1)) fun _ => ?_
  exact h.pure value

theorem fetchWord : R UInt16 fetchWord fetchWord := by
  refine h.bind h.fetch fun lo => ?_
  refine h.bind h.fetch fun hi => ?_
  exact h.pure (word lo hi)

theorem readPointer (pointer : UInt16) : R UInt16 (readPointer pointer) (readPointer pointer) := by
  refine h.bind (h.read pointer) fun lo => ?_
  refine h.bind (h.read (nextInPage pointer)) fun hi => ?_
  exact h.pure (word lo hi)

theorem resolve (mode : AddressMode) : R UInt16 (resolve mode) (resolve mode) := by
  have hr {α : Type} {f : Registers → Action β α} {g : Registers → Action γ α}
      (hf : ∀ r, R α (f r) (g r)) : R α (Cpu.getRegisters >>= f) (Cpu.getRegisters >>= g) :=
    h.bind h.getRegisters hf
  cases mode with
  | immediate => exact hr fun r => h.bind (h.jump _) fun _ => h.pure r.pc
  | zeroPage => exact h.bind h.fetch fun offset => h.pure offset.toUInt16
  | zeroPageX => exact h.bind h.fetch fun offset => hr fun r => h.pure _
  | zeroPageY => exact h.bind h.fetch fun offset => hr fun r => h.pure _
  | absolute => exact h.fetchWord
  | absoluteX => exact h.bind h.fetchWord fun base => hr fun r => h.pure _
  | absoluteY => exact h.bind h.fetchWord fun base => hr fun r => h.pure _
  | indirect => exact h.bind h.fetchWord fun pointer => h.readPointer pointer
  | indirectX => exact h.bind h.fetch fun pointer => hr fun r => h.readPointer _
  | indirectY =>
    refine h.bind h.fetch fun pointer => ?_
    refine h.bind (h.readPointer _) fun base => ?_
    exact hr fun r => h.pure _
  | relative => exact h.bind h.fetch fun offset => hr fun r => h.pure _

theorem skipOperand (mode : Mode) : R Unit (skipOperand mode) (skipOperand mode) := by
  cases mode with
  | implied => exact h.pure ()
  | accumulator => exact h.pure ()
  | address mode => exact h.bind (h.resolve mode) fun _ => h.pure ()

end SeekCongruence

namespace StackCongruence

variable {R : (α : Type) → Action β α → Action γ α → Prop} (h : StackCongruence R)

include h

theorem push (value : UInt8) : R Unit (push value) (push value) := by
  refine h.bind h.getRegisters fun r => ?_
  refine h.bind (h.write (stackAddress r.sp) value) fun _ => ?_
  exact h.shift (· - 1)

theorem pull : R UInt8 pull pull := by
  refine h.bind (h.shift (· + 1)) fun _ => ?_
  refine h.bind h.getRegisters fun r => ?_
  exact h.read (stackAddress r.sp)

theorem pushWord (w : UInt16) : R Unit (pushWord w) (pushWord w) :=
  h.bind (h.push (highByte w)) fun _ => h.push (lowByte w)

theorem pullWord : R UInt16 pullWord pullWord := by
  refine h.bind h.pull fun lo => ?_
  refine h.bind h.pull fun hi => ?_
  exact h.pure (word lo hi)

end StackCongruence

namespace ReadCongruence

variable {R : (α : Type) → Action β α → Action γ α → Prop} (h : ReadCongruence R)

include h

/-- What a relation has for reading it has for seeking. -/
theorem seek : SeekCongruence R where
  pure := h.pure
  bind := h.bind
  getRegisters := h.getRegisters
  move _ := h.adjust _ fun _ => rfl
  read := h.read

theorem jump (address : UInt16) : R Unit (jump address) (jump address) := h.seek.jump address

theorem readWord (address : UInt16) : R UInt16 (readWord address) (readWord address) :=
  h.seek.readWord address

theorem fetch : R UInt8 fetch fetch := h.seek.fetch

theorem fetchWord : R UInt16 fetchWord fetchWord := h.seek.fetchWord

theorem resolve (mode : AddressMode) : R UInt16 (resolve mode) (resolve mode) :=
  h.seek.resolve mode

end ReadCongruence

namespace QuietCongruence

variable {R : (α : Type) → Action β α → Action γ α → Prop} (h : QuietCongruence R)

include h

/-- The byte is read, and written back before the flags are used. -/
theorem modifyAt (op : ModifyOp) (address : UInt16) :
    R UInt8 (Instruction.modifyAt op address) (Instruction.modifyAt op address) := by
  refine h.bind (h.read address) fun old => ?_
  refine h.bind h.getRegisters fun r => ?_
  refine h.bind (h.adjust _ fun _ => rfl) fun _ => ?_
  refine h.bind (h.write address _) fun _ => ?_
  exact h.pure _

/-- Instructions that leave the stack pointer alone are made of the steps of a seek. -/
theorem instruction_of_quiet {i : Instruction} (hi : i.isQuiet = true) : R Unit i.run i.run := by
  cases i with
  | read op mode =>
    refine h.bind (h.resolve mode) fun address => ?_
    exact h.bind (h.read address) fun value => h.adjust _ (op.sp_apply value)
  | write op mode =>
    refine h.bind (h.resolve mode) fun address => ?_
    exact h.bind h.getRegisters fun r => h.write address _
  | modify op mode =>
    refine h.bind (h.resolve mode) fun address => ?_
    exact h.bind (h.modifyAt op address) fun _ => h.pure ()
  | modifyA op => exact h.adjust _ fun _ => rfl
  | combined op mode =>
    refine h.bind (h.resolve mode) fun address => ?_
    exact h.bind (h.modifyAt op.first address) fun value => h.adjust _ (op.second.sp_apply value)
  | register op =>
    have hop : op ≠ .txs := by
      rintro rfl
      cases hi
    exact h.adjust _ (RegisterOp.sp_apply hop)
  | branch condition =>
    refine h.bind (h.resolve .relative) fun target => ?_
    refine h.bind h.getRegisters fun r => ?_
    by_cases hc : condition.holds r.p = true
    · rw [if_pos hc, if_pos hc]
      exact h.jump target
    · rw [if_neg hc, if_neg hc]
      exact h.pure ()
  | jmp mode => exact h.bind (h.resolve mode) fun target => h.jump target
  | nop mode => exact h.seek.skipOperand mode
  | stack op => cases op <;> cases hi
  | jsr => cases hi
  | rts => cases hi
  | rti => cases hi
  | brk => cases hi

end QuietCongruence

namespace Congruence

variable {R : (α : Type) → Action β α → Action γ α → Prop} (h : Congruence R)

include h

theorem stack : StackCongruence R where
  toSeekCongruence := h.seek
  write := h.write
  shift _ := h.update _

theorem push (value : UInt8) : R Unit (push value) (push value) := h.stack.push value

theorem pull : R UInt8 pull pull := h.stack.pull

theorem pushWord (w : UInt16) : R Unit (pushWord w) (pushWord w) := h.stack.pushWord w

theorem pullWord : R UInt16 pullWord pullWord := h.stack.pullWord

/-- An interrupt is three pushes and a read of the vector. -/
theorem enterInterrupt (returnAddress : UInt16) (status : UInt8) (vector : UInt16) :
    R Unit (Instruction.enterInterrupt returnAddress status vector)
      (Instruction.enterInterrupt returnAddress status vector) := by
  refine h.bind (h.pushWord returnAddress) fun _ => ?_
  refine h.bind (h.push status) fun _ => ?_
  refine h.bind (h.update _) fun _ => ?_
  exact h.bind (h.readWord vector) fun target => h.jump target

theorem runStack (op : StackOp) :
    R Unit (Instruction.runStack op) (Instruction.runStack op) := by
  cases op with
  | pha => exact h.bind h.getRegisters fun r => h.push r.a
  | php => exact h.bind h.getRegisters fun r => h.push r.p.pushedBits
  | pla => exact h.bind h.pull fun value => h.update _
  | plp => exact h.bind h.pull fun value => h.update _

/-- **All instructions**, from the steps that they are made of. -/
theorem instruction (i : Instruction) : R Unit i.run i.run := by
  cases i with
  | register op => exact h.update _
  | stack op => exact h.runStack op
  | jsr =>
    refine h.bind (h.resolve .absolute) fun target => ?_
    refine h.bind h.getRegisters fun r => ?_
    exact h.bind (h.pushWord _) fun _ => h.jump target
  | rts => exact h.bind h.pullWord fun target => h.jump _
  | rti =>
    refine h.bind h.pull fun status => ?_
    refine h.bind (h.update _) fun _ => ?_
    exact h.bind h.pullWord fun target => h.jump target
  | brk => exact h.bind h.getRegisters fun r => h.enterInterrupt _ _ _
  | _ => exact h.instruction_of_quiet rfl

end Congruence

end Cpu

end Nes
