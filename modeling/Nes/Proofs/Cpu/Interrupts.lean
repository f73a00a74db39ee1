import Nes.Proofs.Cpu.Stack

/-!
# Interrupts are undone

An interrupt stores three bytes: the address to go on at, high byte first, and the status. `RTI`
takes them back in the opposite order. A non-maskable interrupt comes between two instructions and
stores the status as it stands; `BRK` skips the byte behind it and stores the status with the break
flag set, and the way back clears the flag for both. So whatever a handler does, if it leaves the
three bytes and the pointer as it found them, the program goes on as though nothing had been.

Results:

* `saved_enterInterrupt`: what an interrupt stores.
* `step_of_rti`: what `RTI` takes back.
* `undoesInterrupts_flat_console`: **on both buses `RTI` undoes an interrupt.**
-/

namespace Nes

namespace Status

theorem ofPulled_bits (p : Status) : ofPulled p.bits = { p with brk := false } := by
  rw [ofPulled, ofBits_bits]

theorem ofPulled_pushedBits (p : Status) : ofPulled p.pushedBits = { p with brk := false } := by
  rw [ofPulled, pushedBits, ofBits_bits]

/-- Bit 5 is set and bit 4 is the break flag. -/
theorem bits_without_brk (p : Status) :
    { p with brk := false }.bits = p.bits &&& ~~~0x10 ||| 0x20 := by
  rcases p with ⟨c, z, i, d, b, v, n⟩
  cases c <;> cases z <;> cases i <;> cases d <;> cases b <;> cases v <;> cases n <;> rfl

end Status

namespace Cpu

section

variable {β : Type} [Bus β]

/-! ## What an interrupt stores -/

/-- The stack holds an address and a status, from the offset down. -/
structure Saved (bus : β) (offset : UInt8) (address : UInt16) (status : UInt8) : Prop where
  high : stackByte bus offset = highByte address
  low : stackByte bus (offset - 1) = lowByte address
  status : stackByte bus (offset - 2) = status

theorem Saved.of_eq {bus bus' : β} {offset status : UInt8} {address : UInt16}
    (h : Saved bus offset address status)
    (hb : ∀ o ∈ [offset, offset - 1, offset - 2], stackByte bus' o = stackByte bus o) :
    Saved bus' offset address status where
  high := (hb _ (by simp)).trans h.high
  low := (hb _ (by simp)).trans h.low
  status := (hb _ (by simp)).trans h.status

variable [StackMemory β] {cpu : Cpu β}

theorem saved_interrupted (address : UInt16) (status : UInt8) (cpu : Cpu β) :
    Saved (cpu.interrupted address status).bus cpu.registers.sp address status := by
  have h₀ (s : UInt8) : s - 1 - 1 = s - 2 := by grind
  have h₁ (s : UInt8) : s - 1 ≠ s := by grind
  have h₂ (s : UInt8) : s - 2 ≠ s := by grind
  have h₃ (s : UInt8) : s - 2 ≠ s - 1 := by grind
  constructor <;> simp [interrupted, StackMemory.stackByte_store, h₀, h₁, h₂, h₃]

theorem saved_enterInterrupt {address vector : UInt16} {status : UInt8} {entered : Cpu β}
    (h : Instruction.enterInterrupt address status vector cpu = .ok () entered) :
    Saved entered.bus cpu.registers.sp address status := by
  have hc := @readCongruence_keeps_stack β _ _
  have hs := Keeps.bind (hc.readWord vector) hc.jump (cpu.interrupted address status)
  rw [enterInterrupt_eq] at h
  rw [h] at hs
  exact (saved_interrupted address status cpu).of_eq fun o _ =>
    congrFun (congrArg StackView.page hs) o

/-- The processor has entered an interrupt and is to go on at an address behind it. -/
inductive Interrupted (cpu : Cpu β) : Cpu β → UInt16 → Prop
  | nmi {entered : Cpu β} (h : nmi cpu = .ok () entered) :
    Interrupted cpu entered cpu.registers.pc
  | brk {entered : Cpu β} (hi : cpu.instruction? = some .brk) (h : step cpu = .ok () entered) :
    Interrupted cpu entered (cpu.registers.pc + 2)

theorem Interrupted.saved {entered : Cpu β} {resume : UInt16}
    (h : Interrupted cpu entered resume) :
    ∃ status, Saved entered.bus cpu.registers.sp resume status ∧
      Status.ofPulled status = { cpu.registers.p with brk := false } := by
  cases h with
  | nmi h =>
    refine ⟨cpu.registers.p.bits, saved_enterInterrupt (enterInterrupt_of_nmi h), ?_⟩
    exact Status.ofPulled_bits _
  | brk hi h =>
    obtain ⟨opcode, hs⟩ := step_of_instruction hi
    have hr := registers_fetched hi
    rw [h] at hs
    cases hc : Instruction.brk.run cpu.fetched with
    | error cause y =>
      rw [hc] at hs
      cases hs
    | ok _ y =>
      rw [hc] at hs
      cases hs
      -- the opcode has been read, and one byte more is skipped
      have hsaved := saved_enterInterrupt (show Instruction.enterInterrupt
        (cpu.fetched.registers.pc + 1) cpu.fetched.registers.p.pushedBits irqVector cpu.fetched =
          .ok () y from hc)
      have hpc : cpu.registers.pc + 1 + 1 = cpu.registers.pc + 2 :=
        UInt16.add_assoc cpu.registers.pc 1 1
      rw [hr, hpc] at hsaved
      exact ⟨_, hsaved, Status.ofPulled_pushedBits _⟩

/-! ## The way back -/

theorem step_of_rti {offset status : UInt8} {address : UInt16}
    (hi : cpu.instruction? = some .rti) (h : Saved cpu.bus offset address status)
    (hsp : cpu.registers.sp = offset - 3) :
    ∃ next, step cpu = .ok () next ∧ next.registers.pc = address ∧ next.registers.sp = offset ∧
      next.registers.p = .ofPulled status := by
  obtain ⟨opcode, hstep⟩ := step_of_instruction hi
  have hr : cpu.fetched.registers.sp = offset - 3 := by rw [registers_fetched hi, hsp]
  have hb (o : UInt8) : stackByte cpu.fetched.bus o = stackByte cpu.bus o :=
    congrFun (congrArg StackView.page cpu.stack_fetched) o
  generalize cpu.fetched = fetched at hstep hr hb
  obtain ⟨r, n, bus⟩ := fetched
  have hr : r.sp = offset - 3 := hr
  have h₁ : r.sp + 1 = offset - 2 := by grind
  have h₂ : r.sp + 1 + 1 = offset - 1 := by grind
  have h₃ : r.sp + 1 + 1 + 1 = offset := by grind
  rw [run_rti] at hstep
  refine ⟨_, hstep, ?_, h₃, ?_⟩
  · show word (stackByte bus (r.sp + 1 + 1)) (stackByte bus (r.sp + 1 + 1 + 1)) = address
    rw [h₃, h₂, hb, hb, h.low, h.high, word_lowByte_highByte]
  · show Status.ofPulled (stackByte bus (r.sp + 1)) = .ofPulled status
    rw [h₁, hb, h.status]

/-- On a bus of this type `RTI` undoes an interrupt: after any run of a handler that has left the
three bytes of the interrupt alone and comes to `RTI` with the pointer below them, the program goes
on where it was interrupted, with the pointer where it was and the status as it was but for the
break flag, which is clear. -/
def UndoesInterrupts (β : Type) [Bus β] [StackMemory β] : Prop :=
  ∀ (cpu entered : Cpu β) (resume : UInt16) (calls : List Call),
    let sp := cpu.registers.sp
    let leaving := entered.afterCalls calls
    Interrupted cpu entered resume →
    (∀ offset ∈ [sp, sp - 1, sp - 2],
      lastWritten (StackMemory.reaches β · offset) (entered.history calls) = none) →
    leaving.instruction? = some .rti → leaving.registers.sp = sp - 3 →
    ∃ next, step leaving = .ok () next ∧ next.registers.pc = resume ∧ next.registers.sp = sp ∧
      next.registers.p = { cpu.registers.p with brk := false } ∧
      next.registers.p.bits = cpu.registers.p.bits &&& ~~~0x10 ||| 0x20

theorem undoesInterrupts (β : Type) [Bus β] [StackMemory β] : UndoesInterrupts β := by
  intro cpu entered resume calls sp leaving hint hw hi hsp
  obtain ⟨status, hsaved, hp⟩ := hint.saved
  have hsaved : Saved leaving.bus sp resume status := by
    exact hsaved.of_eq fun o ho => stackByte_afterCalls entered calls (hw o ho)
  obtain ⟨next, hstep, hpc, hnsp, hnp⟩ := step_of_rti hi hsaved hsp
  refine ⟨next, hstep, hpc, hnsp, hnp.trans hp, ?_⟩
  rw [hnp, hp, Status.bits_without_brk]

end

/-- **Main theorem.** On a flat bus and on the console `RTI` undoes an interrupt, wherever in its
page the stack is. -/
theorem undoesInterrupts_flat_console : UndoesInterrupts FlatBus ∧ UndoesInterrupts Console :=
  ⟨undoesInterrupts FlatBus, undoesInterrupts Console⟩

/-! ## A handler of one instruction -/

theorem nmi_flat (r : Registers) (n : Nat) (bus : FlatBus) :
    let entered := ((bus.poke (stackAddress r.sp) (highByte r.pc)).poke (stackAddress (r.sp - 1))
      (lowByte r.pc)).poke (stackAddress (r.sp - 1 - 1)) r.p.bits
    nmi ⟨r, n, bus⟩ = .ok ()
      ⟨{ r with
          sp := r.sp - 1 - 1 - 1
          pc := Bus.peekWord entered nmiVector
          p := { r.p with interrupt := true } }, n, entered⟩ :=
  rfl

/-- Memory full of `NOP`, with an `RTI` behind the one that the vectors lead to. -/
def handlerBus : FlatBus := FlatBus.poke ⟨.replicate 0x10000 0xEA⟩ 0xEAEB 0x40

/-- That memory with three bytes on its stack. -/
def enteredBus : FlatBus := ((handlerBus.poke 0x0101 0x03).poke 0x0100 0x00).poke 0x01FF 0x34

/-- A program in that memory, with a stack that is about to wrap. -/
def interruptedProgram : Cpu FlatBus := ⟨{ pc := 0x0300, sp := 0x01 }, 0, handlerBus⟩

/-- The program with its handler entered. -/
def enteredHandler : Cpu FlatBus := ⟨{ pc := 0xEAEA, sp := 0xFE }, 0, enteredBus⟩

/-- The handler about to return. -/
def leavingHandler : Cpu FlatBus := ⟨{ pc := 0xEAEB, sp := 0xFE }, 1, enteredBus⟩

theorem peek_enteredBus {a : UInt16} (h : 0x0200 ≤ a) :
    enteredBus.peek a = if 0xEAEB = a then 0x40 else 0xEA := by
  have hne {b : UInt16} (hb : b < 0x0200) : b ≠ a := by
    rintro rfl
    exact absurd hb (UInt16.not_lt.2 h)
  simp only [enteredBus, handlerBus]
  rw [FlatBus.peek_poke_of_ne _ (hne (by decide)), FlatBus.peek_poke_of_ne _ (hne (by decide)),
    FlatBus.peek_poke_of_ne _ (hne (by decide)), FlatBus.peek_poke]
  simp only [FlatBus.peek, Fin.getElem_fin, Vector.getElem_replicate]

theorem nmi_interruptedProgram : nmi interruptedProgram = .ok () enteredHandler := by
  have hv : Bus.peekWord enteredBus nmiVector = 0xEAEA := by
    show word (enteredBus.peek 0xFFFA) (enteredBus.peek 0xFFFB) = 0xEAEA
    rw [peek_enteredBus (by decide), peek_enteredBus (by decide)]
    decide
  have h₁ : stackAddress 0x01 = 0x0101 := by decide
  have h₂ : stackAddress (0x01 - 1) = 0x0100 := by decide
  have h₃ : stackAddress (0x01 - 1 - 1) = 0x01FF := by decide
  have hhi : highByte 0x0300 = 0x03 := by decide
  have hlo : lowByte 0x0300 = 0x00 := by decide
  have hp : Status.bits { interrupt := true, brk := true } = 0x34 := by decide
  rw [interruptedProgram, nmi_flat]
  simp only [h₁, h₂, h₃, hhi, hlo, hp]
  rw [← enteredBus, hv]
  rfl

theorem instruction?_flat {cpu : Cpu FlatBus} {opcode : UInt8} {i : Instruction}
    (h : cpu.bus.peek cpu.registers.pc = opcode) (ho : Opcode.ofByte opcode = .instruction i) :
    cpu.instruction? = some i := by
  simp only [instruction?, fetch_eq, Bus.read, h, ho]

theorem step_nop_flat {r : Registers} {bus : FlatBus} (h : bus.peek r.pc = 0xEA) (n : Nat) :
    accesses ⟨r, n, bus⟩ .step = [.read r.pc 0xEA] ∧
      step ⟨r, n, bus⟩ = .ok () ⟨{ r with pc := r.pc + 1 }, n + 1, bus⟩ := by
  have hop : Opcode.ofByte 0xEA = .instruction (.nop .implied) := by decide
  constructor
  · simp only [accesses, perform, step_eq, fetch_eq, watched, Bus.read, h, hop]
    rfl
  · simp only [step_eq, fetch_eq, Bus.read, h, hop]
    rfl

theorem undoesInterrupts_program :
    nmi interruptedProgram = .ok () enteredHandler ∧
      ∃ next, step (enteredHandler.afterCalls [.step]) = .ok () next ∧
        next.registers.pc = 0x0300 ∧ next.registers.sp = 0x01 ∧
        next.registers.p = { interrupt := true } := by
  have hnop : enteredBus.peek 0xEAEA = 0xEA := peek_enteredBus (by decide)
  have hrti : enteredBus.peek 0xEAEB = 0x40 := peek_enteredBus (by decide)
  obtain ⟨hw, hs⟩ := step_nop_flat (r := enteredHandler.registers) hnop 0
  have hw : enteredHandler.accesses .step = [.read 0xEAEA 0xEA] := hw
  have hs : step enteredHandler = .ok () leavingHandler := hs
  have hl : enteredHandler.afterCalls [.step] = leavingHandler := by
    rw [afterCalls_cons, perform, hs]
    rfl
  have hi : leavingHandler.instruction? = some .rti := instruction?_flat hrti (by decide)
  have hspares : ∀ offset ∈ [(0x01 : UInt8), 0x01 - 1, 0x01 - 2],
      lastWritten (StackMemory.reaches FlatBus · offset) (enteredHandler.history [.step])
        = none := by
    intro offset _
    rw [history, hw, history, List.append_nil]
    rfl
  refine ⟨nmi_interruptedProgram, ?_⟩
  obtain ⟨next, hn, hpc, hsp, hp, -⟩ := undoesInterrupts_flat_console.1 interruptedProgram
    enteredHandler _ [.step] (.nmi nmi_interruptedProgram) hspares (hl ▸ hi) (hl ▸ rfl)
  exact ⟨next, hn, hpc, hsp, hp⟩

end Cpu

end Nes
