import Nes.Bus.Flat
import Nes.Proofs.Console.Memory
import Nes.Proofs.Cpu.Calls

/-!
# The page of the stack

What the processor needs of a bus for its stack is one page of memory: what is stored there is read
back, and a byte of it changes only when something is written to an address that reaches the byte.
A flat bus and the console both have such a page, and so has a recorder around either. On such a bus
pushes and pulls never fail, and what they do can be said in full.

Results:

* `push_eq`, `pull_eq`, `pushWord_eq`, `pullWord_eq`: the moves of the stack.
* `stackByte_perform`, `stackByte_afterCalls`: calls that write to no address of a byte leave it.
-/

namespace Nes

open Cpu (stackAddress)

/-! ## Buses with a page for the stack -/

/-- What a bus shows at an offset into the page of the stack. -/
def stackByte {β : Type} [Bus β] (bus : β) (offset : UInt8) : UInt8 :=
  Bus.peek bus (stackAddress offset)

/-- A bus whose page of the stack is memory. -/
class StackMemory (β : Type) [Bus β] where
  /-- The bus after its stack was read at an offset. -/
  look : β → UInt8 → β
  /-- The bus after a byte was stored in its stack at an offset. -/
  store : β → UInt8 → UInt8 → β
  /-- What is written to the address ends up in the stack, at the offset. -/
  reaches : UInt16 → UInt8 → Bool
  read_stack (bus : β) (offset : UInt8) :
    Bus.read (stackAddress offset) bus = .ok (stackByte bus offset) (look bus offset)
  write_stack (bus : β) (offset value : UInt8) :
    Bus.write (stackAddress offset) value bus = .ok () (store bus offset value)
  stackByte_store (bus : β) (offset value other : UInt8) :
    stackByte (store bus offset value) other = if offset = other then value else stackByte bus other
  stackByte_read (bus : β) (address : UInt16) (offset : UInt8) :
    stackByte (final (Bus.read address bus)) offset = stackByte bus offset
  stackByte_write (bus : β) (address : UInt16) (value offset : UInt8)
    (h : ∀ bus', Bus.write address value bus = .ok () bus' → reaches address offset = false) :
    stackByte (final (Bus.write address value bus)) offset = stackByte bus offset

theorem StackMemory.stackByte_look {β : Type} [Bus β] [StackMemory β] (bus : β)
    (offset other : UInt8) : stackByte (look bus offset) other = stackByte bus other := by
  have h := stackByte_read bus (stackAddress offset) other
  rwa [read_stack] at h

/-- The stack is in page 1. -/
theorem stackAddress_toNat (offset : UInt8) :
    (stackAddress offset).toNat = 0x100 + offset.toNat := by
  have h := offset.toNat_lt
  simp only [stackAddress, stackBase, UInt16.toNat_add, UInt8.toNat_toUInt16,
    UInt16.reduceToNat]
  omega

/-- Different offsets are different addresses. -/
theorem stackAddress_inj {offset other : UInt8} :
    stackAddress offset = stackAddress other ↔ offset = other := by
  rw [← UInt16.toNat_inj, ← UInt8.toNat_inj, stackAddress_toNat, stackAddress_toNat]
  omega

/-- Page 1 of the memory itself. -/
instance : StackMemory FlatBus where
  look bus _ := bus
  store bus offset value := bus.poke (stackAddress offset) value
  reaches address offset := address == stackAddress offset
  read_stack _ _ := rfl
  write_stack _ _ _ := rfl
  stackByte_store bus offset value other := by
    show (bus.poke _ value).peek _ = _
    rw [FlatBus.peek_poke]
    simp only [stackAddress_inj]
    rfl
  stackByte_read _ _ _ := rfl
  stackByte_write bus address value offset h :=
    bus.peek_poke_of_ne (ne_of_beq_false (h _ rfl)) value

namespace Console

theorem stackAddress_lt (offset : UInt8) : stackAddress offset < 0x2000 := by
  have h := offset.toNat_lt
  simp only [UInt16.lt_iff_toNat_lt, stackAddress_toNat, UInt16.reduceToNat]
  omega

theorem ofAddress_stackAddress (offset : UInt8) :
    Region.ofAddress (stackAddress offset) = .ram :=
  (Region.ofAddress_eq_ram_iff _).2 (stackAddress_lt offset)

/-- No two bytes of the stack are mirrors of each other. -/
theorem sameRam_stackAddress {offset other : UInt8} :
    sameRam (stackAddress other) (stackAddress offset) = true ↔ offset = other := by
  have h₁ := offset.toNat_lt
  have h₂ := other.toNat_lt
  simp only [sameRam, stackAddress_lt, decide_true, Bool.true_and, beq_iff_eq, stackAddress_toNat,
    ← UInt8.toNat_inj]
  omega

end Console

/-- Page 1 of internal memory, which is reached at every mirror of it. -/
instance : StackMemory Console where
  look console _ := console
  store console offset value :=
    { console with
      ram := console.ram.set (Console.ramOffset (stackAddress offset)) value
        (Console.ramOffset (stackAddress offset)).isLt }
  reaches address offset := Console.sameRam (stackAddress offset) address
  read_stack console offset := Console.read_of_ram (Console.ofAddress_stackAddress offset) console
  write_stack console offset value :=
    Console.write_of_ram (Console.ofAddress_stackAddress offset) value console
  stackByte_store console offset value other := by
    show Console.peek _ _ = _
    rw [Console.peek_set_ram (Console.stackAddress_lt offset)]
    simp only [Console.sameRam_stackAddress, Console.stackAddress_lt, and_true]
    rfl
  stackByte_read console address offset :=
    (Console.read_keepsMemory address console).peek_ram (Console.stackAddress_lt offset)
  stackByte_write console address value offset h := by
    refine Console.peek_write_of_not_sameRam (Console.stackAddress_lt offset) ?_ value console
    cases hs : Console.sameRam (stackAddress offset) address with
    | false => rfl
    | true =>
      -- a write that could reach memory goes through
      have hram := (Region.ofAddress_eq_ram_iff address).2 (Console.lt_ram_of_sameRam hs)
      exact hs.symm.trans (h _ (Console.write_of_ram hram value console))

/-- The stack of the bus inside, with its accesses noted. -/
instance {β : Type} [Bus β] [StackMemory β] : StackMemory (Recorder β) where
  look recorder offset :=
    ⟨StackMemory.look recorder.bus offset,
      recorder.accesses.push (.read (stackAddress offset) (stackByte recorder.bus offset))⟩
  store recorder offset value :=
    ⟨StackMemory.store recorder.bus offset value,
      recorder.accesses.push (.write (stackAddress offset) value)⟩
  reaches := StackMemory.reaches β
  read_stack recorder offset := by
    simp only [Bus.read, StackMemory.read_stack]
    rfl
  write_stack recorder offset value := by
    simp only [Bus.write, StackMemory.write_stack]
  stackByte_store recorder offset value other :=
    StackMemory.stackByte_store recorder.bus offset value other
  stackByte_read recorder address offset := by
    refine Eq.trans ?_ (StackMemory.stackByte_read recorder.bus address offset)
    simp only [Bus.read]
    cases Bus.read address recorder.bus <;> rfl
  stackByte_write recorder address value offset h := by
    refine Eq.trans ?_ (StackMemory.stackByte_write recorder.bus address value offset ?_)
    · simp only [Bus.write]
      cases Bus.write address value recorder.bus <;> rfl
    · intro bus hc
      refine h ⟨bus, recorder.accesses.push (.write address value)⟩ ?_
      simp only [Bus.write, hc]

/-! ## What is not written stays -/

/-- The recorder is around the bus, whose stack holds `value` at an offset unless one of the
accesses wrote there. -/
structure Recorder.Spares {β : Type} [Bus β] [StackMemory β] (offset value : UInt8)
    (recorder : Recorder β) (bus : β) : Prop where
  around : recorder.bus = bus
  kept (h : lastWritten (StackMemory.reaches β · offset) recorder.accesses.toList = none) :
    stackByte bus offset = value

/-- Accesses that do not write to a byte of the stack leave it as it is. -/
theorem Recorder.simulation_spares (β : Type) [Bus β] [StackMemory β] (offset value : UInt8) :
    Bus.Simulation (@Recorder.Spares β _ _ offset value) where
  read address := by
    rintro ⟨bus, log⟩ _ ⟨rfl, h⟩
    have hb := StackMemory.stackByte_read bus address offset
    simp only [Bus.read]
    cases hc : Bus.read address bus with
    | ok byte bus' =>
      rw [hc] at hb
      refine .ok byte ⟨rfl, fun hw => hb.trans (h ?_)⟩
      rw [Array.toList_push, lastWritten_append] at hw
      exact (Option.or_eq_none_iff.1 hw).2
    | error cause bus' =>
      rw [hc] at hb
      refine .error cause ⟨rfl, fun hw => hb.trans (h ?_)⟩
      rw [Array.toList_push, lastWritten_append] at hw
      exact (Option.or_eq_none_iff.1 hw).2
  write address byte := by
    rintro ⟨bus, log⟩ _ ⟨rfl, h⟩
    have hb := StackMemory.stackByte_write bus address byte offset
    simp only [Bus.write]
    cases hc : Bus.write address byte bus with
    | ok _ bus' =>
      rw [hc] at hb
      refine .ok () ⟨rfl, fun hw => ?_⟩
      rw [Array.toList_push, lastWritten_append, Option.or_eq_none_iff] at hw
      refine (hb fun _ _ => ?_).trans (h hw.2)
      have hw := hw.1
      simp only [Access.written?] at hw
      split at hw
      next => cases hw
      next hr => exact eq_false_of_ne_true hr
    | error cause bus' =>
      rw [hc] at hb
      refine .error cause ⟨rfl, fun hw => ?_⟩
      rw [Array.toList_push, lastWritten_append] at hw
      refine (hb fun _ he => ?_).trans (h (Option.or_eq_none_iff.1 hw).2)
      cases he

namespace Cpu

section

variable {β : Type} [Bus β] [StackMemory β]

/-- So does a call whose accesses do not. -/
theorem stackByte_perform (cpu : Cpu β) (call : Call) {offset : UInt8}
    (h : lastWritten (StackMemory.reaches β · offset) (cpu.accesses call) = none) :
    stackByte (final (perform call cpu)).bus offset = stackByte cpu.bus offset := by
  obtain ⟨n, hr⟩ := (agree_perform (Recorder.simulation_spares β offset (stackByte cpu.bus offset))
    call ⟨cpu.instructions, rfl, rfl, rfl, rfl, fun _ => rfl⟩ :
      Agree _ (perform call cpu.watched) (perform call cpu)).final
  exact hr.bus.kept h

theorem stackByte_afterCalls (cpu : Cpu β) (calls : List Call) {offset : UInt8}
    (h : lastWritten (StackMemory.reaches β · offset) (cpu.history calls) = none) :
    stackByte (cpu.afterCalls calls).bus offset = stackByte cpu.bus offset := by
  induction calls generalizing cpu with
  | nil => rfl
  | cons call rest ih =>
    rw [history, lastWritten_append_log, Option.or_eq_none_iff] at h
    exact (ih _ h.1).trans (stackByte_perform cpu call h.2)

end

/-! ## What an action keeps -/

/-- Whatever comes of the action, `f` says of the processor what it said before. -/
def Keeps {β α τ : Type} (f : Cpu β → τ) (x : Action β α) : Prop :=
  ∀ cpu, f (final (x cpu)) = f cpu

section

variable {β τ : Type} {f : Cpu β → τ}

theorem Keeps.bind {α δ : Type} {x : Action β α} {g : α → Action β δ} (hx : Keeps f x)
    (hg : ∀ value, Keeps f (g value)) : Keeps f (x >>= g) := by
  intro cpu
  have h := hx cpu
  show f (final (EStateM.bind x g cpu)) = f cpu
  unfold EStateM.bind
  cases hc : x cpu with
  | error cause cpu' =>
    rw [hc] at h
    exact h
  | ok value cpu' =>
    rw [hc] at h
    exact (hg value cpu').trans h

theorem after_eq_final {ε α : Type} (result : EStateM.Result ε (Cpu β) α) :
    after result = final result := by
  cases result <;> rfl

variable [Bus β]

/-- What reads and register updates keep, everything made of them keeps. -/
theorem readCongruence_keeps
    (ha : ∀ g : Registers → Registers, (∀ r, (g r).sp = r.sp) → Keeps f (update g))
    (hr : ∀ address, Keeps f (read address)) :
    @ReadCongruence β β _ _ fun _ x _ => Keeps f x where
  pure _ _ := rfl
  bind := .bind
  getRegisters _ := rfl
  adjust := ha
  read := hr

theorem keeps_registers_read (address : UInt16) :
    Keeps (fun cpu : Cpu β => cpu.registers) (read address) := by
  intro cpu
  have h := (read_registers address cpu).1
  rwa [after_eq_final] at h

theorem keeps_registers_write (address : UInt16) (value : UInt8) :
    Keeps (fun cpu : Cpu β => cpu.registers) (write address value) := by
  intro cpu
  have h := (write_registers address value cpu).1
  rwa [after_eq_final] at h

/-- What `f` says of the registers and the count of instructions, it says whatever the program
counter and the stack pointer are. -/
structure Settled (f : Registers → Nat → τ) : Prop where
  moved (r : Registers) (n : Nat) (address : UInt16) : f { r with pc := address } n = f r n
  shifted (r : Registers) (n : Nat) (offset : UInt8) : f { r with sp := offset } n = f r n

/-- The stack's own steps keep what does not depend on the stack pointer. -/
theorem stackCongruence_keeps {g : Registers → Nat → τ} (hg : Settled g) :
    @StackCongruence β β _ _ fun _ x _ =>
      Keeps (fun cpu => g cpu.registers cpu.instructions) x where
  pure _ _ := rfl
  bind := .bind
  getRegisters _ := rfl
  move _ cpu := hg.moved cpu.registers cpu.instructions _
  read address cpu := by
    have h := read_registers address cpu
    rw [after_eq_final] at h
    show g (final (read address cpu)).registers (final (read address cpu)).instructions = _
    rw [h.1, h.2]
  write address value cpu := by
    have h := write_registers address value cpu
    rw [after_eq_final] at h
    show g (final (write address value cpu)).registers
      (final (write address value cpu)).instructions = _
    rw [h.1, h.2]
  shift _ cpu := hg.shifted cpu.registers cpu.instructions _

theorem quietCongruence_keeps_sp :
    @QuietCongruence β β _ _ fun _ x _ => Keeps (fun cpu => cpu.registers.sp) x where
  toReadCongruence := readCongruence_keeps (fun _ hg cpu => hg cpu.registers) fun address cpu =>
    congrArg Registers.sp (keeps_registers_read address cpu)
  write address value cpu := congrArg Registers.sp (keeps_registers_write address value cpu)

end

section

variable {β : Type} [Bus β] [StackMemory β]

theorem stackByte_read (address : UInt16) (offset : UInt8) :
    Keeps (fun cpu : Cpu β => stackByte cpu.bus offset) (read address) := by
  rintro ⟨registers, instructions, bus⟩
  have h := StackMemory.stackByte_read bus address offset
  simp only [read]
  cases hc : Bus.read address bus with
  | error cause bus' =>
    rw [hc] at h
    exact h
  | ok value bus' =>
    rw [hc] at h
    exact h

end

/-! ## The moves of the stack -/

section

variable {β : Type} [Bus β] [StackMemory β] (r : Registers) (n : Nat) (bus : β)

open StackMemory (look store stackByte_look)

/-- A push goes through on such a bus. -/
theorem push_eq (value : UInt8) :
    push value ⟨r, n, bus⟩ = .ok () ⟨{ r with sp := r.sp - 1 }, n, store bus r.sp value⟩ := by
  simp only [push, bind, EStateM.bind, getRegisters, write, StackMemory.write_stack]
  rfl

/-- So does a pull. -/
theorem pull_eq :
    pull ⟨r, n, bus⟩ = .ok (stackByte bus (r.sp + 1))
      ⟨{ r with sp := r.sp + 1 }, n, look bus (r.sp + 1)⟩ := by
  simp only [pull, bind, EStateM.bind, getRegisters, update, read, StackMemory.read_stack]

theorem pushWord_eq (w : UInt16) :
    pushWord w ⟨r, n, bus⟩ = .ok () ⟨{ r with sp := r.sp - 1 - 1 }, n,
      store (store bus r.sp (highByte w)) (r.sp - 1) (lowByte w)⟩ := by
  simp only [pushWord, bind, EStateM.bind, push_eq]

theorem pullWord_eq :
    pullWord ⟨r, n, bus⟩ =
      .ok (word (stackByte bus (r.sp + 1)) (stackByte bus (r.sp + 1 + 1)))
        ⟨{ r with sp := r.sp + 1 + 1 }, n, look (look bus (r.sp + 1)) (r.sp + 1 + 1)⟩ := by
  simp only [pullWord, bind, EStateM.bind, pull_eq, stackByte_look]
  rfl

theorem run_rti :
    Instruction.rti.run ⟨r, n, bus⟩ = .ok ()
      ⟨{ r with
          sp := r.sp + 1 + 1 + 1
          p := .ofPulled (stackByte bus (r.sp + 1))
          pc := word (stackByte bus (r.sp + 1 + 1)) (stackByte bus (r.sp + 1 + 1 + 1)) },
        n, look (look (look bus (r.sp + 1)) (r.sp + 1 + 1)) (r.sp + 1 + 1 + 1)⟩ := by
  simp only [Instruction.run, bind, EStateM.bind, pull_eq, update, pullWord_eq, stackByte_look]
  rfl

/-- The processor with the return address and the status on its stack and interrupts disabled. -/
def interrupted (returnAddress : UInt16) (status : UInt8) (cpu : Cpu β) : Cpu β where
  registers := { cpu.registers with
    sp := cpu.registers.sp - 1 - 1 - 1
    p := { cpu.registers.p with interrupt := true } }
  instructions := cpu.instructions
  bus := store (store (store cpu.bus cpu.registers.sp (highByte returnAddress))
    (cpu.registers.sp - 1) (lowByte returnAddress)) (cpu.registers.sp - 1 - 1) status

/-- An interrupt has pushed its bytes before it can fail. -/
theorem enterInterrupt_eq (returnAddress : UInt16) (status : UInt8) (vector : UInt16)
    (cpu : Cpu β) :
    Instruction.enterInterrupt returnAddress status vector cpu =
      (readWord vector >>= jump) (cpu.interrupted returnAddress status) := by
  obtain ⟨r, n, bus⟩ := cpu
  simp only [Instruction.enterInterrupt, bind, EStateM.bind, pushWord_eq, push_eq, update]
  rfl

end

end Cpu

end Nes
