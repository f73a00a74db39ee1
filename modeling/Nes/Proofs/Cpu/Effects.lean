import Nes.Proofs.Cpu.Failures
import Nes.Proofs.Cpu.StatusByte

/-!
# What may change a register or a flag

An instruction has few effects, and its mnemonic tells which. For each flag and for each register
but the program counter there is a list of the instructions that may change it. Everything else
leaves it alone, also where it fails half way, on any bus. The status byte is written only in the
ways that are allowed to the instruction, and bit 5 of it stays set whatever is done.

Results:

* `preserves_run`: what an instruction does to the registers beyond moving program counter and stack
  pointer, it does by a few changes. What holds across these, holds across the instruction.
* `preserves_part`: an instruction that does not change a part of the registers keeps it.
* `preserves_brk`: no instruction sets the break flag.
* `preserves_written`: an instruction writes the status byte as its mnemonic allows.
* `lawful_afterEvents`: **what every event of a history may change.**
-/

namespace Nes

/-- The instruction may change the part: it is one of those that do, or it shifts or rotates the
accumulator and the part is that. -/
def Instruction.Changes (i : Instruction) (part : Part) : Prop :=
  i.mnemonic ∈ part.changers ∨
    part = .a ∧ i.mode = .accumulator ∧ i.mnemonic ∈ ["ASL", "LSR", "ROL", "ROR"]

/-! ## Operations -/

/-! Each is looked up in the list of the part: either it is there, or it does not touch the part. -/

/-- A part that an operation does not list is left as it is. -/
theorem ReadOp.value_apply {op : ReadOp} {part : Part} (h : op.mnemonic ∉ part.changers)
    (v : UInt8) (r : Registers) : part.value (op.apply v r) = part.value r := by
  cases part <;> cases op <;> first
    | exact absurd (by decide) h
    | rfl

theorem ModifyOp.value_flags {op : ModifyOp} {part : Part} (h : op.mnemonic ∉ part.changers)
    (v : UInt8) (r : Registers) :
    part.value { r with p := (op.apply v r.p).2 } = part.value r := by
  cases part <;> cases op <;> first
    | exact absurd (by decide) h
    | rfl

theorem ModifyOp.value_applyA {op : ModifyOp} {part : Part} (h : op.mnemonic ∉ part.changers)
    (ha : part ≠ .a) (r : Registers) : part.value (op.applyA r) = part.value r := by
  rw [← op.value_flags h r.a r]
  cases part <;> first
    | exact absurd rfl ha
    | rfl

/-- A combined operation is listed wherever one of its two halves is. -/
theorem CombinedOp.mem_changers (op : CombinedOp) (part : Part) :
    (op.first.mnemonic ∈ part.changers → op.mnemonic ∈ part.changers) ∧
      (op.second.mnemonic ∈ part.changers → op.mnemonic ∈ part.changers) := by
  cases part <;> cases op <;> decide

theorem RegisterOp.value_apply {op : RegisterOp} {part : Part} (h : op.mnemonic ∉ part.changers)
    (r : Registers) : part.value (op.apply r) = part.value r := by
  cases part <;> cases op <;> first
    | exact absurd (by decide) h
    | rfl

/-- The accumulator is shifted and rotated; it is not counted up or down as a byte of memory is. -/
theorem Opcode.shifts_of_modifyA {byte : UInt8} {op : ModifyOp}
    (h : Opcode.ofByte byte = .instruction (.modifyA op)) :
    op.mnemonic ∈ ["ASL", "LSR", "ROL", "ROR"] := by
  have hcount : ∀ byte : UInt8, Opcode.ofByte byte ≠ .instruction (.modifyA .inc) ∧
      Opcode.ofByte byte ≠ .instruction (.modifyA .dec) := by
    decide +kernel
  cases op with
  | inc => exact absurd h (hcount byte).1
  | dec => exact absurd h (hcount byte).2
  | asl | lsr | rol | ror => decide

/-! ## The frame of an instruction -/

/-- What holds of the registers still holds after everything that the instruction does to them,
other than to move the program counter and the stack pointer. -/
def Instruction.Maintains (P : Registers → Prop) : Instruction → Prop
  | read op _ => ∀ v r, P r → P (op.apply v r)
  | modify op _ => ∀ v r, P r → P { r with p := (op.apply v r.p).2 }
  | modifyA op => ∀ r, P r → P (op.applyA r)
  | combined op _ => (∀ v r, P r → P { r with p := (op.first.apply v r.p).2 }) ∧
      ∀ v r, P r → P (op.second.apply v r)
  | register op => ∀ r, P r → P (op.apply r)
  | stack .pla => ∀ v r, P r → P (r.setA v)
  | stack .plp | rti => ∀ v r, P r → P { r with p := .ofPulled v }
  | brk => ∀ r, P r → P { r with p := { r.p with interrupt := true } }
  | write .. | stack .pha | stack .php | branch _ | jmp _ | jsr | rts | nop _ => True

namespace Cpu

section

variable {β : Type} {P : Registers → Prop}

theorem Keeps.preserves {α : Type} {P : Cpu β → Prop} {x : Action β α} (h : Keeps P x) :
    Preserves P x :=
  fun cpu hc => (h cpu).mpr hc

/-- An update preserves what its function preserves. -/
theorem preserves_update {f : Registers → Registers} (h : ∀ r, P r → P (f r)) :
    Preserves (fun cpu : Cpu β => P cpu.registers) (update f) :=
  fun cpu hc => h cpu.registers hc

variable [Bus β] (hp : Settled fun r _ => P r)

include hp

/-- Reading, pushing and pulling preserve whatever does not depend on the pointers that they move.
-/
theorem stackCongruence_preserves :
    @StackCongruence β β _ _ fun _ x _ => Preserves (fun cpu => P cpu.registers) x := by
  have hs : StackCongruence _ := stackCongruence_keeps (β := β) hp
  constructor
  case toSeekCongruence =>
    exact ⟨fun _ _ hc => hc, .bind, fun _ hc => hc, fun f => (hs.move f).preserves,
      fun address => (hs.read address).preserves⟩
  case write => exact fun address value => (hs.write address value).preserves
  case shift => exact fun f => (hs.shift f).preserves

theorem preserves_modifyAt {op : ModifyOp} (h : ∀ v r, P r → P { r with p := (op.apply v r.p).2 })
    (address : UInt16) :
    Preserves (fun cpu : Cpu β => P cpu.registers) (Instruction.modifyAt op address) := by
  have hs : StackCongruence _ := stackCongruence_preserves (β := β) hp
  refine .bind (hs.read address) fun old cpu hc => ?_
  -- the flags that are put in come from the registers that they are put into
  have hw : Preserves (fun cpu : Cpu β => P cpu.registers)
      (write address (op.apply old cpu.registers.p).1 >>= fun _ =>
        pure (op.apply old cpu.registers.p).1) :=
    .bind (hs.write address _) fun _ => hs.pure _
  exact hw ⟨{ cpu.registers with p := (op.apply old cpu.registers.p).2 }, cpu.instructions,
    cpu.bus⟩ (h old cpu.registers hc)

theorem preserves_enterInterrupt
    (h : ∀ r, P r → P { r with p := { r.p with interrupt := true } })
    (returnAddress : UInt16) (status : UInt8) (vector : UInt16) :
    Preserves (fun cpu : Cpu β => P cpu.registers)
      (Instruction.enterInterrupt returnAddress status vector) := by
  have hs : StackCongruence _ := stackCongruence_preserves (β := β) hp
  refine .bind (hs.pushWord returnAddress) fun _ => ?_
  refine .bind (hs.push status) fun _ => ?_
  refine .bind (preserves_update h) fun _ => ?_
  exact .bind (hs.readWord vector) fun target => hs.jump target

theorem preserves_runStack {op : StackOp} (h : (Instruction.stack op).Maintains P) :
    Preserves (fun cpu : Cpu β => P cpu.registers) (Instruction.runStack op) := by
  have hs : StackCongruence _ := stackCongruence_preserves (β := β) hp
  cases op with
  | pha => exact .bind hs.getRegisters fun r => hs.push r.a
  | php => exact .bind hs.getRegisters fun r => hs.push r.p.pushedBits
  | pla => exact .bind hs.pull fun value => preserves_update (h value)
  | plp => exact .bind hs.pull fun value => preserves_update (h value)

/-- The frame rule. -/
theorem preserves_run {i : Instruction} (h : i.Maintains P) :
    Preserves (fun cpu : Cpu β => P cpu.registers) i.run := by
  have hs : StackCongruence _ := stackCongruence_preserves (β := β) hp
  cases i with
  | read op mode =>
    refine .bind (hs.resolve mode) fun address => ?_
    exact .bind (hs.read address) fun value => preserves_update (h value)
  | write op mode =>
    refine .bind (hs.resolve mode) fun address => ?_
    exact .bind hs.getRegisters fun r => hs.write address _
  | modify op mode =>
    refine .bind (hs.resolve mode) fun address => ?_
    exact .bind (preserves_modifyAt hp h address) fun _ => hs.pure ()
  | modifyA op => exact preserves_update h
  | combined op mode =>
    refine .bind (hs.resolve mode) fun address => ?_
    exact .bind (preserves_modifyAt hp h.1 address) fun value => preserves_update (h.2 value)
  | register op => exact preserves_update h
  | stack op => exact preserves_runStack hp h
  | branch condition =>
    refine .bind (hs.resolve .relative) fun target => ?_
    refine .bind hs.getRegisters fun r => ?_
    by_cases hc : condition.holds r.p = true
    · rw [if_pos hc]
      exact hs.jump target
    · rw [if_neg hc]
      exact hs.pure ()
  | jmp mode => exact .bind (hs.resolve mode) fun target => hs.jump target
  | jsr =>
    refine .bind (hs.resolve .absolute) fun target => ?_
    refine .bind hs.getRegisters fun r => ?_
    exact .bind (hs.pushWord _) fun _ => hs.jump target
  | rts => exact .bind hs.pullWord fun target => hs.jump _
  | rti =>
    refine .bind hs.pull fun status => ?_
    refine .bind (preserves_update (h status)) fun _ => ?_
    exact .bind hs.pullWord fun target => hs.jump target
  | brk =>
    exact .bind hs.getRegisters fun r => preserves_enterInterrupt hp h _ _ _
  | nop mode => exact hs.skipOperand mode

end

end Cpu

/-! ## What instructions keep -/

open Status (Written)
open Status.Write (AllowedIn)

theorem Part.settled_value {part : Part} (h : part ≠ .sp) (n : Nat) :
    Cpu.Settled fun r _ => part.value r = n := by
  cases part with
  | sp => exact absurd rfl h
  | _ => exact ⟨fun _ _ _ => rfl, fun _ _ _ => rfl⟩

/-- That flags have only been written in some ways does not depend on other registers. -/
theorem settled_written (allowed : Status.Write → Prop) (start : UInt8) :
    Cpu.Settled fun r _ => Written allowed start r.p.bits :=
  ⟨fun _ _ _ => rfl, fun _ _ _ => rfl⟩

namespace Instruction

theorem isQuiet_of_not_changes {i : Instruction} (h : ¬ i.Changes .sp) : i.isQuiet = true := by
  have h : i.mnemonic ∉ Part.sp.changers := fun hm => h (.inl hm)
  cases i with
  | register op =>
    cases op with
    | txs => exact absurd (by decide) h
    | _ => rfl
  | stack op => cases op <;> exact absurd (by decide) h
  | jsr | rts | rti | brk => exact absurd (by decide) h
  | read | write | modify | modifyA | combined | branch | jmp | nop => rfl

/-- An instruction that does not list a part maintains its value. -/
theorem maintains_value {byte : UInt8} {i : Instruction} {part : Part} (n : Nat)
    (hi : Opcode.ofByte byte = .instruction i) (h : ¬ i.Changes part) :
    i.Maintains fun r => part.value r = n := by
  have hm : i.mnemonic ∉ part.changers := fun hm => h (.inl hm)
  cases i with
  | read op mode => exact fun v r hn => (op.value_apply hm v r).trans hn
  | modify op mode => exact fun v r hn => (op.value_flags hm v r).trans hn
  | modifyA op =>
    have ha : part ≠ .a := fun ha => h (.inr ⟨ha, rfl, Opcode.shifts_of_modifyA hi⟩)
    exact fun r hn => (op.value_applyA hm ha r).trans hn
  | combined op mode =>
    have hfirst := mt (op.mem_changers part).1 hm
    have hsecond := mt (op.mem_changers part).2 hm
    exact ⟨fun v r hn => (op.first.value_flags hfirst v r).trans hn,
      fun v r hn => (op.second.value_apply hsecond v r).trans hn⟩
  | register op => exact fun r hn => (op.value_apply hm r).trans hn
  | stack op =>
    cases op with
    | pha | php => trivial
    | pla =>
      cases part with
      | a | zero | negative => exact absurd (by decide) hm
      | _ => exact fun _ _ hn => hn
    | plp =>
      cases part with
      | a | x | y | sp => exact fun _ _ hn => hn
      | _ => exact absurd (by decide) hm
  | rti =>
    cases part with
    | a | x | y | sp => exact fun _ _ hn => hn
    | _ => exact absurd (by decide) hm
  | brk =>
    cases part with
    | interrupt => exact absurd (by decide) hm
    | _ => exact fun _ hn => hn
  | write | branch | jmp | jsr | rts | nop => trivial

/-- The break flag is cleared from time to time and never set. -/
theorem maintains_brk (i : Instruction) : i.Maintains fun r => Part.brk.value r = 0 := by
  cases i with
  | read op mode => exact fun v r h => (op.value_apply (by cases op <;> decide) v r).trans h
  | modify op mode => exact fun v r h => (op.value_flags (by cases op <;> decide) v r).trans h
  | modifyA op => exact fun r h => h
  | combined op mode =>
    exact ⟨fun v r h => h,
      fun v r h => (op.second.value_apply (by cases op <;> decide) v r).trans h⟩
  | register op => exact fun r h => (op.value_apply (by cases op <;> decide) r).trans h
  | stack op =>
    cases op with
    | pha | php => trivial
    | pla => exact fun _ _ h => h
    | plp => exact fun _ _ _ => rfl
  | rti => exact fun _ _ _ => rfl
  | brk => exact fun _ h => h
  | write | branch | jmp | jsr | rts | nop => trivial

/-- An instruction writes the status byte as its mnemonic allows. -/
theorem maintains_written (i : Instruction) (start : UInt8) :
    i.Maintains fun r => Written (AllowedIn i.mnemonic) start r.p.bits := by
  cases i with
  | read op mode => exact fun v r h => op.written_apply v r h
  | modify op mode => exact fun v r h => op.written_apply v h
  | modifyA op => exact fun r h => op.written_apply r.a h
  | combined op mode =>
    refine ⟨fun v r h => h.append (op.first.written_apply v .refl) ?_,
      fun v r h => h.append (op.second.written_apply v r .refl) ?_⟩
    · exact fun write ha => ha.mono fun part => (op.mem_changers part).1
    · exact fun write ha => ha.mono fun part => (op.mem_changers part).2
  | register op => exact fun r h => op.written_apply r h
  | stack op =>
    cases op with
    | pha | php => trivial
    | pla => exact fun v r h => h.result (by decide)
    | plp => exact fun v r h => h.pulled (by decide)
  | rti => exact fun v r h => h.pulled (by decide)
  | brk => exact fun r h => h.put .interrupt (by decide) true
  | write | branch | jmp | jsr | rts | nop => trivial

end Instruction

namespace Cpu

section

variable {β : Type} [Bus β]

/-- **So it keeps every part that it does not change, also where it fails half way.** -/
theorem preserves_part {byte : UInt8} {i : Instruction} (hi : Opcode.ofByte byte = .instruction i)
    {part : Part} (h : ¬ i.Changes part) (n : Nat) :
    Preserves (fun cpu : Cpu β => part.value cpu.registers = n) i.run := by
  by_cases hp : part = .sp
  · subst hp
    have hq := quietCongruence_keeps_sp.instruction_of_quiet (β := β)
      (Instruction.isQuiet_of_not_changes h)
    exact fun cpu hn => (congrArg UInt8.toNat (hq cpu)).trans hn
  · exact preserves_run (Part.settled_value hp n) (Instruction.maintains_value n hi h)

/-- No instruction sets the break flag: the two that change it clear it. -/
theorem preserves_brk (i : Instruction) :
    Preserves (fun cpu : Cpu β => Part.brk.value cpu.registers = 0) i.run :=
  preserves_run (Part.settled_value (by decide) 0) i.maintains_brk

theorem preserves_written (i : Instruction) (start : UInt8) :
    Preserves (fun cpu : Cpu β => Written (AllowedIn i.mnemonic) start cpu.registers.p.bits)
      i.run :=
  preserves_run (settled_written _ start) (i.maintains_written start)

end

/-! ## What calls change -/

section

variable {β : Type} [Bus β]

/-- What a call may change: an interrupt the stack pointer and the interrupt flag, a step what the
instruction that it carries out may change. -/
def Changes (cpu : Cpu β) : Call → Part → Prop
  | .step, part => ∃ i, cpu.instruction? = some i ∧ i.Changes part
  | .nmi, part => part = .sp ∨ part = .interrupt

/-- How a call may write the status byte. -/
def MayWrite (cpu : Cpu β) : Call → Status.Write → Prop
  | .step, write => ∃ i, cpu.instruction? = some i ∧ write.AllowedIn i.mnemonic
  | .nmi, write => write = .flags Part.interrupt.mask true

/-- What holds wherever the program counter is, and holds across the instruction that is carried
out, holds across the step. -/
theorem holds_step {P : Registers → Prop} (hp : ∀ r address, P r → P { r with pc := address })
    {cpu : Cpu β}
    (h : ∀ byte i, Opcode.ofByte byte = .instruction i → cpu.instruction? = some i →
      Preserves (fun cpu : Cpu β => P cpu.registers) i.run)
    (hc : P cpu.registers) : P (final (step cpu)).registers := by
  have hf : P cpu.fetched.registers := by
    rw [fetched, fetch_eq]
    cases Bus.read cpu.registers.pc cpu.bus with
    | error cause bus => exact hc
    | ok opcode bus => exact hp cpu.registers _ hc
  cases hi : cpu.instruction? with
  | none => rwa [final_step_of_none hi]
  | some i =>
    obtain ⟨byte, -, ho⟩ := fetch_of_instruction hi
    rw [(final_step hi).1]
    exact h byte i ho hi cpu.fetched hf

/-- What holds wherever program counter and stack pointer are, whether or not interrupts are
disabled, holds across an interrupt. -/
theorem holds_nmi {P : Registers → Prop} (hp : Settled fun r _ => P r)
    (h : ∀ r, P r → P { r with p := { r.p with interrupt := true } }) {cpu : Cpu β}
    (hc : P cpu.registers) : P (final (nmi cpu)).registers := by
  rw [final_nmi]
  exact preserves_enterInterrupt hp h _ _ _ cpu hc

/-- A call keeps every part that it does not change. -/
theorem value_perform {call : Call} {part : Part} {cpu : Cpu β} (h : ¬ cpu.Changes call part) :
    part.value (final (perform call cpu)).registers = part.value cpu.registers := by
  cases call with
  | step =>
    refine holds_step (P := fun r => part.value r = part.value cpu.registers) ?_ ?_ rfl
    · intro r address hn
      rw [← hn]
      cases part <;> rfl
    · exact fun byte i ho hi => preserves_part ho (fun hc => h ⟨i, hi, hc⟩) _
  | nmi =>
    have hsp : part ≠ .sp := fun hp => h (.inl hp)
    refine holds_nmi (P := fun r => part.value r = part.value cpu.registers)
      (Part.settled_value hsp _) (fun r hn => ?_) rfl
    cases part with
    | interrupt => exact absurd (.inr rfl) h
    | _ => exact hn

theorem brk_perform (call : Call) {cpu : Cpu β} (h : Part.brk.value cpu.registers = 0) :
    Part.brk.value (final (perform call cpu)).registers = 0 := by
  cases call with
  | step =>
    exact holds_step (P := fun r => Part.brk.value r = 0) (fun _ _ hn => hn)
      (fun _ i _ _ => preserves_brk i) h
  | nmi =>
    exact holds_nmi (P := fun r => Part.brk.value r = 0) (Part.settled_value (by decide) 0)
      (fun _ hn => hn) h

/-- A call writes the status byte only as the instruction or interrupt in it may. -/
theorem written_perform (call : Call) (cpu : Cpu β) :
    Written (cpu.MayWrite call) cpu.registers.p.bits
      (final (perform call cpu)).registers.p.bits := by
  cases call with
  | step =>
    refine holds_step (P := fun r => Written (cpu.MayWrite .step) cpu.registers.p.bits r.p.bits)
      (fun _ _ h => h) (fun byte i _ hi s hs => ?_) .refl
    have hr := preserves_written i s.registers.p.bits s .refl
    exact hs.append hr fun write ha => ⟨i, hi, ha⟩
  | nmi =>
    refine holds_nmi (P := fun r => Written (cpu.MayWrite .nmi) cpu.registers.p.bits r.p.bits)
      (settled_written _ _) (fun r h => ?_) .refl
    have ha : cpu.MayWrite .nmi (.flags Part.interrupt.mask true) := rfl
    have hw := h.apply ha
    rwa [Status.Write.apply, Status.assign_mask (by decide)] at hw

/-! ## Histories -/

/-- What is done to a processor. -/
inductive Event where
  /-- A new processor takes the place of this one on the bus. -/
  | new
  | reset
  | call (call : Call)
  /-- The status byte is written from outside. -/
  | write (write : Status.Write)
deriving DecidableEq

/-- The processor after an event, which may have failed. -/
def afterEvent (cpu : Cpu β) : Event → Cpu β
  | .new => { bus := cpu.bus }
  | .reset => final (Cpu.reset cpu)
  | .call call => final (perform call cpu)
  | .write write =>
    { cpu with registers := { cpu.registers with p := write.apply cpu.registers.p } }

/-- The processor after some events. -/
def afterEvents (cpu : Cpu β) (events : List Event) : Cpu β := events.foldl afterEvent cpu

/-- What an event may change. -/
def Event.Changes (cpu : Cpu β) : Event → Part → Prop
  | .new, _ | .reset, _ => True
  | .call c, part => cpu.Changes c part
  | .write w, part => part.mask &&& w.reach ≠ 0

/-- What an event makes of the status byte. A call may write it several times, and does not set the
bit of the break flag. -/
def Event.Writes (cpu : Cpu β) : Event → UInt8 → Prop
  | .new, byte | .reset, byte => byte = 0x34
  | .call c, byte => Written (cpu.MayWrite c) cpu.registers.p.bits byte ∧
      (cpu.registers.p.bits &&& 0x10 = 0 → byte &&& 0x10 = 0)
  | .write w, byte => byte = w.onByte cpu.registers.p.bits

theorem status_reset (cpu : Cpu β) :
    (final (reset cpu)).registers.p = ({} : Registers).p := by
  have hs : StackCongruence _ := stackCongruence_keeps (β := β) (g := fun r _ => r.p)
    ⟨fun _ _ _ => rfl, fun _ _ _ => rfl⟩
  have h := hs.readWord resetVector { cpu with registers := {} }
  rw [reset_eq]
  cases hc : (readWord resetVector : Action β UInt16) { cpu with registers := {} } with
  | error cause next =>
    rw [hc] at h
    exact h
  | ok start next =>
    rw [hc] at h
    exact h

/-- Every event of a history writes the status byte in one of its ways. -/
theorem writes_afterEvent (cpu : Cpu β) (event : Event) :
    event.Writes cpu (cpu.afterEvent event).registers.p.bits := by
  have hfirst : ({} : Registers).p.bits = 0x34 := by decide
  cases event with
  | new => exact hfirst
  | reset => exact (congrArg Status.bits (status_reset cpu)).trans hfirst
  | call call =>
    refine ⟨written_perform call cpu, fun h => ?_⟩
    rw [← Part.value_brk_eq_zero_iff] at h ⊢
    exact brk_perform call h
  | write w => exact Status.bits_apply w cpu.registers.p

/-- No event clears bit 5, whatever it writes. -/
theorem Event.Writes.reserved {cpu : Cpu β} {event : Event} {byte : UInt8}
    (hw : event.Writes cpu byte) (h : cpu.registers.p.bits &&& 0x20 = 0x20) :
    byte &&& 0x20 = 0x20 := by
  cases event with
  | new | reset =>
    rw [show byte = 0x34 from hw]
    decide
  | call call => exact hw.1.reserved h
  | write w =>
    rw [show byte = w.onByte _ from hw]
    exact w.reserved_onByte h

/-- Bit 5 stays set along a whole history. -/
theorem reserved_afterEvents {cpu : Cpu β} (h : cpu.registers.p.bits &&& 0x20 = 0x20)
    (events : List Event) : (cpu.afterEvents events).registers.p.bits &&& 0x20 = 0x20 := by
  induction events generalizing cpu with
  | nil => exact h
  | cons event rest ih => exact ih ((writes_afterEvent cpu event).reserved h)

theorem changes_afterEvent {cpu : Cpu β} {event : Event} {part : Part}
    (h : part.value (cpu.afterEvent event).registers ≠ part.value cpu.registers) :
    event.Changes cpu part := by
  cases event with
  | new => trivial
  | reset => trivial
  | call call => exact Classical.byContradiction fun hc => h (value_perform hc)
  | write w => exact fun hp => h (Part.value_apply hp cpu.registers)

theorem afterEvents_append (cpu : Cpu β) (before rest : List Event) :
    cpu.afterEvents (before ++ rest) = (cpu.afterEvents before).afterEvents rest :=
  List.foldl_append ..

/-- What has changed in a history was changed by one of its events. -/
theorem changes_afterEvents {cpu : Cpu β} {events : List Event} {part : Part}
    (h : part.value (cpu.afterEvents events).registers ≠ part.value cpu.registers) :
    ∃ before event rest, events = before ++ event :: rest ∧
      event.Changes (cpu.afterEvents before) part := by
  induction events generalizing cpu with
  | nil => exact absurd rfl h
  | cons event rest ih =>
    by_cases he : part.value (cpu.afterEvent event).registers = part.value cpu.registers
    · have hr : part.value ((cpu.afterEvent event).afterEvents rest).registers ≠
          part.value (cpu.afterEvent event).registers := by
        rw [he]
        exact h
      obtain ⟨before, later, rest', rfl, hc⟩ := ih hr
      exact ⟨event :: before, later, rest', rfl, hc⟩
    · exact ⟨[], event, rest, rfl, changes_afterEvent he⟩

/-- The break flag stays clear while no one sets it from outside. -/
theorem brk_afterCalls (calls : List Call) {cpu : Cpu β} (h : cpu.registers.p.bits &&& 0x10 = 0) :
    (cpu.afterCalls calls).registers.p.bits &&& 0x10 = 0 := by
  induction calls generalizing cpu with
  | nil => exact h
  | cons call rest ih => exact ih ((writes_afterEvent cpu (.call call)).2 h)

/-- What a history does to the registers. -/
structure Lawful (start : Cpu β) (events : List Event) : Prop where
  /-- Bit 5 of the status byte is set in the end. -/
  reserved : (start.afterEvents events).registers.p.bits &&& 0x20 = 0x20
  /-- Each event writes the status byte as it may, and changes no other part than it may. -/
  event {before rest : List Event} {event : Event} (h : events = before ++ event :: rest) :
    event.Writes (start.afterEvents before)
        (start.afterEvents (before ++ [event])).registers.p.bits ∧
      ∀ part : Part, part.value (start.afterEvents (before ++ [event])).registers ≠
        part.value (start.afterEvents before).registers →
          event.Changes (start.afterEvents before) part
  /-- A part that is not as it was in the beginning was changed by an event that may do so. -/
  changed {part : Part}
    (h : part.value (start.afterEvents events).registers ≠ part.value start.registers) :
    ∃ before event rest, events = before ++ event :: rest ∧
      event.Changes (start.afterEvents before) part
  /-- Where the break flag is clear in the end, calls leave it so, however many. -/
  brk (h : (start.afterEvents events).registers.p.bits &&& 0x10 = 0) (calls : List Call) :
    ((start.afterEvents events).afterCalls calls).registers.p.bits &&& 0x10 = 0

/-- **Main theorem.** On any bus, from any processor on and whatever is done to it, failing or not:
bit 5 of the status byte is set. A step or an interrupt does not set the break flag. It changes a
register or a flag only if that is a part that interrupts, or the instruction carried out, are
listed to change. -/
theorem lawful_afterEvents (start : Cpu β) (events : List Event) : start.Lawful events where
  reserved := reserved_afterEvents (Status.bits_reserved _) events
  event := by
    intro before rest event _
    rw [afterEvents_append]
    exact ⟨writes_afterEvent _ event, fun _ h => changes_afterEvent h⟩
  changed := changes_afterEvents
  brk h calls := brk_afterCalls calls h

end

end Cpu

end Nes
