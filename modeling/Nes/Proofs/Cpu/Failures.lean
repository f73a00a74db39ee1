import Nes.Proofs.Cpu.Rules
import Nes.Proofs.Cpu.StackMemory

/-!
# Steps that fail

A bus may refuse any access of an instruction, and by then the program counter, the stack pointer
and the flags may have moved on. What a program computes with has not: every instruction makes its
last access before it touches the accumulator or an index register, and it is counted when it is
done. So a step that fails can be told from its error alone. The error names the place of the
opcode, the opcode, and what the bus said to the first access that it refused.

Results:

* `keepsIfFails_run`: an instruction that fails leaves accumulator, index registers and count alone.
* `traced_run`: the accesses of an instruction are those that the bus let through, in their order,
  and the one that it refused.
* `explains_step`: **what the error of a step says about it, on any bus.**
-/

namespace Nes

/-! ## Accesses and what the bus says to them -/

section

variable {β : Type} [Bus β]

/-- The bus lets the accesses through, one after the other and with these bytes. -/
inductive Allows : β → List Access → β → Prop
  | nil (bus : β) : Allows bus [] bus
  | read {bus next last : β} {address : UInt16} {value : UInt8} {rest : List Access}
    (h : Bus.read address bus = .ok value next) (hr : Allows next rest last) :
    Allows bus (.read address value :: rest) last
  | write {bus next last : β} {address : UInt16} {value : UInt8} {rest : List Access}
    (h : Bus.write address value bus = .ok () next) (hr : Allows next rest last) :
    Allows bus (.write address value :: rest) last

/-- The bus refuses the access, with this error. -/
inductive Refuses : β → Access → BusError → β → Prop
  | read {bus next : β} {address : UInt16} {cause : BusError}
    (h : Bus.read address bus = .error cause next) : Refuses bus (.readFailed address) cause next
  | write {bus next : β} {address : UInt16} {value : UInt8} {cause : BusError}
    (h : Bus.write address value bus = .error cause next) :
    Refuses bus (.writeFailed address value) cause next

theorem Allows.append {bus middle last : β} {log rest : List Access} (h : Allows bus log middle)
    (hr : Allows middle rest last) : Allows bus (log ++ rest) last := by
  induction h with
  | nil => exact hr
  | read ha _ ih => exact .read ha (ih hr)
  | write ha _ ih => exact .write ha (ih hr)

end

namespace Cpu

/-! ## Traces -/

section

variable {β : Type} [Bus β] {α δ : Type}

/-- What a watched processor adds to its accesses on the way to this end is what its bus let
through, and what it refused in the end. -/
def TracedTo (cpu : Cpu (Recorder β)) : EStateM.Result BusError (Cpu (Recorder β)) α → Prop
  | .ok _ next => ∃ done, next.log = cpu.log ++ done ∧ Allows cpu.bus.bus done next.bus.bus
  | .error cause next => ∃ done failed middle, next.log = cpu.log ++ (done ++ [failed]) ∧
      Allows cpu.bus.bus done middle ∧ Refuses middle failed cause next.bus.bus

/-- The action is traced wherever it starts. -/
def Traced (x : Action (Recorder β) α) : Prop := ∀ cpu : Cpu (Recorder β), cpu.TracedTo (x cpu)

theorem Traced.bind {x : Action (Recorder β) α} {f : α → Action (Recorder β) δ} (hx : Traced x)
    (hf : ∀ value, Traced (f value)) : Traced (x >>= f) := by
  intro cpu
  have h := hx cpu
  show cpu.TracedTo (EStateM.bind x f cpu)
  unfold EStateM.bind
  cases hc : x cpu with
  | error cause next =>
    rw [hc] at h
    exact h
  | ok value next =>
    rw [hc] at h
    obtain ⟨first, hfirst, hallows⟩ := h
    have h' := hf value next
    dsimp only
    cases hc' : f value next with
    | ok result last =>
      rw [hc'] at h'
      obtain ⟨rest, hrest, hallows'⟩ := h'
      refine ⟨first ++ rest, ?_, hallows.append hallows'⟩
      rw [hrest, hfirst, List.append_assoc]
    | error cause last =>
      rw [hc'] at h'
      obtain ⟨rest, failed, middle, hrest, hallows', hrefuses⟩ := h'
      refine ⟨first ++ rest, failed, middle, ?_, hallows.append hallows', hrefuses⟩
      rw [hrest, hfirst, List.append_assoc, List.append_assoc]

theorem traced_read (address : UInt16) : Traced (read address : Action (Recorder β) UInt8) := by
  rintro ⟨r, n, bus, log⟩
  rw [read_recorder]
  cases hc : Bus.read address bus with
  | ok value next => exact ⟨[.read address value], Array.toList_push .., .read hc (.nil next)⟩
  | error cause next =>
    exact ⟨[], .readFailed address, bus, Array.toList_push .., .nil bus, .read hc⟩

theorem traced_write (address : UInt16) (value : UInt8) :
    Traced (write address value : Action (Recorder β) Unit) := by
  rintro ⟨r, n, bus, log⟩
  rw [write_recorder]
  cases hc : Bus.write address value bus with
  | ok _ next => exact ⟨[.write address value], Array.toList_push .., .write hc (.nil next)⟩
  | error cause next =>
    exact ⟨[], .writeFailed address value, bus, Array.toList_push .., .nil bus, .write hc⟩

theorem congruence_traced :
    @Congruence (Recorder β) (Recorder β) _ _ fun _ x _ => Traced x where
  pure _ _ := ⟨[], (List.append_nil _).symm, .nil _⟩
  bind := .bind
  getRegisters _ := ⟨[], (List.append_nil _).symm, .nil _⟩
  adjust _ _ _ := ⟨[], (List.append_nil _).symm, .nil _⟩
  update _ _ := ⟨[], (List.append_nil _).symm, .nil _⟩
  read := traced_read
  write := traced_write

theorem traced_run (i : Instruction) : Traced (i.run : Action (Recorder β) Unit) :=
  congruence_traced.instruction i

/-- An instruction that fails, with its accesses listed behind those in `log`. -/
theorem run_recorder_of_error {i : Instruction} {r : Registers} {n : Nat} {bus : β}
    {cause : BusError} {next : Cpu β} (h : i.run ⟨r, n, bus⟩ = .error cause next)
    (log : Array Access) :
    ∃ done failed middle next', i.run ⟨r, n, (⟨bus, log⟩ : Recorder β)⟩ = .error cause next' ∧
      next'.log = log.toList ++ (done ++ [failed]) ∧ Allows bus done middle ∧
      Refuses middle failed cause next.bus := by
  let watched : Cpu (Recorder β) := ⟨r, n, ⟨bus, log⟩⟩
  have hrel : Related Recorder.Around n watched ⟨r, n, bus⟩ := ⟨rfl, rfl, rfl, rfl⟩
  have hs := simulates_instruction (Recorder.simulation_around β) i hrel
  have ht := traced_run i watched
  rw [h] at hs
  show ∃ done failed middle next', i.run watched = _ ∧ _
  generalize i.run watched = p at hs ht ⊢
  cases hs with
  | error _ hr =>
    obtain ⟨done, failed, middle, hlog, hallows, hrefuses⟩ := ht
    have hbus : _ = next.bus := hr.bus
    exact ⟨done, failed, middle, _, rfl, hlog, hallows, hbus ▸ hrefuses⟩

end

/-! ## What a failure leaves alone -/

section

variable {β τ α δ : Type} {f : Cpu β → τ}

/-- If the action fails, `f` says of the processor what it said before. -/
def KeepsIfFails (f : Cpu β → τ) (x : Action β α) : Prop :=
  ∀ ⦃cpu cause next⦄, x cpu = .error cause next → f next = f cpu

theorem Keeps.ifFails {x : Action β α} (h : Keeps f x) : KeepsIfFails f x := by
  intro cpu cause next hx
  have hk := h cpu
  rwa [hx] at hk

theorem KeepsIfFails.bind {x : Action β α} {g : α → Action β δ} (hx : Keeps f x)
    (hg : ∀ value, KeepsIfFails f (g value)) : KeepsIfFails f (x >>= g) := by
  intro cpu cause next hc
  have hk := hx cpu
  have hc : EStateM.bind x g cpu = .error cause next := hc
  unfold EStateM.bind at hc
  cases h : x cpu with
  | error cause' next' =>
    rw [h] at hc hk
    cases hc
    exact hk
  | ok value middle =>
    rw [h] at hc hk
    exact (hg value hc).trans hk

theorem keeps_pure (value : α) : Keeps f (pure value) := fun _ => rfl

theorem keeps_getRegisters : Keeps f getRegisters := fun _ => rfl

theorem keepsIfFails_update (g : Registers → Registers) : KeepsIfFails f (update g) := by
  intro cpu cause next h
  cases h

/-- What a program computes with, and how far it has come: the accumulator, the index registers
and the count of instructions. -/
def work (cpu : Cpu β) : UInt8 × UInt8 × UInt8 × Nat :=
  (cpu.registers.a, cpu.registers.x, cpu.registers.y, cpu.instructions)

theorem keeps_work_update {g : Registers → Registers}
    (hg : ∀ r, (g r).a = r.a ∧ (g r).x = r.x ∧ (g r).y = r.y) :
    Keeps (work : Cpu β → _) (update g) := by
  intro cpu
  obtain ⟨ha, hx, hy⟩ := hg cpu.registers
  show ((g cpu.registers).a, (g cpu.registers).x, (g cpu.registers).y, cpu.instructions) = _
  rw [ha, hx, hy]
  rfl

variable [Bus β]

theorem stackCongruence_keeps_work :
    @StackCongruence β β _ _ fun _ x _ => Keeps (work : Cpu β → _) x :=
  stackCongruence_keeps (g := fun r n => (r.a, r.x, r.y, n))
    ⟨fun _ _ _ => rfl, fun _ _ _ => rfl⟩

theorem keeps_work_resolve (mode : AddressMode) : Keeps (work : Cpu β → _) (resolve mode) :=
  stackCongruence_keeps_work.resolve mode

theorem keeps_work_jump (address : UInt16) : Keeps (work : Cpu β → _) (jump address) :=
  stackCongruence_keeps_work.jump address

theorem keeps_work_modifyAt (op : ModifyOp) (address : UInt16) :
    Keeps (work : Cpu β → _) (Instruction.modifyAt op address) := by
  refine .bind (stackCongruence_keeps_work.read address) fun old => ?_
  refine .bind keeps_getRegisters fun r => ?_
  refine .bind (keeps_work_update fun _ => ⟨rfl, rfl, rfl⟩) fun _ => ?_
  exact .bind (stackCongruence_keeps_work.write address _) fun _ => keeps_pure _

theorem keeps_work_enterInterrupt (returnAddress : UInt16) (status : UInt8) (vector : UInt16) :
    Keeps (work : Cpu β → _) (Instruction.enterInterrupt returnAddress status vector) := by
  refine .bind (stackCongruence_keeps_work.pushWord returnAddress) fun _ => ?_
  refine .bind (stackCongruence_keeps_work.push status) fun _ => ?_
  refine .bind (keeps_work_update fun _ => ⟨rfl, rfl, rfl⟩) fun _ => ?_
  exact .bind (stackCongruence_keeps_work.readWord vector) keeps_work_jump

theorem keepsIfFails_runStack (op : StackOp) :
    KeepsIfFails (work : Cpu β → _) (Instruction.runStack op) := by
  cases op with
  | pha => exact .bind keeps_getRegisters fun r => (stackCongruence_keeps_work.push _).ifFails
  | php => exact .bind keeps_getRegisters fun r => (stackCongruence_keeps_work.push _).ifFails
  | pla => exact .bind stackCongruence_keeps_work.pull fun value => keepsIfFails_update _
  | plp => exact .bind stackCongruence_keeps_work.pull fun value => keepsIfFails_update _

/-- The last thing that can fail comes before anything that is computed is kept. -/
theorem keepsIfFails_run (i : Instruction) : KeepsIfFails (work : Cpu β → _) i.run := by
  cases i with
  | read op mode =>
    refine .bind (keeps_work_resolve mode) fun address => ?_
    exact .bind (stackCongruence_keeps_work.read address) fun value => keepsIfFails_update _
  | write op mode =>
    refine .bind (keeps_work_resolve mode) fun address => ?_
    refine .bind keeps_getRegisters fun r => ?_
    exact (stackCongruence_keeps_work.write address _).ifFails
  | modify op mode =>
    refine .bind (keeps_work_resolve mode) fun address => ?_
    exact .bind (keeps_work_modifyAt op address) fun _ => (keeps_pure ()).ifFails
  | modifyA op => exact keepsIfFails_update _
  | combined op mode =>
    refine .bind (keeps_work_resolve mode) fun address => ?_
    exact .bind (keeps_work_modifyAt op.first address) fun value => keepsIfFails_update _
  | register op => exact keepsIfFails_update _
  | stack op => exact keepsIfFails_runStack op
  | branch condition =>
    refine .bind (keeps_work_resolve .relative) fun target => ?_
    refine .bind keeps_getRegisters fun r => ?_
    by_cases hc : condition.holds r.p = true
    · rw [if_pos hc]
      exact keepsIfFails_update _
    · rw [if_neg hc]
      exact (keeps_pure ()).ifFails
  | jmp mode => exact .bind (keeps_work_resolve mode) fun target => keepsIfFails_update _
  | jsr =>
    refine .bind (keeps_work_resolve .absolute) fun target => ?_
    refine .bind keeps_getRegisters fun r => ?_
    exact .bind (stackCongruence_keeps_work.pushWord _) fun _ => keepsIfFails_update _
  | rts => exact .bind stackCongruence_keeps_work.pullWord fun target => keepsIfFails_update _
  | rti =>
    refine .bind stackCongruence_keeps_work.pull fun status => ?_
    refine .bind (keeps_work_update fun _ => ⟨rfl, rfl, rfl⟩) fun _ => ?_
    exact .bind stackCongruence_keeps_work.pullWord fun target => keepsIfFails_update _
  | brk =>
    exact .bind keeps_getRegisters fun r => (keeps_work_enterInterrupt _ _ _).ifFails
  | nop mode => exact (stackCongruence_keeps_work.skipOperand mode).ifFails

end

/-! ## The error of a step -/

section

variable {β : Type} [Bus β]

/-- The error of a step says which access was refused and where the step had come to. -/
inductive Explains (cpu next : Cpu β) : CpuError → Prop
  /-- The opcode could not be read. The registers are as they were. -/
  | fetch {source : BusError} (accesses_eq : cpu.accesses .step = [.readFailed cpu.registers.pc])
    (refused : Refuses cpu.bus (.readFailed cpu.registers.pc) source next.bus)
    (registers_eq : next.registers = cpu.registers) :
    Explains cpu next (.fetch cpu.registers.pc source)
  /-- The opcode that was read names an operation that is not supported. It is stepped over. -/
  | unsupportedOpcode {opcode : UInt8} {op : UnstableOp} {mode : Mode}
    (accesses_eq : cpu.accesses .step = [.read cpu.registers.pc opcode])
    (allowed : Allows cpu.bus [.read cpu.registers.pc opcode] next.bus)
    (opcode_eq : Opcode.ofByte opcode = .unstable op mode)
    (registers_eq : next.registers = { cpu.registers with pc := cpu.registers.pc + 1 }) :
    Explains cpu next (.unsupportedOpcode opcode op cpu.registers.pc)
  /-- An access of the instruction that the opcode stands for was refused, the first one. -/
  | bus {opcode : UInt8} {i : Instruction} {done : List Access} {failed : Access} {middle : β}
    {source : BusError}
    (accesses_eq : cpu.accesses .step = .read cpu.registers.pc opcode :: (done ++ [failed]))
    (allowed : Allows cpu.bus (.read cpu.registers.pc opcode :: done) middle)
    (refused : Refuses middle failed source next.bus)
    (opcode_eq : Opcode.ofByte opcode = .instruction i) :
    Explains cpu next (.bus opcode cpu.registers.pc source)

theorem instructions_run (i : Instruction) (cpu : Cpu β) :
    (final (i.run cpu)).instructions = cpu.instructions :=
  (simulates_instruction (Bus.simulation_eq β) i (related_self cpu)).final.left_instructions

/-- **Main theorem.** On any bus, a step that succeeds is counted. One that fails leaves the
accumulator, the index registers and the count of instructions as they were, and its error names
the place of its opcode: as an opcode that could not be read, as one that is not supported, or as
one whose instruction the bus stopped at the first access that it refused. -/
theorem explains_step (cpu : Cpu β) :
    match step cpu with
    | .ok _ next => next.instructions = cpu.instructions + 1
    | .error cause next => next.work = cpu.work ∧ Explains cpu next cause := by
  have haccesses : cpu.accesses .step = (final (step cpu.watched)).log := rfl
  rw [step_eq, fetch_watched] at haccesses
  rw [step_eq, fetch_eq]
  cases hr : Bus.read cpu.registers.pc cpu.bus with
  | error cause bus =>
    rw [hr] at haccesses
    exact ⟨rfl, .fetch haccesses (.read hr) rfl⟩
  | ok opcode bus =>
    rw [hr] at haccesses
    dsimp only at haccesses ⊢
    cases ho : Opcode.ofByte opcode with
    | unstable op mode =>
      rw [ho] at haccesses
      exact ⟨rfl, .unsupportedOpcode haccesses (.read hr (.nil bus)) ho rfl⟩
    | instruction i =>
      rw [ho] at haccesses
      dsimp only at haccesses ⊢
      let read : Cpu β :=
        ⟨{ cpu.registers with pc := cpu.registers.pc + 1 }, cpu.instructions, bus⟩
      have hn := instructions_run i read
      cases hi : i.run read with
      | ok _ next =>
        rw [hi] at hn
        exact congrArg (· + 1) hn
      | error cause next =>
        obtain ⟨done, failed, middle, next', hi', hlog, hallows, hrefuses⟩ :=
          run_recorder_of_error hi #[.read cpu.registers.pc opcode]
        have hwork := keepsIfFails_run i hi
        rw [hi'] at haccesses
        refine ⟨hwork, .bus ?_ (.read hr hallows) hrefuses ho⟩
        exact haccesses.trans hlog

end

end Cpu

end Nes
