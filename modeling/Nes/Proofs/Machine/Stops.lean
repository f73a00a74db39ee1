import Nes.Proofs.Cpu.StackMemory
import Nes.Proofs.Machine.Halting

/-!
# What stops a machine

A machine stops where its bus refuses an access. A reset and an interrupt are sequences of
accesses too, but of a kind that no cartridge refuses: the page of the stack is memory wherever the
pointer is, and the vectors are in the program, which reaches to the end of the address space
whatever its size. So a reset always ends well, an interrupt does so unless the machine had halted
before, and what halts a machine is an instruction.

Results:

* `nmi_eq`: an interrupt of a running machine, in full.
* `exists_step_of_run`: a run that fails has failed in one of its steps.
* `stopsIn_perform`: what halts a machine is a step that a call has come to.
* `neverInterrupted_perform`, `outcomes_ne_interrupt`: no error is an interrupt's.
* `stops_in_steps`: **a reset and an interrupt cannot fail, and only steps halt a machine.**
-/

namespace Nes

/-! ## Stores in the stack -/

namespace Console

open Cpu (stackAddress)

theorem peek_store_of_not_sameRam {offset : UInt8} {address : UInt16}
    (h : sameRam (stackAddress offset) address = false) (value : UInt8) (console : Console) :
    (StackMemory.store console offset value).peek address = console.peek address := by
  refine (peek_set_ram (stackAddress_lt offset) value console).trans (if_neg ?_)
  rintro ⟨hs, ha⟩
  have hs : sameRam (stackAddress offset) address = true := by
    simp only [sameRam, Bool.and_eq_true, decide_eq_true_eq, beq_iff_eq] at hs ⊢
    exact ⟨ha, hs.2.symm⟩
  exact Bool.noConfusion (h.symm.trans hs)

end Console

/-! ## The processor -/

namespace Cpu

theorem nmi_eq (cpu : Cpu Console) :
    let entered := cpu.interrupted cpu.registers.pc cpu.registers.p.bits
    nmi cpu = .ok () { entered with
      registers := { entered.registers with pc := Bus.peekWord cpu.bus nmiVector } } := by
  have hlo : Region.ofAddress nmiVector = .program := by decide
  have hhi : Region.ofAddress (nmiVector + 1) = .program := by decide
  show EStateM.adaptExcept _ _ cpu = _
  unfold EStateM.adaptExcept
  rw [enterInterrupt_eq]
  simp only [bind, EStateM.bind, Machine.readWord_of_program hlo hhi]
  -- what is stored in the stack does not show in the program
  rfl

theorem step_ne_interrupt {β : Type} [Bus β] {cpu next : Cpu β} {cause : CpuError}
    (h : step cpu = .error cause next) (vector : UInt16) (source : BusError) :
    cause ≠ .interrupt vector source := by
  rintro rfl
  rw [step_eq] at h
  cases hf : fetch cpu with
  | error refused stopped =>
    rw [hf] at h
    cases h
  | ok opcode fetched =>
    rw [hf] at h
    dsimp only at h
    cases ho : Opcode.ofByte opcode with
    | unstable op mode =>
      rw [ho] at h
      cases h
    | instruction i =>
      rw [ho] at h
      dsimp only at h
      cases hi : i.run fetched with
      | error refused stopped =>
        rw [hi] at h
        cases h
      | ok _ completed =>
        rw [hi] at h
        cases h

end Cpu

namespace Machine

/-! ## Resets and interrupts -/

/-- What a reset leaves: the first registers, and the counter where the vector led before. -/
structure Restarted (machine next : Machine) : Prop where
  running : next.halted = none
  a : next.cpu.registers.a = 0
  x : next.cpu.registers.x = 0
  y : next.cpu.registers.y = 0
  sp : next.cpu.registers.sp = 0xFD
  status : next.cpu.registers.p.bits = 0x34
  pc : next.cpu.registers.pc = machine.vector resetVector
  instructions : next.cpu.instructions = 0

/-- A reset never fails: its vector lies in program memory. -/
theorem restarted_reset (machine : Machine) :
    ∃ next, reset machine = .ok () next ∧ Restarted machine next := by
  have hstatus : Status.bits { interrupt := true, brk := true } = 0x34 := by decide
  exact ⟨_, machine.reset_eq, rfl, rfl, rfl, rfl, rfl, hstatus, rfl, rfl⟩

/-- A machine with a cartridge always starts. -/
theorem restarted_start (cartridge : Cartridge) (config : MachineConfig) :
    ∃ machine, start cartridge config = .ok machine ∧
      Restarted (powerOn cartridge config) machine := by
  obtain ⟨machine, hr, h⟩ := restarted_reset (powerOn cartridge config)
  refine ⟨machine, ?_, h⟩
  rw [start, hr]

/-- What an interrupt leaves: the counter where the vector led before, and the bus as it was but for
three bytes of the stack. -/
structure Serviced (machine next : Machine) : Prop where
  running : next.halted = none
  pc : next.cpu.registers.pc = machine.vector nmiVector
  /-- On the bus only memory has changed. -/
  devices : next.cpu.bus = { machine.cpu.bus with ram := next.cpu.bus.ram }
  /-- In memory only the three bytes have changed. -/
  bytes {address : UInt16}
    (h : ∀ offset ∈ [machine.cpu.registers.sp, machine.cpu.registers.sp - 1,
        machine.cpu.registers.sp - 2],
      Console.sameRam (Cpu.stackAddress offset) address = false) :
    Bus.peek next.cpu.bus address = Bus.peek machine.cpu.bus address

theorem nmi_eq {machine : Machine} (h : machine.halted = none) :
    let entered := machine.cpu.interrupted machine.cpu.registers.pc machine.cpu.registers.p.bits
    nmi machine = .ok () { machine with cpu := { entered with
      registers := { entered.registers with pc := machine.vector nmiVector } } } := by
  obtain ⟨cpu, config, frame, frames, halted⟩ := machine
  cases h
  simp only [nmi, onCpu, Cpu.nmi_eq]
  rfl

/-- An interrupt never fails: the stack is in memory, and its vector in program memory. -/
theorem serviced_nmi {machine : Machine} (h : machine.halted = none) :
    ∃ next, nmi machine = .ok () next ∧ Serviced machine next := by
  have hsp : machine.cpu.registers.sp - 1 - 1 = machine.cpu.registers.sp - 2 := by grind
  refine ⟨_, nmi_eq h, h, rfl, rfl, fun hspares => ?_⟩
  simp only [List.forall_mem_cons] at hspares
  obtain ⟨h₀, h₁, h₂, -⟩ := hspares
  rw [← hsp] at h₂
  -- the stores are undone from the last to the first
  exact (Console.peek_store_of_not_sameRam h₂ _ _).trans
    ((Console.peek_store_of_not_sameRam h₁ _ _).trans (Console.peek_store_of_not_sameRam h₀ _ _))

/-! ## Errors and the halt -/

/-- The machine that is left tells how the action ended: with an error it has halted for that, and
otherwise it has halted or runs as it did before. -/
def Settles (machine : Machine) : EStateM.Result CpuError Machine Unit → Prop
  | .ok _ next => next.halted = machine.halted
  | .error cause next => next.halted = some cause

theorem Settles.of_halted_eq {machine next : Machine} (h : next.halted = machine.halted)
    {result : EStateM.Result CpuError Machine Unit} (hr : next.Settles result) :
    machine.Settles result := by
  cases result with
  | ok _ last => exact Eq.trans hr h
  | error cause last => exact hr

/-- A result that halts the machine is an error with that cause. -/
theorem Settles.eq_error {machine : Machine} {result : EStateM.Result CpuError Machine Unit}
    (hs : machine.Settles result) (h : machine.halted = none) {cause : CpuError}
    (hc : (final result).halted = some cause) : result = .error cause (final result) := by
  cases result with
  | ok _ next => cases (h.symm.trans (Eq.symm hs)).trans hc
  | error cause' next =>
    have he : some cause = some cause' := hc.symm.trans hs
    rw [Option.some.inj he]
    rfl

/-- An error is answered by the machine that has halted for it. -/
theorem Settles.halted_of_stopped {machine : Machine} {ok : Unit → Machine → Answer}
    {result : EStateM.Result CpuError Machine Unit} (hs : machine.Settles result) {cause : CpuError}
    (hok : ∀ next, ok () next ≠ .stopped cause)
    (h : (Answer.of ok .stopped result).1 = .stopped cause) :
    (Answer.of ok .stopped result).2.halted = some cause := by
  cases result with
  | ok _ next => exact absurd h (hok next)
  | error cause' next =>
    cases h
    exact hs

/-- What the processor fails with is what the machine halts with. -/
theorem settles_onCpu (action : EStateM CpuError (Cpu Console) Unit) (machine : Machine) :
    machine.Settles (onCpu action machine) := by
  obtain ⟨cpu, config, frame, frames, halted⟩ := machine
  cases halted with
  | some cause => rfl
  | none =>
    simp only [onCpu]
    cases action cpu <;> rfl

/-- Steps settle. -/
theorem settles_step (machine : Machine) : machine.Settles (step machine) :=
  settles_onCpu _ machine

/-- So do runs, by induction on the number of steps. -/
theorem settles_run (n : Nat) (machine : Machine) : machine.Settles (run n machine) := by
  induction n generalizing machine with
  | zero => rfl
  | succ n ih =>
    have hs := machine.settles_step
    rw [run_succ]
    cases hc : step machine with
    | error cause stopped =>
      rw [hc] at hs
      exact hs
    | ok _ next =>
      rw [hc] at hs
      exact (ih next).of_halted_eq hs

/-- So does the end of a frame. -/
theorem settles_endFrame (machine : Machine) : machine.Settles (endFrame machine) := by
  have hn : machine.Settles (nmi machine.blanked) := settles_onCpu _ machine.blanked
  unfold endFrame
  split
  · cases hc : nmi machine.blanked with
    | error cause stopped =>
      rw [hc] at hn
      exact hn
    | ok _ next =>
      rw [hc] at hn
      exact hn
  · rfl

/-- So do frames. -/
theorem settles_renderFrame (machine : Machine) : machine.Settles (renderFrame machine) := by
  have hr := machine.settles_run machine.config.stepsPerFrame
  rw [renderFrame_eq]
  cases hc : run machine.config.stepsPerFrame machine with
  | error cause stopped =>
    rw [hc] at hr
    exact hr
  | ok _ ran =>
    rw [hc] at hr
    exact ran.settles_endFrame.of_halted_eq hr

theorem halted_of_run {n : Nat} {machine ran : Machine} (h : run n machine = .ok () ran) :
    ran.halted = machine.halted := by
  have hs := machine.settles_run n
  rw [h] at hs
  exact hs

/-- An access from outside never halts a machine. -/
theorem halted_onConsole {α : Type} (action : EStateM BusError Console α) (machine : Machine) :
    (final (onConsole action machine)).halted = machine.halted := by
  obtain ⟨⟨registers, instructions, bus⟩, config, frame, frames, halted⟩ := machine
  simp only [onConsole]
  cases action bus <;> rfl

/-- A call that does not run the machine halts none. -/
theorem halted_of_not_isRun {machine : Machine} {call : Call} (hrun : call.isRun = false)
    {cause : CpuError} (hc : (machine.perform call).2.halted = some cause) :
    machine.halted = some cause := by
  cases call with
  | step | nmi | frame => cases hrun
  | press | setRegisters | peek | vector | disassemble => exact hc
  | reset =>
    rw [perform, reset_eq] at hc
    cases hc
  | read address | write address value =>
    rw [perform, state_of, halted_onConsole] at hc
    exact hc

/-- A machine that answers with a cause has halted with it. -/
theorem halted_of_stopped {machine : Machine} {call : Call} {cause : CpuError}
    (h : (machine.perform call).1 = .stopped cause) :
    (machine.perform call).2.halted = some cause := by
  cases call with
  | step => exact machine.settles_step.halted_of_stopped (fun _ hs => by cases hs) h
  | nmi => exact (machine.settles_onCpu _).halted_of_stopped (fun _ hs => by cases hs) h
  | frame => exact machine.settles_renderFrame.halted_of_stopped (fun _ hs => by cases hs) h
  | reset =>
    rw [perform, reset_eq] at h
    cases h
  | press | setRegisters | peek | vector | disassemble => cases h
  | read address =>
    rw [perform] at h
    cases hc : onConsole (Bus.read address) machine <;> rw [hc] at h <;> cases h
  | write address value =>
    rw [perform] at h
    cases hc : onConsole (Bus.write address value) machine <;> rw [hc] at h <;> cases h

/-! ## Where a machine stops -/

/-- How many instructions a call of the machine runs if none of them fails. -/
def Call.steps (machine : Machine) : Call → Nat
  | .step => 1
  | .frame => machine.config.stepsPerFrame
  | _ => 0

/-- The call has run some of its instructions, and the next one has failed with the error and left
the machine that the call leaves. -/
def StopsIn (machine : Machine) (call : Call) (cause : CpuError) : Prop :=
  ∃ k < call.steps machine, ∃ middle, run k machine = .ok () middle ∧ middle.halted = none ∧
    step middle = .error cause (machine.perform call).2

/-- A run that fails does so in one of its steps, after others that go through. -/
theorem exists_step_of_run {n : Nat} {machine stopped : Machine} {cause : CpuError}
    (h : run n machine = .error cause stopped) :
    ∃ k < n, ∃ middle, run k machine = .ok () middle ∧ step middle = .error cause stopped := by
  induction n generalizing machine with
  | zero => cases h
  | succ n ih =>
    rw [run_succ] at h
    cases hs : step machine with
    | error cause' stopped' =>
      rw [hs] at h
      cases h
      exact ⟨0, Nat.succ_pos n, machine, rfl, hs⟩
    | ok _ next =>
      rw [hs] at h
      obtain ⟨k, hk, middle, hrun, hstep⟩ := ih h
      refine ⟨k + 1, Nat.succ_lt_succ hk, middle, ?_, hstep⟩
      rw [run_succ, hs]
      exact hrun

/-- A frame that halts a running machine has failed in its run: its interrupt goes through. -/
theorem exists_step_of_renderFrame {machine stopped : Machine} {cause : CpuError}
    (h : machine.halted = none) (hf : renderFrame machine = .error cause stopped) :
    ∃ k < machine.config.stepsPerFrame, ∃ middle,
      run k machine = .ok () middle ∧ step middle = .error cause stopped := by
  have hr := machine.settles_run machine.config.stepsPerFrame
  rw [renderFrame_eq] at hf
  cases hc : run machine.config.stepsPerFrame machine with
  | error cause' stopped' =>
    rw [hc] at hf
    cases hf
    exact exists_step_of_run hc
  | ok _ ran =>
    rw [hc] at hr hf
    have hran : ran.blanked.halted = none := Eq.trans hr h
    simp only [endFrame, nmi_eq hran] at hf
    split at hf <;> cases hf

/-- **A call that halts a machine does so in one step**, and the machine is as that step leaves it.
-/
theorem stopsIn_perform {machine : Machine} {call : Call} {cause : CpuError}
    (h : machine.halted = none) (hc : (machine.perform call).2.halted = some cause) :
    StopsIn machine call cause := by
  by_cases hrun : call.isRun = true
  · cases call with
    | step =>
      rw [perform, state_of] at hc
      have hs := machine.settles_step.eq_error h hc
      rw [StopsIn, perform, state_of]
      exact ⟨0, Nat.one_pos, machine, rfl, h, hs⟩
    | nmi =>
      rw [perform, nmi_eq h] at hc
      cases h.symm.trans hc
    | frame =>
      rw [perform, state_of] at hc
      have hf := machine.settles_renderFrame.eq_error h hc
      obtain ⟨k, hk, middle, hr, hs⟩ := exists_step_of_renderFrame h hf
      rw [StopsIn, perform, state_of]
      exact ⟨k, hk, middle, hr, (halted_of_run hr).trans h, hs⟩
    | _ => cases hrun
  · have hn := halted_of_not_isRun (eq_false_of_ne_true hrun) hc
    cases h.symm.trans hn

/-! ## Errors of interrupts -/

/-- If the machine has halted, no interrupt is to blame. -/
def NeverInterrupted (machine : Machine) : Prop :=
  ∀ vector source, machine.halted ≠ some (.interrupt vector source)

/-- A step fails with its opcode, or at its fetch, or in an access, but in no interrupt sequence. -/
theorem step_ne_interrupt {machine next : Machine} (h : machine.halted = none) {cause : CpuError}
    (hs : step machine = .error cause next) (vector : UInt16) (source : BusError) :
    cause ≠ .interrupt vector source := by
  obtain ⟨cpu, config, frame, frames, halted⟩ := machine
  cases h
  simp only [step, onCpu] at hs
  cases hc : Cpu.step cpu with
  | ok _ stepped =>
    rw [hc] at hs
    cases hs
  | error cause' stopped =>
    rw [hc] at hs
    cases hs
    exact Cpu.step_ne_interrupt hc vector source

/-- No call makes a machine fail in an interrupt sequence. -/
theorem neverInterrupted_perform {machine : Machine} (h : machine.NeverInterrupted) (call : Call) :
    (machine.perform call).2.NeverInterrupted := by
  intro vector source hc
  cases hm : machine.halted with
  | none =>
    obtain ⟨k, -, middle, -, hmiddle, hs⟩ := stopsIn_perform hm hc
    exact step_ne_interrupt hmiddle hs vector source rfl
  | some cause =>
    -- a halted machine keeps its error or is reset
    by_cases hrun : call.isRun = true
    · obtain ⟨vblank, frame, frames, he⟩ := perform_of_halted hm hrun
      rw [he] at hc
      exact h vector source hc
    · exact h vector source (halted_of_not_isRun (eq_false_of_ne_true hrun) hc)

/-- So none of a history does. -/
theorem outcomes_ne_interrupt {machine : Machine} (h : machine.NeverInterrupted)
    (calls : List Call) {outcome : Answer × Machine} (hm : outcome ∈ machine.outcomes calls)
    (vector : UInt16) (source : BusError) :
    outcome.1 ≠ .stopped (.interrupt vector source) ∧
      outcome.2.halted ≠ some (.interrupt vector source) := by
  induction calls generalizing machine with
  | nil => cases hm
  | cons call rest ih =>
    have hp := neverInterrupted_perform h call
    rw [outcomes, List.mem_cons] at hm
    obtain rfl | hm := hm
    · exact ⟨fun hs => hp vector source (halted_of_stopped hs), hp vector source⟩
    · exact ih hp hm

/-- **Main theorem.** A machine with a cartridge starts, and any machine can be reset: it runs then
with its first registers, from where the reset vector leads. An interrupt of a running machine goes
through, leads where its vector led before, and changes on the bus three bytes of the stack. So in
no history is an error an interrupt's, and what halts a running machine is always a step, alone or
in a frame. -/
theorem stops_in_steps :
    (∀ (cartridge : Cartridge) (config : MachineConfig), ∃ machine,
      start cartridge config = .ok machine ∧ Restarted (powerOn cartridge config) machine) ∧
    (∀ machine : Machine, ∃ next, reset machine = .ok () next ∧ Restarted machine next) ∧
    (∀ machine : Machine, machine.halted = none → ∃ next, nmi machine = .ok () next ∧
      Serviced machine next) ∧
    (∀ (cartridge : Cartridge) (config : MachineConfig) (calls : List Call),
      ∀ outcome ∈ (powerOn cartridge config).outcomes calls,
      ∀ (vector : UInt16) (source : BusError), outcome.1 ≠ .stopped (.interrupt vector source) ∧
        outcome.2.halted ≠ some (.interrupt vector source)) ∧
    ∀ (machine : Machine) (call : Call) (cause : CpuError), machine.halted = none →
      (machine.perform call).2.halted = some cause → StopsIn machine call cause := by
  refine ⟨restarted_start, restarted_reset, fun _ => serviced_nmi, ?_, ?_⟩
  · intro cartridge config calls outcome hm
    have h : (powerOn cartridge config).NeverInterrupted := fun vector source he => by cases he
    exact outcomes_ne_interrupt h calls hm
  · intro machine call cause
    exact stopsIn_perform

/-- The machine whose reset vector leads astray: it can be interrupted before its first step, and
that step halts it. -/
theorem stops_in_steps_lost :
    let machine := (powerOn (.filled 0x48) {}).after [.reset]
    machine.halted = none ∧ (machine.perform .step).2.halted = some lostCause ∧
      (∃ next, nmi machine = .ok () next ∧ Serviced machine next) ∧
      StopsIn machine .step lostCause := by
  intro machine
  have h : machine.halted = none := by
    simp only [machine, after_cons, perform, reset_eq]
    rfl
  have hl : (machine.perform .step).2.halted = some lostCause := by
    have hs := halted_lost {}
    rw [lost, after_cons, after_cons, after_nil] at hs
    rw [show machine = _ from after_cons _ .reset [], after_nil]
    exact hs
  exact ⟨h, hl, stops_in_steps.2.2.1 machine h, stops_in_steps.2.2.2.2 machine .step lostCause h hl⟩

end Machine

end Nes
