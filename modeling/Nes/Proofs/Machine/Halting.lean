import Nes.Proofs.Cartridge.Accepted
import Nes.Proofs.Console.Regions
import Nes.Proofs.Cpu.Calls
import Nes.Proofs.Machine.Calls

/-!
# Halted machines

A machine that has halted is to stand still until it is reset: every call that would run it repeats
the error and leaves the machine as it is. A step and an interrupt look at the halt. A frame leaves
that to its steps and to its interrupt, so a frame of no steps without an interrupt goes through.

Results:

* `renderFrame_of_halted`: what a frame of a halted machine does.
* `outcomes_of_halted`: a halted machine stands still through steps, interrupts and frames if and
  only if its frames have a step, or deliver their interrupt with vertical blank already begun.
  Whatever it does, only vertical blank, the picture and the number of frames change.
* `frame_without_steps`: a halted machine that draws a picture.
* `renderFrame_stop`, `renderFrame_atStop`: a program that completes a frame and halts in the next.
-/

namespace Nes.Machine

/-- A frame of the halted machine changes nothing: it has a step to notice the halt, or else its
    interrupt notices and vertical blank had begun before. -/
def HeedsHalt (machine : Machine) : Prop :=
  machine.config.stepsPerFrame ≠ 0 ∨
    machine.cpu.bus.ppu.nmiEnabled = true ∧ machine.cpu.bus.ppu.latches.vblank = true

/-- The machine with another vertical blank, another picture and another number of frames. -/
def withDisplay (machine : Machine) (vblank : Bool)
    (frame : Vector UInt32 (Picture.columns * Picture.rows)) (frames : Nat) : Machine :=
  let ppu := machine.cpu.bus.ppu
  { machine with
    cpu := { machine.cpu with bus := { machine.cpu.bus with
      ppu := { ppu with latches := { ppu.latches with vblank } } } }
    frame, frames }

theorem withDisplay_self (machine : Machine) :
    machine.withDisplay machine.cpu.bus.ppu.latches.vblank machine.frame machine.frames =
      machine := rfl

/-! ## Frames -/

/-- Vertical blank is part of what is displayed. -/
theorem blanked_eq (machine : Machine) :
    machine.blanked = machine.withDisplay true machine.frame machine.frames := rfl

theorem nmiEnabled_blanked (machine : Machine) :
    machine.blanked.cpu.bus.ppu.nmiEnabled = machine.cpu.bus.ppu.nmiEnabled := rfl

/-- So is all that a frame without steps changes. -/
theorem finishFrame_blanked (machine : Machine) :
    machine.blanked.finishFrame =
      machine.withDisplay true (Picture.draw machine.blanked.cpu.bus.ppu machine.frame)
        (machine.frames + 1) := rfl

theorem blanked_eq_self_iff (machine : Machine) :
    machine.blanked = machine ↔ machine.cpu.bus.ppu.latches.vblank = true := by
  constructor
  · intro h
    rw [← h]
    rfl
  · intro h
    rw [blanked_eq, ← h, withDisplay_self]

section

variable {machine : Machine} {cause : CpuError}

/-- A frame of a halted machine: it fails with the same cause, unless nothing in it asks the
processor for anything. -/
theorem renderFrame_of_halted (h : machine.halted = some cause) :
    renderFrame machine =
      if machine.config.stepsPerFrame ≠ 0 then .error cause machine
      else if machine.cpu.bus.ppu.nmiEnabled then .error cause machine.blanked
      else .ok () machine.blanked.finishFrame := by
  rw [renderFrame_eq]
  cases hn : machine.config.stepsPerFrame with
  | zero =>
    rw [run_zero, if_neg (by omega)]
    have hb : machine.blanked.halted = some cause := h
    simp only [endFrame, nmi_of_halted hb, nmiEnabled_blanked]
  | succ n =>
    rw [run_succ, step_of_halted h, if_pos (by omega)]

/-- A frame heeds the halt under this condition, and only then. -/
theorem perform_frame_of_halted_iff (h : machine.halted = some cause) :
    machine.perform .frame = (.stopped cause, machine) ↔ machine.HeedsHalt := by
  rw [perform, renderFrame_of_halted h, HeedsHalt]
  by_cases hn : machine.config.stepsPerFrame ≠ 0
  · rw [if_pos hn]
    exact iff_of_true rfl (.inl hn)
  · rw [if_neg hn]
    by_cases hi : machine.cpu.bus.ppu.nmiEnabled = true
    · -- the interrupt notices, and by then vertical blank has begun
      rw [if_pos hi]
      simp only [Answer.of, Prod.mk.injEq, true_and, blanked_eq_self_iff]
      exact ⟨fun hv => .inr ⟨hi, hv⟩, fun h => (h.resolve_left hn).2⟩
    · rw [if_neg hi]
      refine iff_of_false ?_ ?_
      · intro he
        cases (congrArg Prod.fst he : Answer.picture _ = .stopped cause)
      · rintro (h | h)
        · exact hn h
        · exact hi h.1

/-! ## Calls -/

/-- Steps and interrupts always heed it. -/
theorem perform_of_halted_iff (h : machine.halted = some cause) {call : Call} (hc : call.isRun) :
    machine.perform call = (.stopped cause, machine) ↔ (call = .frame → machine.HeedsHalt) := by
  cases call with
  | step =>
    rw [perform, step_of_halted h]
    exact iff_of_true rfl (fun he => by cases he)
  | nmi =>
    rw [perform, nmi_of_halted h]
    exact iff_of_true rfl (fun he => by cases he)
  | frame =>
    rw [perform_frame_of_halted_iff h]
    exact ⟨fun hh _ => hh, fun hh => hh rfl⟩
  | _ => cases hc

/-- Whatever is called, nothing but the display changes. -/
theorem perform_of_halted (h : machine.halted = some cause) {call : Call} (hc : call.isRun) :
    ∃ vblank frame frames, (machine.perform call).2 = machine.withDisplay vblank frame frames := by
  have hself := machine.withDisplay_self.symm
  cases call with
  | step => rw [perform, step_of_halted h]; exact ⟨_, _, _, hself⟩
  | nmi => rw [perform, nmi_of_halted h]; exact ⟨_, _, _, hself⟩
  | frame =>
    rw [perform, renderFrame_of_halted h]
    split
    · exact ⟨_, _, _, hself⟩
    · split
      · exact ⟨_, _, _, machine.blanked_eq⟩
      · exact ⟨_, _, _, machine.finishFrame_blanked⟩
  | _ => cases hc

theorem after_of_halted (h : machine.halted = some cause) {calls : List Call}
    (hc : ∀ call ∈ calls, call.isRun) :
    ∃ vblank frame frames, machine.after calls = machine.withDisplay vblank frame frames := by
  induction calls generalizing machine with
  | nil => exact ⟨_, _, _, machine.withDisplay_self.symm⟩
  | cons call rest ih =>
    obtain ⟨vblank, frame, frames, he⟩ := perform_of_halted h (hc call List.mem_cons_self)
    rw [after_cons, he]
    exact ih h fun call hm => hc call (List.mem_cons_of_mem _ hm)

/-- A history heeds the halt if and only if each of its frames does. -/
theorem outcomes_of_halted_iff (h : machine.halted = some cause) {calls : List Call}
    (hc : ∀ call ∈ calls, call.isRun) :
    (∀ outcome ∈ machine.outcomes calls, outcome = (.stopped cause, machine)) ↔
      (.frame ∈ calls → machine.HeedsHalt) := by
  induction calls with
  | nil =>
    refine iff_of_true ?_ ?_
    · intro outcome hm
      cases hm
    · intro hm
      cases hm
  | cons call rest ih =>
    have hfirst := perform_of_halted_iff h (hc call List.mem_cons_self)
    have hrest := ih fun call hm => hc call (List.mem_cons_of_mem _ hm)
    rw [outcomes, List.forall_mem_cons, hfirst, List.mem_cons]
    constructor
    · rintro ⟨hcall, hothers⟩ (he | hm)
      · exact hcall he.symm
      · by_cases he : call = .frame
        · exact hcall he
        · rw [perform_of_halted_iff h (hc call List.mem_cons_self) |>.2 hcall] at hothers
          exact hrest.1 hothers hm
    · intro hh
      have hcall : call = .frame → machine.HeedsHalt := fun he => hh (.inl he.symm)
      refine ⟨hcall, ?_⟩
      rw [hfirst.2 hcall]
      exact hrest.2 fun hm => hh (.inr hm)

/-- **Main theorem.** A halted machine answers every step, interrupt and frame with its error and
stays as it is, however many there are and in whatever order, exactly if its frames heed the halt.
Frames that do not heed it still leave registers, instructions, memory, pads and the halt alone. -/
theorem outcomes_of_halted (machine : Machine) (cause : CpuError)
    (h : machine.halted = some cause) (calls : List Call) (hc : ∀ call ∈ calls, call.isRun) :
    ((∀ outcome ∈ machine.outcomes calls, outcome = (.stopped cause, machine)) ↔
      (.frame ∈ calls → machine.HeedsHalt)) ∧
    ∃ vblank frame frames, machine.after calls = machine.withDisplay vblank frame frames :=
  ⟨outcomes_of_halted_iff h hc, after_of_halted h hc⟩

end

/-! ## Running into the expansion area -/

/-- A program counter that points to the expansion area halts the machine. -/
theorem step_of_expansion {machine : Machine} (h : machine.halted = none)
    (hpc : Region.ofAddress machine.cpu.registers.pc = .expansion) :
    let pc := machine.cpu.registers.pc
    let cause : CpuError := .fetch pc (.expansionAccess pc)
    step machine = .error cause { machine with halted := some cause } := by
  obtain ⟨⟨registers, instructions, bus⟩, config, frame, frames, halted⟩ := machine
  cases h
  have hf := Console.read_of_expansion hpc bus
  simp only [step, onCpu]
  rw [Cpu.step_eq]
  simp only [Cpu.fetch, bind, EStateM.bind, Cpu.getRegisters, Cpu.read, Bus.read, hf]

theorem vector_filled (value : UInt8) (config : MachineConfig) :
    (powerOn (.filled value) config).vector resetVector = word value value := by
  have hpeek {address : UInt16} (h : Region.ofAddress address = .program) :
      Bus.peek (Console.ofCartridge (.filled value)) address = value := by
    simp only [Bus.peek, Console.peek, h]
    exact Cartridge.read_filled value address
  have hlo : Region.ofAddress resetVector = .program := by decide
  have hhi : Region.ofAddress (resetVector + 1) = .program := by decide
  rw [vector, Bus.peekWord]
  show word (Bus.peek (Console.ofCartridge (.filled value)) _)
    (Bus.peek (Console.ofCartridge (.filled value)) _) = _
  rw [hpeek hlo, hpeek hhi]

/-- A machine whose reset vector leads into the expansion area, after its first step. -/
def lost (config : MachineConfig) : Machine :=
  (powerOn (.filled 0x48) config).after [.reset, .step]

/-- Why that machine has halted. -/
def lostCause : CpuError := .fetch 0x4848 (.expansionAccess 0x4848)

/-- The lost machine, part by part. -/
theorem lost_eq (config : MachineConfig) :
    lost config = { powerOn (.filled 0x48) config with
      cpu := { registers := { pc := 0x4848 }, bus := .ofCartridge (.filled 0x48) }
      halted := some lostCause } := by
  have hword : word 0x48 0x48 = 0x4848 := by decide
  have hpc : Region.ofAddress 0x4848 = .expansion := by decide
  rw [lost, after_cons, perform, reset_eq, vector_filled, Answer.of, hword, after_cons, perform,
    step_of_expansion rfl hpc, Answer.of]
  rfl

theorem halted_lost (config : MachineConfig) : (lost config).halted = some lostCause := by
  rw [lost_eq]

/-- With interrupts disabled, the steps of a frame decide. -/
theorem heedsHalt_lost_iff (config : MachineConfig) :
    (lost config).HeedsHalt ↔ config.stepsPerFrame ≠ 0 := by
  have hnmi : (lost config).cpu.bus.ppu.nmiEnabled = false := by
    rw [lost_eq]
    show ((0 : UInt8) &&& 0x80 != 0) = false
    decide
  have hconfig : (lost config).config = config := by
    rw [lost_eq]
    rfl
  rw [HeedsHalt, hnmi, hconfig]
  exact ⟨fun h => h.resolve_right (fun hv => Bool.noConfusion hv.1), .inl⟩

theorem outcomes_of_halted_lost :
    (lost {}).halted = some lostCause ∧
      ∀ outcome ∈ (lost {}).outcomes [.step, .frame, .nmi, .frame],
        outcome = (.stopped lostCause, lost {}) := by
  have h := halted_lost {}
  have hc : ∀ call ∈ [Call.step, .frame, .nmi, .frame], call.isRun := by decide
  refine ⟨h, (outcomes_of_halted (lost {}) _ h _ hc).1.2 fun _ => ?_⟩
  exact (heedsHalt_lost_iff {}).2 (by decide)

/-- A frame of no steps goes through, though the machine has halted. -/
theorem frame_without_steps :
    (lost { stepsPerFrame := 0 }).halted = some lostCause ∧
      (lost { stepsPerFrame := 0 }).perform .frame ≠
        (.stopped lostCause, lost { stepsPerFrame := 0 }) := by
  have h := halted_lost { stepsPerFrame := 0 }
  refine ⟨h, ?_⟩
  rw [ne_eq, perform_frame_of_halted_iff h, heedsHalt_lost_iff]
  decide

/-! ## A program that halts -/

/-- Switch the picture on, and stop: `LDA #$1E`, `STA $2001`, `STP`. -/
def stopCode : List UInt8 := [0xA9, 0x1E, 0x8D, 0x01, 0x20, 0x02]

/-- The cartridge with that program. -/
def stopCartridge : Cartridge := .ofBank (Cartridge.codeBank stopCode)

/-- Why the program comes to its end. -/
def stopCause : CpuError := .unsupportedOpcode 0x02 .stp 0x8005

/-- A byte of the sample program, at either mirror of its bank. -/
theorem peek_stop {console : Console} (h : console.program = stopCartridge.program)
    {address : UInt16} {value : UInt8} (ha : 0x8000 ≤ address)
    (hv : (if (address.toNat - 0x8000) % 0x4000 = 0x3FFD then 0x80
      else stopCode.getD ((address.toNat - 0x8000) % 0x4000) 0) = value) :
    Bus.peek console address = value := by
  have hr := (Region.ofAddress_eq_program_iff address).2 ha
  rw [← Cartridge.read_codeBank stopCode ha] at hv
  simp only [Bus.peek, Console.peek, hr, h, ← hv]
  rfl

theorem read_stop {console : Console} (h : console.program = stopCartridge.program)
    {address : UInt16} {value : UInt8} (ha : 0x8000 ≤ address)
    (hv : (if (address.toNat - 0x8000) % 0x4000 = 0x3FFD then 0x80
      else stopCode.getD ((address.toNat - 0x8000) % 0x4000) 0) = value) :
    Bus.read address console = .ok value console := by
  have hr := (Region.ofAddress_eq_program_iff address).2 ha
  rw [← peek_stop h ha hv]
  exact Console.read_of_program hr console

/-- The first instruction. -/
theorem step_lda {console : Console} (h : console.program = stopCartridge.program) :
    Cpu.step ⟨{ pc := 0x8000 }, 0, console⟩ =
      .ok () ⟨({ pc := 0x8002 } : Registers).setA 0x1E, 1, console⟩ := by
  have h₀ : Bus.read 0x8000 console = .ok 0xA9 console := read_stop h (by decide) (by decide)
  have h₁ : Bus.read 0x8001 console = .ok 0x1E console := read_stop h (by decide) (by decide)
  have hop : Opcode.ofByte 0xA9 = .instruction (.read .lda .immediate) := by decide
  have hpc : (0x8000 : UInt16) + 1 = 0x8001 := by decide
  simp only [Cpu.step_eq, Cpu.fetch_eq, h₀, hop, hpc]
  simp only [Instruction.run, Cpu.resolve, Cpu.jump, bind, EStateM.bind, pure, EStateM.pure,
    Cpu.getRegisters, Cpu.update, Cpu.read, h₁]
  rfl

/-- The second instruction. -/
theorem step_sta {cpu : Cpu Console} (hpc : cpu.registers.pc = 0x8002)
    (ha : cpu.registers.a = 0x1E) (h : cpu.bus.program = stopCartridge.program) :
    Cpu.step cpu = .ok () {
      registers := { cpu.registers with pc := 0x8005 }
      instructions := cpu.instructions + 1
      bus := cpu.bus.mapPpu fun ppu =>
        { ppu with latches := { ppu.latches with mask := 0x1E } } } := by
  obtain ⟨r, n, console⟩ := cpu
  dsimp only at hpc ha h
  have h₀ : Bus.read 0x8002 console = .ok 0x8D console := read_stop h (by decide) (by decide)
  have h₁ : Bus.read 0x8003 console = .ok 0x01 console := read_stop h (by decide) (by decide)
  have h₂ : Bus.read 0x8004 console = .ok 0x20 console := read_stop h (by decide) (by decide)
  have hop : Opcode.ofByte 0x8D = .instruction (.write .sta .absolute) := by decide
  have hnext : (0x8002 : UInt16) + 1 = 0x8003 ∧ (0x8003 : UInt16) + 1 = 0x8004 := by decide
  have hword : word 0x01 0x20 = 0x2001 := by decide
  simp only [Cpu.step_eq, Cpu.fetch_eq, h₀, hop, hnext, hpc]
  simp only [Instruction.run, Cpu.resolve, Cpu.fetchWord, Cpu.fetch_eq, bind, EStateM.bind, pure,
    EStateM.pure, h₁, h₂, hnext, hword, Cpu.getRegisters, WriteOp.value, ha, Cpu.write]
  rfl

/-- The third opcode is not carried out, but it is stepped over. -/
theorem step_stp {cpu : Cpu Console} (hpc : cpu.registers.pc = 0x8005)
    (h : cpu.bus.program = stopCartridge.program) :
    Cpu.step cpu =
      .error stopCause { cpu with registers := { cpu.registers with pc := 0x8006 } } := by
  obtain ⟨r, n, console⟩ := cpu
  dsimp only at hpc h
  have h₀ : Bus.read 0x8005 console = .ok 0x02 console := read_stop h (by decide) (by decide)
  have hop : Opcode.ofByte 0x02 = .unstable .stp .implied := by decide
  simp only [Cpu.step_eq, Cpu.fetch_eq, h₀, hop, hpc]
  rfl

/-- The processor after the first instruction. -/
def loaded : Cpu Console where
  registers := ({ pc := 0x8002 } : Registers).setA 0x1E
  instructions := 1
  bus := .ofCartridge stopCartridge

/-- The machine after the second instruction. -/
def atStop (config : MachineConfig) : Machine :=
  { powerOn stopCartridge config with
    cpu := {
      registers := { ({} : Registers).setA 0x1E with pc := 0x8005 }
      instructions := 2
      bus := (Console.ofCartridge stopCartridge).mapPpu fun ppu =>
        { ppu with latches := { ppu.latches with mask := 0x1E } } } }

theorem vector_stop (config : MachineConfig) :
    (powerOn stopCartridge config).vector resetVector = 0x8000 := by
  have hprogram : (Console.ofCartridge stopCartridge).program = stopCartridge.program := rfl
  have hlo : Bus.peek (Console.ofCartridge stopCartridge) resetVector = 0 :=
    peek_stop hprogram (by decide) (by decide)
  have hhi : Bus.peek (Console.ofCartridge stopCartridge) (resetVector + 1) = 0x80 :=
    peek_stop hprogram (by decide) (by decide)
  have hword : word 0 0x80 = 0x8000 := by decide
  rw [vector, Bus.peekWord, powerOn, hlo, hhi, hword]

/-- The reset leads to the first instruction. -/
theorem reset_stop (config : MachineConfig) :
    (powerOn stopCartridge config).after [.reset] =
      { powerOn stopCartridge config with
        cpu := { registers := { pc := 0x8000 }, bus := .ofCartridge stopCartridge } } := by
  rw [after_cons, perform, reset_eq, vector_stop, Answer.of]
  rfl

theorem run_of_steps {machine next last : Machine} (h : step machine = .ok () next)
    (h' : step next = .ok () last) : run 2 machine = .ok () last := by
  simp only [run_succ, h, h', run_zero]

/-- Two steps, by one after the other. -/
theorem run_stop (config : MachineConfig) :
    run 2 ((powerOn stopCartridge config).after [.reset]) = .ok () (atStop config) := by
  have hlda : Cpu.step ⟨{ pc := 0x8000 }, 0, .ofCartridge stopCartridge⟩ = .ok () loaded :=
    step_lda rfl
  have hsta : Cpu.step loaded = .ok () (atStop config).cpu := step_sta rfl rfl rfl
  have hfirst : step ((powerOn stopCartridge config).after [.reset]) =
      .ok () { powerOn stopCartridge config with cpu := loaded } := by
    rw [reset_stop]
    exact onCpu_eq_ok rfl hlda
  exact run_of_steps hfirst (onCpu_eq_ok rfl hsta)

/-- The first frame has room for two instructions, and goes through. -/
theorem renderFrame_stop {config : MachineConfig} (h : config.stepsPerFrame = 2) :
    renderFrame ((powerOn stopCartridge config).after [.reset]) =
      .ok () (atStop config).blanked.finishFrame := by
  have hn : ((powerOn stopCartridge config).after [.reset]).config.stepsPerFrame = 2 := by
    rw [reset_stop]
    exact h
  have hnmi : (atStop config).blanked.cpu.bus.ppu.nmiEnabled = false := by
    show ((0 : UInt8) &&& 0x80 != 0) = false
    decide
  rw [renderFrame_eq, hn, run_stop]
  dsimp only
  rw [endFrame, hnmi, if_neg Bool.false_ne_true]

/-- A frame that begins with the third opcode halts the machine. -/
theorem renderFrame_of_stp (machine : Machine) {n : Nat}
    (hn : machine.config.stepsPerFrame = n + 1) (hhalted : machine.halted = none)
    (hpc : machine.cpu.registers.pc = 0x8005)
    (hprogram : machine.cpu.bus.program = stopCartridge.program) :
    renderFrame machine = .error stopCause { machine with
      cpu := { machine.cpu with registers := { machine.cpu.registers with pc := 0x8006 } }
      halted := some stopCause } := by
  rw [renderFrame_eq, hn, run_succ, step, onCpu_eq_error hhalted (step_stp hpc hprogram)]

/-- The machine as the third opcode leaves it. -/
def stopped (config : MachineConfig) : Machine :=
  { (atStop config).blanked.finishFrame with
    cpu := { (atStop config).blanked.cpu with
      registers := { (atStop config).cpu.registers with pc := 0x8006 } }
    halted := some stopCause }

/-- The second frame begins with the opcode that halts the machine. -/
theorem renderFrame_atStop {config : MachineConfig} (h : config.stepsPerFrame = 2) :
    renderFrame (atStop config).blanked.finishFrame = .error stopCause (stopped config) :=
  renderFrame_of_stp (atStop config).blanked.finishFrame h rfl rfl rfl

end Nes.Machine
