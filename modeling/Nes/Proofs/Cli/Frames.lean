import Mathlib.Data.Nat.Find
import Mathlib.Order.Bounds.Basic
import Nes.Cartridge.Disk
import Nes.Proofs.Cli.Dumps
import Nes.Proofs.Machine.Accounts
import Nes.Proofs.Machine.Halting

/-!
# A run ends with the first frame that fails

A run of the command line is a loop over frames that is left at the first that fails. The number of
frames that it tells is the machine's own count, the exit code is kept beside the loop, and what is
shown at the end is the machine as the loop has left it. All three follow from one number: the
number of frames that go through. The dumps are read back from the output, so what they show is the
state of that machine.

Results:

* `Machine.exists_completes`: every machine gets through some number of frames.
* `Machine.Completes.frames_left`: the machine has counted as many.
* `result_renderFrames`, `notices_renderFrames`: the loop, by that number.
* `run_contract`: **what a run comes to, for every file and all options.**
-/

namespace Nes

namespace Machine

/-! ## Frames in a row -/

/-- The machine after `n` frames, whatever comes of each. -/
def afterFrames (machine : Machine) (n : Nat) : Machine := machine.after (.replicate n .frame)

/-- The frame fails when the machine comes to it. Frames are counted from zero. -/
def FailsAt (machine : Machine) (i : Nat) : Prop :=
  ∃ cause stopped, renderFrame (machine.afterFrames i) = .error cause stopped

/-- Of `limit` frames `k` go through: `k` is the first frame that fails, or `limit` if none does. -/
def Completes (machine : Machine) (limit k : Nat) : Prop :=
  IsLeast {i | i = limit ∨ machine.FailsAt i} k

/-- What `n` frames report. -/
def frameReports : Nat → Machine → Array Notice
  | 0, _ => #[]
  | n + 1, machine => machine.frameNotices ++ frameReports n (machine.afterFrames 1)

theorem afterFrames_succ (machine : Machine) (n : Nat) :
    machine.afterFrames (n + 1) = (machine.afterFrames 1).afterFrames n := rfl

theorem afterFrames_one (machine : Machine) :
    machine.afterFrames 1 = final (renderFrame machine) := by
  rw [afterFrames, List.replicate_one, after_cons, after_nil, perform, state_of]

/-- One frame more. -/
theorem final_renderFrame_afterFrames (machine : Machine) (n : Nat) :
    final (renderFrame (machine.afterFrames n)) = machine.afterFrames (n + 1) := by
  rw [← afterFrames_one, afterFrames, afterFrames, afterFrames, ← after_append,
    List.replicate_one, ← List.replicate_succ']

/-- Some number of frames goes through: the least at which the frames end. -/
theorem exists_completes (machine : Machine) (limit : Nat) :
    ∃ k, machine.Completes limit k := by
  classical
  have h : ∃ i, i = limit ∨ machine.FailsAt i := ⟨limit, .inl rfl⟩
  exact ⟨Nat.find h, Nat.find_spec h, fun i hi => Nat.find_min' h hi⟩

namespace Completes

variable {machine : Machine} {limit k : Nat}

theorem le (h : machine.Completes limit k) : k ≤ limit := h.2 (.inl rfl)

/-- If it is not the limit, the next frame fails. -/
theorem failsAt (h : machine.Completes limit k) (hk : k ≠ limit) : machine.FailsAt k :=
  h.1.resolve_left hk

/-- Every frame before that goes through. -/
theorem renderFrame_of_lt (h : machine.Completes limit k) {i : Nat} (hi : i < k) :
    renderFrame (machine.afterFrames i) = .ok () (machine.afterFrames (i + 1)) := by
  rw [← final_renderFrame_afterFrames]
  cases hr : renderFrame (machine.afterFrames i) with
  | ok _ next => rfl
  | error cause stopped => exact absurd (h.2 (.inr ⟨cause, stopped, hr⟩)) (Nat.not_le_of_lt hi)

/-- A frame that goes through leaves one frame less. -/
theorem tail (h : machine.Completes (limit + 1) (k + 1)) :
    (machine.afterFrames 1).Completes limit k := by
  refine ⟨h.1.imp_left Nat.succ.inj, fun i hi => ?_⟩
  exact Nat.le_of_succ_le_succ (h.2 (hi.imp_left (congrArg (· + 1))))

/-- The machine counts them. -/
theorem frames_eq (h : machine.Completes limit k) {n : Nat} (hn : n ≤ k) :
    (machine.afterFrames n).frames = machine.frames + n := by
  induction n with
  | zero => rfl
  | succ n ih =>
    have hd := drew_renderFrame (machine.afterFrames n)
    rw [h.renderFrame_of_lt hn] at hd
    rw [hd.frames, ih (Nat.le_of_succ_le hn), Nat.add_assoc]

end Completes

/-- The machine that a run leaves when `k` of its `limit` frames have gone through: one frame more
was begun, unless all of them are done. -/
def left (machine : Machine) (limit k : Nat) : Machine := machine.afterFrames (min (k + 1) limit)

/-- What a run reports of its frames when `k` of `limit` have gone through: everything, if the
machine is run so, and otherwise only the halt. -/
def reports (machine : Machine) (limit k : Nat) : Array Notice :=
  if machine.config.trace then frameReports (min (k + 1) limit) machine
  else if k = limit then #[]
  else match (machine.afterFrames k).renderFrame with
    | .ok .. => #[]
    | .error cause _ => #[.halted cause]

namespace Completes

variable {machine : Machine} {limit k : Nat}

theorem left_of_eq (h : k = limit) : machine.left limit k = machine.afterFrames limit := by
  rw [left, h, Nat.min_eq_right (Nat.le_succ limit)]

/-- A frame that fails has been begun, and has left the machine. -/
theorem left_of_ne (h : machine.Completes limit k) (hk : k ≠ limit) :
    machine.left limit k = machine.afterFrames (k + 1) := by
  have hle := h.le
  rw [left, Nat.min_eq_left (by omega)]

/-- The frame that fails is not counted. -/
theorem frames_left (h : machine.Completes limit k) :
    (machine.left limit k).frames = machine.frames + k := by
  by_cases hk : k = limit
  · rw [left_of_eq hk, ← hk, h.frames_eq (Nat.le_refl k)]
  · obtain ⟨cause, stopped, hf⟩ := h.failsAt hk
    -- a frame that fails is not counted
    have hd := drew_renderFrame (machine.afterFrames k)
    rw [h.left_of_ne hk, ← final_renderFrame_afterFrames]
    rw [hf] at hd ⊢
    exact hd.frames.trans (h.frames_eq (Nat.le_refl k))

end Completes

end Machine

namespace Cli

open Machine (Completes)

/-! ## The loop -/

/-- The loop comes to what its last frame comes to. -/
theorem result_renderFrames {machine : Machine} {limit k : Nat} (h : machine.Completes limit k)
    (notices : Array Notice) :
    (renderFrames limit notices machine).2 =
      if k = limit then .ok () (machine.afterFrames limit)
      else (machine.afterFrames k).renderFrame := by
  induction limit generalizing machine k notices with
  | zero =>
    have hk : k = 0 := Nat.le_zero.1 h.le
    rw [if_pos hk]
    rfl
  | succ limit ih =>
    rw [renderFrames]
    cases k with
    | zero =>
      obtain ⟨cause, stopped, hf⟩ := h.failsAt (Nat.succ_ne_zero limit).symm
      have hf' : machine.renderFrame = .error cause stopped := hf
      rw [if_neg (Nat.succ_ne_zero limit).symm, hf, hf']
    | succ k =>
      have hok : machine.renderFrame = .ok () (machine.afterFrames 1) :=
        h.renderFrame_of_lt (Nat.succ_pos k)
      rw [hok]
      dsimp only
      rw [ih h.tail, ← Machine.afterFrames_succ, ← Machine.afterFrames_succ]
      simp only [Nat.add_right_cancel_iff]

/-- The reports of a run are those of the frames that it begins. -/
theorem notices_renderFrames {machine : Machine} {limit k : Nat} (h : machine.Completes limit k)
    (notices : Array Notice) :
    (renderFrames limit notices machine).1 = notices ++ machine.reports limit k := by
  induction limit generalizing machine k notices with
  | zero =>
    have hk : k = 0 := Nat.le_zero.1 h.le
    subst hk
    rw [renderFrames, Machine.reports]
    split <;> simp [Machine.frameReports]
  | succ limit ih =>
    have hconfig : (machine.afterFrames 1).config = machine.config := Machine.config_after _ _
    rw [renderFrames]
    cases k with
    | zero =>
      obtain ⟨cause, stopped, hf⟩ := h.failsAt (Nat.succ_ne_zero limit).symm
      have hf' : machine.renderFrame = .error cause stopped := hf
      have hstopped : stopped.config = machine.config := by
        rw [← hconfig, Machine.afterFrames_one, hf']
        rfl
      rw [hf', Machine.reports]
      by_cases ht : machine.config.trace = true
      · simp [ht, hstopped, Machine.frameReports]
      · simp [ht, hstopped, hf]
    | succ k =>
      have hok : machine.renderFrame = .ok () (machine.afterFrames 1) :=
        h.renderFrame_of_lt (Nat.succ_pos k)
      rw [hok]
      dsimp only
      rw [ih h.tail, Machine.reports, Machine.reports, hconfig]
      by_cases ht : machine.config.trace = true
      · simp [ht, Machine.frameReports, Nat.add_min_add_right, Array.append_assoc]
      · simp [ht, ← Machine.afterFrames_succ]

/-! ## Runs -/

/-- How a machine is run with these options. -/
def Options.config (options : Options) : MachineConfig where
  stepsPerFrame := options.stepsPerFrame
  trace := options.trace

/-- What the log says last, if a frame has failed after `k` of `limit`. -/
def stopLines (machine : Machine) (limit k : Nat) : List LogLine :=
  if k = limit then []
  else match (machine.afterFrames k).renderFrame with
    | .ok .. => []
    | .error cause _ =>
      [complaint ("stopped after " ++ toString k ++ " frames: " ++ cause.message)]

/-- The outcome of a run in which `k` frames of the machine go through. When the machine starts,
`shown` has been printed and the log has `said` something. A dump is read off the output if it was
asked for, and shows the machine as the last frame that was begun has left it. -/
structure Outcome.Tells (outcome : Outcome) (options : Options) (shown : List String)
    (said : List LogLine) (machine : Machine) (k : Nat) : Prop where
  success : outcome.exitCode = 0 ↔ k = options.frames
  halt : outcome.exitCode = exitHalted ↔ k < options.frames
  output : outcome.output = shown ++ (if options.vectors then vectorLines machine else []) ++
    ["", "Running " ++ toString options.frames ++ " frames...",
      "Completed " ++ toString k ++ " frames."] ++
    stateLines options (machine.left options.frames k)
  log : outcome.log = said ++ (machine.reports options.frames k).toList.map Notice.line ++
    stopLines machine options.frames k
  cpuDump : cpuDump? outcome.output =
    if options.dumpCpu then some (.ofMachine (machine.left options.frames k)) else none
  ppuDump : ppuDump? outcome.output =
    if options.dumpPpu then some (.ofMachine (machine.left options.frames k)) else none

/-- No line before the dumps is the heading of one, so the output tells what they show. -/
theorem Outcome.tells_of_output {outcome : Outcome} {options : Options} {shown : List String}
    {said : List LogLine} {machine : Machine} {k : Nat} (hshown : Headless shown)
    (success : outcome.exitCode = 0 ↔ k = options.frames)
    (halt : outcome.exitCode = exitHalted ↔ k < options.frames)
    (output : outcome.output = shown ++ (if options.vectors then vectorLines machine else []) ++
      ["", "Running " ++ toString options.frames ++ " frames...",
        "Completed " ++ toString k ++ " frames."] ++
      stateLines options (machine.left options.frames k))
    (log : outcome.log = said ++ (machine.reports options.frames k).toList.map Notice.line ++
      stopLines machine options.frames k) :
    outcome.Tells options shown said machine k := by
  have hvectors : Headless (if options.vectors then vectorLines machine else []) := by
    split_ifs
    · exact headless_vectorLines machine
    · exact headless_nil
  have hbefore := headless_append.2 ⟨headless_append.2 ⟨hshown, hvectors⟩,
    headless_frameLines options.frames k⟩
  refine ⟨success, halt, output, log, ?_, ?_⟩
  · rw [output, cpuDump?_stateLines hbefore]
  · rw [output, ppuDump?_stateLines hbefore]

/-- A run of a machine that has drawn nothing tells what its frames come to. -/
theorem tells_runMachine {options : Options} {machine : Machine} {k : Nat}
    (h : machine.Completes options.frames k) (h₀ : machine.frames = 0) :
    (runMachine options machine).Tells options [] [] machine k := by
  have hnotices := notices_renderFrames h #[]
  have hresult := result_renderFrames h #[]
  have hframes := h.frames_left
  rw [h₀, Nat.zero_add] at hframes
  rw [Array.empty_append] at hnotices
  have hle := h.le
  unfold runMachine
  generalize renderFrames options.frames #[] machine = ended at hnotices hresult ⊢
  obtain ⟨notices, result⟩ := ended
  dsimp only at hnotices hresult ⊢
  subst hnotices
  by_cases hk : k = options.frames
  · rw [if_pos hk, ← Completes.left_of_eq hk] at hresult
    subst hresult
    refine Outcome.tells_of_output headless_nil ?_ ?_ ?_ ?_
    · simp [hk]
    · simp [hk, exitHalted]
    · dsimp only
      rw [hframes, List.nil_append, List.append_assoc]
    · simp [stopLines, hk]
  · obtain ⟨cause, stopped, hf⟩ := h.failsAt hk
    have hleft : machine.left options.frames k = stopped := by
      rw [h.left_of_ne hk, ← Machine.final_renderFrame_afterFrames, hf]
      rfl
    rw [if_neg hk, hf] at hresult
    subst hresult
    rw [hleft] at hframes
    refine Outcome.tells_of_output headless_nil ?_ ?_ ?_ ?_
    · simp [hk, exitHalted]
    · exact iff_of_true rfl (Nat.lt_of_le_of_ne hle hk)
    · dsimp only
      rw [hframes, hleft, List.nil_append, List.append_assoc]
    · dsimp only
      rw [stopLines, if_neg hk, hf, hframes, List.nil_append]

/-- The machine that a run starts: as the reset leaves it. -/
def started (cartridge : Cartridge) (config : MachineConfig) : Machine :=
  (Machine.powerOn cartridge config).after [.reset]

/-- A machine with a cartridge is always ready to run. -/
theorem start_eq (cartridge : Cartridge) (config : MachineConfig) :
    Machine.start cartridge config = .ok (started cartridge config) := by
  simp only [Machine.start, started, Machine.after_cons, Machine.after_nil, Machine.perform,
    Machine.reset_eq]
  rfl

theorem resetNotices_powerOn (cartridge : Cartridge) (config : MachineConfig) :
    (Machine.powerOn cartridge config).resetNotices =
      #[.resetDone (started cartridge config).cpu.registers.pc] := by
  simp only [Machine.resetNotices, started, Machine.after_cons, Machine.after_nil,
    Machine.perform, Machine.reset_eq]
  rfl

/-- What the log says before the first frame. -/
def openingLines (file : FileContents) (machine : Machine) : List LogLine :=
  (Notice.ofFile file).map Notice.line ++ [(Notice.resetDone machine.cpu.registers.pc).line]

/-- A run from a file tells the same behind what is shown of the cartridge. -/
theorem tells_run {options : Options} {file : FileContents} {cartridge : Cartridge}
    (hc : Cartridge.ofFile options.rom file = .ok cartridge) {k : Nat}
    (h : (started cartridge options.config).Completes options.frames k) :
    (run options file).Tells options (cartridgeLines cartridge)
      (openingLines file (started cartridge options.config)) (started cartridge options.config)
      k := by
  have hstarted : (started cartridge options.config).frames = 0 := by
    rw [started, Machine.after_cons, Machine.after_nil, Machine.perform, Machine.reset_eq]
    rfl
  obtain ⟨hsuccess, hhalt, houtput, hlog, -, -⟩ := tells_runMachine h hstarted
  have hs := start_eq cartridge options.config
  have hr := resetNotices_powerOn cartridge options.config
  rw [Options.config] at hs hr
  simp only [run, hc, runCartridge, hs, hr]
  refine Outcome.tells_of_output (headless_cartridgeLines cartridge) hsuccess hhalt ?_ ?_
  · rw [← Options.config, houtput]
    simp only [List.nil_append, List.append_assoc]
  · rw [← Options.config, hlog, openingLines]
    simp only [List.map_toArray, List.map_cons, List.map_nil, List.nil_append, List.append_assoc]

/-- **Main theorem.** A run exits with 1 and shows nothing if and only if the file gives no
cartridge. Otherwise its machine starts, and of its frames some number `k` go through: as many as
were asked for, or those before the first that fails. The run exits with 0 or with 2 accordingly, it
tells `k`, it does and reports nothing after the frame that fails, and what is shown of the machine
is what that frame has left: the dumps that were asked for are in the output, with the registers and
latches of that machine, and no others are. -/
theorem run_contract (options : Options) (file : FileContents) :
    ((run options file).exitCode = exitNotLoaded ↔
        ∃ cause, Cartridge.ofFile options.rom file = .error cause) ∧
      ((run options file).output = [] ↔
        ∃ cause, Cartridge.ofFile options.rom file = .error cause) ∧
      ∀ cartridge, Cartridge.ofFile options.rom file = .ok cartridge →
        ∃ machine k, Machine.start cartridge options.config = .ok machine ∧
          machine.Completes options.frames k ∧
          (run options file).Tells options (cartridgeLines cartridge) (openingLines file machine)
            machine k := by
  cases hc : Cartridge.ofFile options.rom file with
  | error cause =>
    obtain ⟨hexit, houtput⟩ := run_of_not_loaded hc
    exact ⟨iff_of_true hexit ⟨cause, rfl⟩, iff_of_true houtput ⟨cause, rfl⟩, nofun⟩
  | ok cartridge =>
    obtain ⟨k, hk⟩ := (started cartridge options.config).exists_completes options.frames
    have ht := tells_run hc hk
    refine ⟨iff_of_false ?_ nofun, iff_of_false ?_ nofun, ?_⟩
    · intro h
      rcases Nat.lt_or_eq_of_le hk.le with hlt | heq
      · rw [ht.halt.2 hlt] at h
        cases h
      · rw [ht.success.2 heq] at h
        cases h
    · rw [ht.output]
      simp [cartridgeLines]
    · rintro _ ⟨⟩
      exact ⟨_, k, start_eq cartridge options.config, hk, ht⟩

/-! ## A run that stops -/

/-- A disk with a program that completes one frame of two steps and halts in the next. -/
def stopDisk : Disk where
  files := [("stop.nes", Cartridge.bankImage (Cartridge.codeBank Machine.stopCode))]

/-- The request to run it for five frames and to show what it leaves. -/
def stopOptions : Options where
  rom := "/stop.nes"
  frames := 5
  stepsPerFrame := 2
  dumpCpu := true
  dumpPpu := true

/-- Letters without a value stand together, and a value follows its letter directly. -/
theorem read_stopArguments : read ["-r", "/stop.nes", "-f5", "-s2", "-cp"] = .run stopOptions := by
  decide

/-- The file is a cartridge. -/
theorem ofFile_stop :
    Cartridge.ofFile stopOptions.rom (stopDisk.lookup stopOptions.rom) =
      .ok Machine.stopCartridge := by
  have hname : Disk.IsName "stop.nes" := ⟨by decide, by decide, by decide, by decide⟩
  have hfile : stopDisk.lookup stopOptions.rom =
      .bytes (Cartridge.bankImage (Cartridge.codeBank Machine.stopCode)) :=
    Disk.lookup_root hname rfl
  rw [hfile]
  exact Cartridge.ofImage_bankImage (Cartridge.codeBank Machine.stopCode)

section

variable {config : MachineConfig}

/-- The first frame goes through. -/
theorem afterFrames_stop (h : config.stepsPerFrame = 2) :
    (started Machine.stopCartridge config).afterFrames 1 =
      (Machine.atStop config).blanked.finishFrame := by
  rw [Machine.afterFrames_one, started, Machine.renderFrame_stop h]
  rfl

/-- The second fails. -/
theorem failsAt_stop (h : config.stepsPerFrame = 2) :
    (started Machine.stopCartridge config).FailsAt 1 := by
  have hframe := Machine.renderFrame_atStop h
  rw [← afterFrames_stop h] at hframe
  exact ⟨_, _, hframe⟩

/-- Of two frames and more, one goes through. -/
theorem completes_stop (h : config.stepsPerFrame = 2) {limit : Nat} (hl : 1 < limit) :
    (started Machine.stopCartridge config).Completes limit 1 := by
  refine ⟨.inr (failsAt_stop h), ?_⟩
  rintro i (rfl | ⟨cause, stopped, hi⟩)
  · exact Nat.le_of_lt hl
  · cases i with
    | zero =>
      rw [Machine.afterFrames, List.replicate_zero, Machine.after_nil, started,
        Machine.renderFrame_stop h] at hi
      cases hi
    | succ i => exact Nat.succ_le_succ (Nat.zero_le i)

/-- What is left is the machine as the third opcode has left it. -/
theorem left_stop (h : config.stepsPerFrame = 2) {limit : Nat} (hl : 1 < limit) :
    (started Machine.stopCartridge config).left limit 1 = Machine.stopped config := by
  rw [Machine.left, Nat.min_eq_left hl, ← Machine.final_renderFrame_afterFrames,
    afterFrames_stop h, Machine.renderFrame_atStop h]
  rfl

end

/-- Behind the third opcode the bank is filled with zero. -/
theorem line_stopped (config : MachineConfig) :
    Disassembly.line (Machine.stopped config).cpu.bus 0x8006 =
      "$8006  00        BRK                    " := by
  have hprogram : (Machine.stopped config).cpu.bus.program = Machine.stopCartridge.program := rfl
  generalize (Machine.stopped config).cpu.bus = console at hprogram ⊢
  have h₀ : Bus.peek console 0x8006 = 0 := Machine.peek_stop hprogram (by decide) (by decide)
  have h₁ : Bus.peek console (0x8006 + 1) = 0 := Machine.peek_stop hprogram (by decide) (by decide)
  have h₂ : Bus.peek console (0x8006 + 2) = 0 := Machine.peek_stop hprogram (by decide) (by decide)
  rw [Disassembly.line, h₀, h₁, h₂]
  decide

/-- Five frames are asked for. One goes through and the second halts, and what is shown of processor
and picture unit is what the second has left. -/
theorem run_contract_stop :
    let outcome := execute ["-r", "/stop.nes", "-f5", "-s2", "-cp"] stopDisk.lookup
    outcome.exitCode = exitHalted ∧ "Completed 1 frames." ∈ outcome.output ∧
      cpuDump? outcome.output = some {
        registers := { ({} : Registers).setA 0x1E with pc := 0x8006 }
        bits := 0x34
        instructions := 2
        next := "$8006  00        BRK                    " } ∧
      ppuDump? outcome.output = some {
        control := 0, mask := 0x1E, status := 0x80, vramAddress := 0, scroll := [0, 0]
        oamAddress := 0, palette := List.replicate 32 0 } := by
  intro outcome
  have hrun : outcome = run stopOptions (stopDisk.lookup stopOptions.rom) := by
    simp only [outcome, execute, read_stopArguments]
  obtain ⟨machine, k, hs, hk, ht⟩ :=
    (run_contract stopOptions (stopDisk.lookup stopOptions.rom)).2.2 _ ofFile_stop
  rw [start_eq] at hs
  cases hs
  have hk₁ : k = 1 := hk.unique (completes_stop rfl (by decide))
  subst hk₁
  rw [hrun]
  refine ⟨ht.halt.2 (by decide), ?_, ht.cpuDump.trans ?_, ht.ppuDump.trans ?_⟩
  · rw [ht.output]
    have htext : "Completed " ++ toString 1 ++ " frames." = "Completed 1 frames." := by decide
    simp only [List.mem_append, List.mem_cons, htext, true_or, or_true]
  · have hdump : stopOptions.dumpCpu = true := rfl
    have hpc : (Machine.stopped stopOptions.config).cpu.registers.pc = 0x8006 := rfl
    rw [left_stop rfl (by decide), if_pos hdump, CpuDump.ofMachine, hpc, line_stopped]
    rfl
  · have hdump : stopOptions.dumpPpu = true := rfl
    rw [left_stop rfl (by decide), if_pos hdump]
    rfl

end Cli

end Nes
