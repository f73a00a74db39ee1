import Nes.Proofs.Cpu.Failures
import Nes.Proofs.Graphics.Picture
import Nes.Proofs.Machine.Chronicle

/-!
# Frames and instructions on account

A machine counts its frames and its instructions and keeps its last picture. The three are written
at different places: instructions one by one inside a frame that may still fail, pictures at its end
or not at all, and a reset clears one of the three. So the counts are checked against the answers of
a history, where every call says what has become of it.

Results:

* `instructions_perform`, `drew_perform`: what one call adds, and what it shows.
* `instructions_after`, `frames_after`: what a history adds up to.
* `frame_after_of_none`, `frame_after_of_picture`: which picture is left.
* `accounts`: **the counts and the picture after any history of a machine with a cartridge.**
-/

namespace Nes

/-! ## The processor -/

namespace Cpu

/-- A step that succeeds is counted, and no other. -/
theorem instructions_step {β : Type} [Bus β] (cpu : Cpu β) : match step cpu with
    | .ok _ next => next.instructions = cpu.instructions + 1
    | .error _ next => next.instructions = cpu.instructions := by
  rw [step_eq, fetch_eq]
  cases Bus.read cpu.registers.pc cpu.bus with
  | error cause bus => rfl
  | ok opcode bus =>
    dsimp only
    cases Opcode.ofByte opcode with
    | unstable op mode => rfl
    | instruction i =>
      let read : Cpu β :=
        ⟨{ cpu.registers with pc := cpu.registers.pc + 1 }, cpu.instructions, bus⟩
      have h := instructions_run i read
      dsimp only
      cases hc : i.run read with
      | error cause next =>
        rw [hc] at h
        exact h
      | ok _ next =>
        rw [hc] at h
        exact congrArg (· + 1) h

end Cpu

namespace Machine

/-! ## What calls complete -/

/-- The answer is a picture. -/
def Answer.isPicture : Answer → Bool
  | .picture _ => true
  | _ => false

/-- The instructions that a run of `n` completes. -/
def completedIn : Nat → Machine → Nat
  | 0, _ => 0
  | n + 1, machine => match step machine with
    | .ok _ next => completedIn n next + 1
    | .error .. => 0

/-- The instructions that a call completes. -/
def completed (machine : Machine) : Call → Nat
  | .step => completedIn 1 machine
  | .frame => completedIn machine.config.stepsPerFrame machine
  | _ => 0

/-- The instructions that a history completes. -/
def completedAfter (machine : Machine) : List Call → Nat
  | [] => 0
  | call :: rest => machine.completed call + completedAfter (machine.perform call).2 rest

/-- The frames of a history that gave a picture. -/
def pictures (machine : Machine) (calls : List Call) : Nat :=
  (machine.outcomes calls).countP fun outcome => outcome.1.isPicture

/-! ## Instructions -/

theorem instructions_step (machine : Machine) :
    (final (step machine)).cpu.instructions =
      machine.cpu.instructions + completedIn 1 machine := by
  have h := machine.cpu.instructions_step
  obtain ⟨cpu, config, frame, frames, halted⟩ := machine
  cases halted with
  | some cause => rfl
  | none =>
    simp only [completedIn, step, onCpu] at h ⊢
    generalize Cpu.step cpu = result at h ⊢
    cases result with
    | ok _ next => exact h
    | error cause next => exact h

/-- A run counts the steps that it completes. -/
theorem instructions_run (n : Nat) (machine : Machine) :
    (final (run n machine)).cpu.instructions =
      machine.cpu.instructions + completedIn n machine := by
  induction n generalizing machine with
  | zero => rfl
  | succ n ih =>
    have hs := machine.instructions_step
    rw [run_succ, completedIn]
    simp only [completedIn] at hs
    cases hc : step machine with
    | error cause stopped =>
      rw [hc] at hs
      exact hs
    | ok _ next =>
      rw [hc] at hs
      have hn : next.cpu.instructions = machine.cpu.instructions + 1 := hs
      dsimp only
      rw [ih next, hn]
      omega

/-- A run that goes through has completed all of them. -/
theorem completedIn_of_run {n : Nat} {machine ran : Machine} (h : run n machine = .ok () ran) :
    completedIn n machine = n := by
  induction n generalizing machine with
  | zero => rfl
  | succ n ih =>
    rw [run_succ] at h
    rw [completedIn]
    cases hc : step machine with
    | error cause stopped =>
      rw [hc] at h
      cases h
    | ok _ next =>
      rw [hc] at h
      exact congrArg (· + 1) (ih h)

/-- A frame counts no other step than those of its run. -/
theorem instructions_renderFrame (machine : Machine) :
    (final (renderFrame machine)).cpu.instructions =
      machine.cpu.instructions + completedIn machine.config.stepsPerFrame machine := by
  have hr := instructions_run machine.config.stepsPerFrame machine
  rw [renderFrame_eq]
  cases hc : run machine.config.stepsPerFrame machine with
  | error cause stopped =>
    rw [hc] at hr
    exact hr
  | ok _ ran =>
    rw [hc] at hr
    exact ran.instructions_endFrame.trans hr

theorem instructions_onConsole {α : Type} (machine : Machine)
    (action : EStateM BusError Console α) :
    (final (onConsole action machine)).cpu.instructions = machine.cpu.instructions := by
  simp only [onConsole]
  cases action machine.cpu.bus <;> rfl

/-- What a call adds to the count of instructions. A reset starts it over. -/
theorem instructions_perform {machine : Machine} {call : Call} (h : call ≠ .reset) :
    (machine.perform call).2.cpu.instructions =
      machine.cpu.instructions + machine.completed call := by
  cases call with
  | step => rw [perform, state_of]; exact machine.instructions_step
  | nmi => rw [perform, state_of]; exact machine.instructions_nmi
  | frame => rw [perform, state_of]; exact machine.instructions_renderFrame
  | reset => exact absurd rfl h
  | read | write => rw [perform, state_of]; exact machine.instructions_onConsole _
  | press | setRegisters | peek | vector | disassemble => rfl

/-- A history without a reset counts what its calls complete. -/
theorem instructions_after {machine : Machine} {calls : List Call} (h : .reset ∉ calls) :
    (machine.after calls).cpu.instructions =
      machine.cpu.instructions + machine.completedAfter calls := by
  induction calls generalizing machine with
  | nil => rfl
  | cons call rest ih =>
    have hcall : call ≠ .reset := fun he => h (he ▸ List.mem_cons_self)
    have hrest : .reset ∉ rest := fun hm => h (List.mem_cons_of_mem call hm)
    rw [after_cons, ih hrest, instructions_perform hcall, completedAfter]
    omega

/-- A reset starts the count again. -/
theorem instructions_reset (machine : Machine) :
    (machine.perform .reset).2.cpu.instructions = 0 := by
  rw [perform, state_of, reset_eq]
  rfl

/-! ## Pictures -/

/-- The two machines are run alike, they show the same, and they have shown as much. -/
structure SameDisplay (machine next : Machine) : Prop where
  config : next.config = machine.config
  frame : next.frame = machine.frame
  frames : next.frames = machine.frames

theorem SameDisplay.refl (machine : Machine) : SameDisplay machine machine := ⟨rfl, rfl, rfl⟩

theorem SameDisplay.trans {machine next last : Machine} (h : SameDisplay machine next)
    (hl : SameDisplay next last) : SameDisplay machine last :=
  ⟨hl.config.trans h.config, hl.frame.trans h.frame, hl.frames.trans h.frames⟩

theorem sameDisplay_onCpu (action : EStateM CpuError (Cpu Console) Unit) (machine : Machine) :
    SameDisplay machine (final (onCpu action machine)) := by
  obtain ⟨cpu, config, frame, frames, halted⟩ := machine
  cases halted with
  | some cause => exact ⟨rfl, rfl, rfl⟩
  | none =>
    simp only [onCpu]
    cases action cpu <;> exact ⟨rfl, rfl, rfl⟩

/-- Steps draw nothing. -/
theorem sameDisplay_run (n : Nat) (machine : Machine) :
    SameDisplay machine (final (run n machine)) := by
  induction n generalizing machine with
  | zero => exact .refl machine
  | succ n ih =>
    have hs := sameDisplay_onCpu Cpu.step machine
    rw [run_succ]
    cases hc : step machine with
    | error cause stopped =>
      rw [← step, hc] at hs
      exact hs
    | ok _ next =>
      rw [← step, hc] at hs
      exact hs.trans (ih next)

theorem sameDisplay_onConsole {α : Type} (action : EStateM BusError Console α)
    (machine : Machine) : SameDisplay machine (final (onConsole action machine)) := by
  simp only [onConsole]
  cases action machine.cpu.bus <;> exact ⟨rfl, rfl, rfl⟩

/-- The machine that is left shows a picture of its own picture unit, and it is counted. -/
structure Drew (machine next : Machine) : Prop where
  config : next.config = machine.config
  frame : next.frame = Picture.draw next.cpu.bus.ppu (Vector.replicate _ 0)
  frames : next.frames = machine.frames + 1

/-- The end of a frame draws one picture and counts it. -/
theorem drew_finishFrame {machine next : Machine} (h : SameDisplay machine next) :
    Drew machine next.finishFrame :=
  ⟨h.config, Picture.draw_congr _ _ _, congrArg (· + 1) h.frames⟩

/-- It is not drawn if the interrupt before it fails. -/
theorem drew_endFrame {machine ran : Machine} (h : SameDisplay machine ran) :
    match endFrame ran with
    | .ok _ next => Drew machine next
    | .error _ next => SameDisplay machine next := by
  have hb : SameDisplay machine ran.blanked := ⟨h.config, h.frame, h.frames⟩
  have hn := hb.trans (sameDisplay_onCpu Cpu.nmi ran.blanked)
  unfold endFrame
  by_cases hi : ran.blanked.cpu.bus.ppu.nmiEnabled = true
  · rw [if_pos hi]
    rw [← nmi] at hn
    cases hc : nmi ran.blanked with
    | error cause stopped =>
      rw [hc] at hn
      exact hn
    | ok _ entered =>
      rw [hc] at hn
      exact drew_finishFrame hn
  · rw [if_neg hi]
    exact drew_finishFrame hb

/-- A frame draws a picture at its end, or it fails and shows what was shown before. -/
theorem drew_renderFrame (machine : Machine) :
    match renderFrame machine with
    | .ok _ next => Drew machine next
    | .error _ next => SameDisplay machine next := by
  have hr := sameDisplay_run machine.config.stepsPerFrame machine
  rw [renderFrame_eq]
  cases hc : run machine.config.stepsPerFrame machine with
  | error cause stopped =>
    rw [hc] at hr
    exact hr
  | ok _ ran =>
    rw [hc] at hr
    exact drew_endFrame hr

theorem sameDisplay_of {α ε : Type} {machine : Machine} {ok : α → Machine → Answer}
    {error : ε → Answer} {result : EStateM.Result ε Machine α}
    (hok : ∀ value next, (ok value next).isPicture = false)
    (herror : ∀ cause, (error cause).isPicture = false) (h : SameDisplay machine (final result)) :
    (Answer.of ok error result).1.isPicture = false ∧
      SameDisplay machine (Answer.of ok error result).2 := by
  cases result with
  | ok value next => exact ⟨hok value next, h⟩
  | error cause next => exact ⟨herror cause, h⟩

/-- Only a frame is answered with a picture. -/
theorem sameDisplay_perform {machine : Machine} {call : Call} (h : call ≠ .frame) :
    (machine.perform call).1.isPicture = false ∧
      SameDisplay machine (machine.perform call).2 := by
  cases call with
  | step => exact sameDisplay_of (fun _ _ => rfl) (fun _ => rfl) (sameDisplay_onCpu _ machine)
  | nmi => exact sameDisplay_of (fun _ _ => rfl) (fun _ => rfl) (sameDisplay_onCpu _ machine)
  | frame => exact absurd rfl h
  | reset =>
    rw [perform, reset_eq]
    exact ⟨rfl, rfl, rfl, rfl⟩
  | read | write =>
    exact sameDisplay_of (fun _ _ => rfl) (fun _ => rfl) (sameDisplay_onConsole _ machine)
  | press | setRegisters | peek | vector | disassemble => exact ⟨rfl, rfl, rfl, rfl⟩

/-- What a call shows, by its answer. -/
theorem drew_perform (machine : Machine) (call : Call) :
    match (machine.perform call).1.isPicture with
    | true => Drew machine (machine.perform call).2
    | false => SameDisplay machine (machine.perform call).2 := by
  by_cases h : call = .frame
  · subst h
    have hd := machine.drew_renderFrame
    rw [perform]
    cases hc : renderFrame machine with
    | ok _ next =>
      rw [hc] at hd
      exact hd
    | error cause next =>
      rw [hc] at hd
      exact hd
  · obtain ⟨hp, hs⟩ := machine.sameDisplay_perform h
    rw [hp]
    exact hs

/-! ## Histories -/

theorem pictures_cons (machine : Machine) (call : Call) (rest : List Call) :
    machine.pictures (call :: rest) = (machine.perform call).1.isPicture.toNat +
      (machine.perform call).2.pictures rest := by
  rw [pictures, outcomes, List.countP_cons, pictures, Nat.add_comm]
  cases (machine.perform call).1.isPicture <;> rfl

/-- The frame count is the number of pictures that were answered. -/
theorem frames_after (machine : Machine) (calls : List Call) :
    (machine.after calls).frames = machine.frames + machine.pictures calls := by
  induction calls generalizing machine with
  | nil => rfl
  | cons call rest ih =>
    have hd := machine.drew_perform call
    rw [after_cons, ih, pictures_cons]
    cases hp : (machine.perform call).1.isPicture with
    | true =>
      rw [hp] at hd
      rw [hd.frames, Bool.toNat_true]
      omega
    | false =>
      rw [hp] at hd
      rw [hd.frames, Bool.toNat_false]
      omega

/-- Without a picture, the old one stays. -/
theorem frame_after_of_none {machine : Machine} {calls : List Call}
    (h : machine.pictures calls = 0) : (machine.after calls).frame = machine.frame := by
  induction calls generalizing machine with
  | nil => rfl
  | cons call rest ih =>
    have hd := machine.drew_perform call
    rw [pictures_cons] at h
    cases hp : (machine.perform call).1.isPicture with
    | true =>
      rw [hp, Bool.toNat_true] at h
      omega
    | false =>
      rw [hp] at hd
      rw [after_cons, ih (by omega), hd.frame]

/-- The picture that is shown is the last that was answered. -/
theorem frame_after_of_picture {machine : Machine} {pixels : Array UInt32}
    (h : (machine.perform .frame).1 = .picture pixels) {since : List Call}
    (hs : (machine.perform .frame).2.pictures since = 0) :
    (machine.after (.frame :: since)).frame =
      Picture.draw (machine.perform .frame).2.cpu.bus.ppu (Vector.replicate _ 0) := by
  have hd := machine.drew_perform .frame
  rw [h] at hd
  rw [after_cons, frame_after_of_none hs, hd.frame]

/-- No call changes how a machine is run. -/
theorem config_perform (machine : Machine) (call : Call) :
    (machine.perform call).2.config = machine.config := by
  have hd := machine.drew_perform call
  cases hp : (machine.perform call).1.isPicture with
  | true =>
    rw [hp] at hd
    exact hd.config
  | false =>
    rw [hp] at hd
    exact hd.config

theorem config_after (machine : Machine) (calls : List Call) :
    (machine.after calls).config = machine.config := by
  induction calls generalizing machine with
  | nil => rfl
  | cons call rest ih => exact (ih _).trans (machine.config_perform call)

/-- A frame that gives a picture has completed all its steps. -/
theorem completed_frame {machine : Machine}
    (h : (machine.perform .frame).1.isPicture = true) :
    machine.completed .frame = machine.config.stepsPerFrame := by
  rw [perform, renderFrame_eq] at h
  cases hc : run machine.config.stepsPerFrame machine with
  | error cause stopped =>
    rw [hc] at h
    cases h
  | ok _ ran => exact completedIn_of_run hc

/-- A history of frames that all give a picture, with nothing else in it that runs instructions. -/
theorem completedAfter_of_frames {machine : Machine} {calls : List Call} (hs : .step ∉ calls)
    (hf : ∀ before rest, calls = before ++ .frame :: rest →
      ((machine.after before).perform .frame).1.isPicture = true) :
    machine.completedAfter calls = calls.count .frame * machine.config.stepsPerFrame := by
  induction calls generalizing machine with
  | nil => exact (Nat.zero_mul _).symm
  | cons call rest ih =>
    have hrest : (machine.perform call).2.completedAfter rest = _ :=
      ih (fun hm => hs (List.mem_cons_of_mem _ hm)) fun before later he =>
        hf (call :: before) later (congrArg (call :: ·) he)
    rw [completedAfter, hrest, config_perform, List.count_cons]
    by_cases hc : call = .frame
    · subst hc
      have hfirst : (machine.perform .frame).1.isPicture = true := hf [] rest rfl
      rw [completed_frame hfirst, beq_self_eq_true, if_pos rfl, Nat.succ_mul, Nat.add_comm]
    · have hn : machine.completed call = 0 := by
        cases call with
        | step => exact absurd List.mem_cons_self hs
        | frame => exact absurd rfl hc
        | _ => rfl
      rw [hn, Nat.zero_add, if_neg (by rwa [beq_iff_eq]), Nat.add_zero]

/-- The counts and the picture of a machine with a cartridge after a history. -/
structure Accounted (cartridge : Cartridge) (config : MachineConfig) (calls : List Call) :
    Prop where
  /-- The frames that gave a picture are counted, over resets, too. -/
  frames : ((powerOn cartridge config).after calls).frames =
    (powerOn cartridge config).pictures calls
  /-- The instructions that were completed since the last reset are counted. -/
  instructions {before since : List Call} (h : calls = before ++ .reset :: since)
    (hr : .reset ∉ since) :
    ((powerOn cartridge config).after calls).cpu.instructions =
      ((powerOn cartridge config).after (before ++ [.reset])).completedAfter since
  /-- Where there was no reset, it is all instructions that were completed. -/
  first (hr : .reset ∉ calls) :
    ((powerOn cartridge config).after calls).cpu.instructions =
      (powerOn cartridge config).completedAfter calls
  /-- Frames that all give a picture, without other steps, add up to their number of steps. -/
  steady {before since : List Call} (h : calls = before ++ .reset :: since)
    (hr : .reset ∉ since) (hs : .step ∉ since)
    (hf : ∀ quiet rest, since = quiet ++ .frame :: rest →
      (((powerOn cartridge config).after (before ++ .reset :: quiet)).perform
        .frame).1.isPicture = true) :
    ((powerOn cartridge config).after calls).cpu.instructions =
      since.count .frame * config.stepsPerFrame
  /-- Before the first picture all pixels are zero. -/
  black (h : (powerOn cartridge config).pictures calls = 0) :
    ((powerOn cartridge config).after calls).frame = Vector.replicate _ 0
  /-- Afterwards they are those of the picture unit as the last frame that gave a picture left
  it. -/
  picture {before since : List Call} {pixels : Array UInt32}
    (h : calls = before ++ .frame :: since)
    (hp : (((powerOn cartridge config).after before).perform .frame).1 = .picture pixels)
    (hs : ((powerOn cartridge config).after (before ++ [.frame])).pictures since = 0) :
    let frame := ((powerOn cartridge config).after calls).frame
    let ppu := ((powerOn cartridge config).after (before ++ [.frame])).cpu.bus.ppu
    frame = Picture.draw ppu (Vector.replicate _ 0) ∧
      ∀ i (hi : i < Picture.columns * Picture.rows), Picture.Shows ppu (i % 256) (i / 256) frame[i]
  /-- A frame that fails leaves the picture and the number of frames as they were. -/
  failed {cause : CpuError}
    (h : (((powerOn cartridge config).after calls).perform .frame).1 = .stopped cause) :
    SameDisplay ((powerOn cartridge config).after calls)
      ((powerOn cartridge config).after (calls ++ [.frame]))

/-- A drawn picture shows what the picture unit held when it was drawn. -/
theorem shows_draw {cartridge : Cartridge} {console : Console}
    (h : Console.Reaches (.ofCartridge cartridge) console)
    (frame : Vector UInt32 (Picture.columns * Picture.rows)) {i : Nat}
    (hi : i < Picture.columns * Picture.rows) :
    Picture.Shows console.ppu (i % 256) (i / 256) (Picture.draw console.ppu frame)[i] := by
  obtain ⟨log, hl⟩ := h.holds
  rw [Picture.getElem_draw_picture console.ppu frame hi]
  exact Picture.shows_pixelAt _ _ _ hl.palette_lt

/-- **Main theorem.** After any history of a machine with a cartridge, the number of frames is that
of the frames that gave a picture since it was built, and the number of instructions is that of the
instructions completed since the last reset, inside frames or not. The picture is all zero at first
and then what the picture unit held at the end of the last frame that gave one. A frame that fails
changes neither the picture nor the number of frames. -/
theorem accounts (cartridge : Cartridge) (config : MachineConfig) (calls : List Call) :
    Accounted cartridge config calls where
  frames := by
    rw [frames_after]
    exact Nat.zero_add _
  instructions := by
    rintro before since rfl hr
    have hz := ((powerOn cartridge config).after before).instructions_reset
    rw [after_append, after_cons, instructions_after hr, hz, Nat.zero_add, after_append]
    rfl
  first hr := by
    rw [instructions_after hr]
    exact Nat.zero_add _
  steady := by
    rintro before since rfl hr hs hf
    let reset := ((powerOn cartridge config).after before).perform .reset |>.2
    have hz := ((powerOn cartridge config).after before).instructions_reset
    have hc : reset.config = config :=
      (config_perform _ _).trans ((powerOn cartridge config).config_after before)
    have hf' (quiet rest : List Call) (he : since = quiet ++ .frame :: rest) :
        ((reset.after quiet).perform .frame).1.isPicture = true := by
      have h := hf quiet rest he
      rwa [after_append, after_cons] at h
    rw [after_append, after_cons, instructions_after hr, hz, Nat.zero_add,
      completedAfter_of_frames hs hf', hc]
  black h := by
    rw [frame_after_of_none h]
    rfl
  picture := by
    rintro before since pixels rfl hp hs
    have hm : (powerOn cartridge config).after (before ++ [.frame]) =
        (((powerOn cartridge config).after before).perform .frame).2 := after_append ..
    have hframe : ((powerOn cartridge config).after (before ++ .frame :: since)).frame =
        Picture.draw ((powerOn cartridge config).after (before ++ [.frame])).cpu.bus.ppu
          (Vector.replicate _ 0) := by
      rw [hm] at hs ⊢
      rw [after_append, frame_after_of_picture hp hs]
    refine ⟨hframe, fun i hi => ?_⟩
    rw [hframe]
    exact shows_draw ((powerOn cartridge config).reaches_after _) _ hi
  failed h := by
    have hd := ((powerOn cartridge config).after calls).drew_perform .frame
    rw [h] at hd
    rw [after_append]
    exact hd

end Machine

end Nes
