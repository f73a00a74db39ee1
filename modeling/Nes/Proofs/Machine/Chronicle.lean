import Nes.Machine.Notice
import Nes.Proofs.Console.Reachable
import Nes.Proofs.Machine.Calls

/-!
# Chronicles

A console has no life of its own. It is read and written, by the processor or from outside, it is
reset, vertical blank begins, and buttons are pressed. The chronicle of a machine lists these
moments in their order, reads with the bytes that they gave, and it is complete: a console goes
through its moments from the first to the last and through nothing else. What every moment keeps,
every history of a machine keeps.

Results:

* `tells_perform`: the chronicle of one call, whether it succeeds or not.
* `tells_after`: **the chronicle of any history.**
* `accessesIn_chronicle`: the accesses of a history, read off its chronicle.
-/

namespace Nes

namespace Console

/-! ## Moments -/

/-- Something that happens to the console of a machine. -/
inductive Moment where
  /-- An access, which may have been refused. -/
  | access (access : Access)
  | reset
  /-- Vertical blank begins. -/
  | blank
  | press (socket : Socket) (button : Button) (pressed : Bool)
deriving DecidableEq

namespace Moment

/-- The moment turns one console into the other. -/
def Turns (before after : Console) : Moment → Prop
  | access (.read address value) => Console.read address before = .ok value after
  | access (.readFailed address) => ∃ cause, Console.read address before = .error cause after
  | access (.write address value) => Console.write address value before = .ok () after
  | access (.writeFailed address value) =>
    ∃ cause, Console.write address value before = .error cause after
  | reset => after = before.reset
  | blank => after = before.mapPpu Ppu.startVblank
  | press socket button pressed => after = before.mapControllers (·.press socket button pressed)

/-- The access that is made at the moment, if there is one. -/
def access? : Moment → Option Access
  | access a => some a
  | reset | blank | press .. => none

/-- What happens, as an event of the console. -/
def event : Moment → Event
  | access (.read address _) | access (.readFailed address) => .read address
  | access (.write address value) | access (.writeFailed address value) => .write address value
  | reset => .reset
  | blank => .ppu .startVblank
  | press socket button pressed => .controllers (.press socket button pressed)

theorem Turns.eq_apply {moment : Moment} {before after : Console} (h : moment.Turns before after) :
    after = moment.event.apply before := by
  cases moment with
  | access access =>
    cases access with
    | read address value => exact (congrArg final h).symm
    | write address value => exact (congrArg final h).symm
    | readFailed address =>
      obtain ⟨cause, h⟩ := h
      exact (congrArg final h).symm
    | writeFailed address value =>
      obtain ⟨cause, h⟩ := h
      exact (congrArg final h).symm
  | reset | blank | press => exact h

end Moment

/-- The moments lead from one console to the other, one after the other. -/
inductive Tells : Console → List Moment → Console → Prop
  | nil (console : Console) : Tells console [] console
  | cons {console next last : Console} {moment : Moment} {rest : List Moment}
    (h : moment.Turns console next) (hr : Tells next rest last) :
    Tells console (moment :: rest) last

variable {start console last : Console} {log rest : List Moment}

theorem Tells.append (h : Tells start log console) (hr : Tells console rest last) :
    Tells start (log ++ rest) last := by
  induction h with
  | nil => exact hr
  | cons hm _ ih => exact .cons hm (ih hr)

/-- One moment more. -/
theorem Tells.snoc {moment : Moment} (h : Tells start log console)
    (hm : moment.Turns console last) : Tells start (log ++ [moment]) last :=
  h.append (.cons hm (.nil last))

/-- A chronicle can be cut anywhere. -/
theorem Tells.split (h : Tells start (log ++ rest) last) :
    ∃ console, Tells start log console ∧ Tells console rest last := by
  induction log generalizing start with
  | nil => exact ⟨start, .nil start, h⟩
  | cons moment log ih =>
    cases h with
    | cons hm hr =>
      obtain ⟨console, hlog, hrest⟩ := ih hr
      exact ⟨console, .cons hm hlog, hrest⟩

/-- A console is what its chronicle makes of the one at the start. -/
theorem Tells.eq_after (h : Tells start log console) :
    console = after (log.map Moment.event) start := by
  induction h with
  | nil => rfl
  | cons hm _ ih =>
    rw [ih, hm.eq_apply]
    rfl

theorem Tells.reaches (h : Tells start log console) : Reaches start console :=
  ⟨log.map Moment.event, h.eq_after⟩

/-- The accesses in a chronicle. -/
def accessesIn (log : List Moment) : List Access := log.filterMap Moment.access?

theorem accessesIn_cons (moment : Moment) (log : List Moment) :
    accessesIn (moment :: log) = moment.access?.toList ++ accessesIn log := by
  cases moment <;> rfl

theorem accessesIn_append (log rest : List Moment) :
    accessesIn (log ++ rest) = accessesIn log ++ accessesIn rest :=
  List.filterMap_append

theorem accessesIn_access (accesses : List Access) :
    accessesIn (accesses.map .access) = accesses := by
  induction accesses with
  | nil => rfl
  | cons access rest ih => rw [List.map_cons, accessesIn_cons, ih]; rfl

/-! ## Recorders -/

/-- The recorder is around the console, and its accesses are all that has happened. -/
structure Recounts (start : Console) (recorder : Recorder Console) (console : Console) : Prop where
  around : recorder.bus = console
  told : Tells start (recorder.accesses.toList.map .access) console

theorem Recounts.push {recorder : Recorder Console} {access : Access} {next : Console}
    (h : Recounts start recorder console) (hm : (Moment.access access).Turns console next) :
    Recounts start ⟨next, recorder.accesses.push access⟩ next := by
  refine ⟨rfl, ?_⟩
  rw [Array.toList_push, List.map_append]
  exact h.told.snoc hm

/-- Each access through the recorder is one moment of the console inside. -/
theorem simulation_recounts (start : Console) : Bus.Simulation (Recounts start) where
  read address := by
    rintro ⟨console, log⟩ _ h
    cases h.around
    simp only [Bus.read]
    cases hc : Console.read address console with
    | ok value next => exact .ok value (h.push hc)
    | error cause next => exact .error cause (h.push ⟨cause, hc⟩)
  write address value := by
    rintro ⟨console, log⟩ _ h
    cases h.around
    simp only [Bus.write]
    cases hc : Console.write address value console with
    | ok _ next => exact .ok () (h.push hc)
    | error cause next => exact .error cause (h.push ⟨cause, hc⟩)

end Console

namespace Machine

open Console (Moment Reaches Recounts Tells accessesIn accessesIn_append accessesIn_access
  simulation_recounts)

/-! ## Accesses -/

/-- The accesses that the processor makes while it does something. A halted machine makes none. -/
def accessesOf (action : EStateM CpuError (Cpu (Recorder Console)) Unit) (machine : Machine) :
    List Access :=
  if machine.halted.isSome then [] else (final (action machine.watched)).bus.accesses.toList

/-- The accesses of a run of `n` instructions. -/
def runAccesses : Nat → Machine → List Access
  | 0, _ => []
  | n + 1, machine =>
    machine.accessesOf Cpu.step ++ match step machine with
      | .ok _ machine => runAccesses n machine
      | .error .. => []

/-- The accesses of the interrupt at the end of a frame. -/
def blankAccesses (machine : Machine) : List Access :=
  if machine.blanked.cpu.bus.ppu.nmiEnabled then machine.blanked.accessesOf Cpu.nmi else []

/-- The accesses of a call. -/
def accesses (machine : Machine) : Call → List Access
  | .step => machine.accessesOf Cpu.step
  | .nmi => machine.accessesOf Cpu.nmi
  | .frame =>
    let n := machine.config.stepsPerFrame
    runAccesses n machine ++ match run n machine with
      | .ok _ machine => machine.blankAccesses
      | .error .. => []
  | .reset => accessesOf Cpu.reset { machine.mapConsole Console.reset with halted := none }
  | .read address => match Bus.read address machine.cpu.bus with
    | .ok value _ => [.read address value]
    | .error .. => [.readFailed address]
  | .write address value => match Bus.write address value machine.cpu.bus with
    | .ok .. => [.write address value]
    | .error .. => [.writeFailed address value]
  | .press .. | .setRegisters .. | .peek .. | .vector .. | .disassemble .. => []

/-- The accesses of a history, oldest first. -/
def history (machine : Machine) : List Call → List Access
  | [] => []
  | call :: rest => machine.accesses call ++ history (machine.perform call).2 rest

/-! ## Chronicles -/

/-- What happens to the console in a call. -/
def moments (machine : Machine) : Call → List Moment
  | .frame =>
    let n := machine.config.stepsPerFrame
    (runAccesses n machine).map .access ++ match run n machine with
      | .ok _ machine => .blank :: machine.blankAccesses.map .access
      | .error .. => []
  | .reset => .reset :: (machine.accesses .reset).map .access
  | .press socket button pressed => [.press socket button pressed]
  | .step => (machine.accesses .step).map .access
  | .nmi => (machine.accesses .nmi).map .access
  | .read address => (machine.accesses (.read address)).map .access
  | .write address value => (machine.accesses (.write address value)).map .access
  | .setRegisters _ | .peek _ | .vector _ | .disassemble _ => []

/-- What happens to the console in a history, first things first. -/
def chronicle (machine : Machine) : List Call → List Moment
  | [] => []
  | call :: rest => machine.moments call ++ chronicle (machine.perform call).2 rest

theorem accessesIn_moments (machine : Machine) (call : Call) :
    accessesIn (machine.moments call) = machine.accesses call := by
  cases call with
  | frame =>
    rw [moments, accesses, accessesIn_append, accessesIn_access]
    cases run machine.config.stepsPerFrame machine with
    | error cause stopped => rfl
    | ok _ ran =>
      refine congrArg (runAccesses machine.config.stepsPerFrame machine ++ ·) ?_
      exact accessesIn_access ran.blankAccesses
  | reset => exact accessesIn_access _
  | press socket button pressed => rfl
  | step | nmi | read | write => exact accessesIn_access _
  | setRegisters | peek | vector | disassemble => rfl

/-- The accesses of a chronicle are those of the history. -/
theorem accessesIn_chronicle (machine : Machine) (calls : List Call) :
    accessesIn (machine.chronicle calls) = machine.history calls := by
  induction calls generalizing machine with
  | nil => rfl
  | cons call rest ih => rw [chronicle, history, accessesIn_append, accessesIn_moments, ih]

/-! ## The processor -/

variable {machine : Machine}

/-- A machine that is watched begins with an empty record. -/
theorem recounts_watched (machine : Machine) :
    Cpu.Related (Recounts machine.cpu.bus) machine.cpu.instructions machine.watched machine.cpu :=
  ⟨rfl, rfl, rfl, ⟨rfl, .nil _⟩⟩

/-- What the processor does is told by its accesses. -/
theorem tells_onCpu {watched : EStateM CpuError (Cpu (Recorder Console)) Unit}
    {action : EStateM CpuError (Cpu Console) Unit}
    (ha : Agree (fun x y => Recounts machine.cpu.bus x.bus y.bus) (watched machine.watched)
      (action machine.cpu)) :
    Tells machine.cpu.bus ((machine.accessesOf watched).map .access)
      (final (onCpu action machine)).cpu.bus := by
  cases hh : machine.halted with
  | some cause =>
    rw [accessesOf, hh, onCpu_of_halted hh]
    exact .nil _
  | none =>
    rw [accessesOf, hh, cpu_final_onCpu hh]
    exact ha.final.told

theorem tells_step (machine : Machine) :
    Tells machine.cpu.bus ((machine.accessesOf Cpu.step).map .access)
      (final (step machine)).cpu.bus := by
  have hs := Cpu.simulates_step (simulation_recounts machine.cpu.bus) machine.recounts_watched
  refine tells_onCpu (hs.mono fun hm => ?_)
  obtain ⟨_, -, hm⟩ := hm
  exact hm.bus

theorem tells_nmi (machine : Machine) :
    Tells machine.cpu.bus ((machine.accessesOf Cpu.nmi).map .access)
      (final (nmi machine)).cpu.bus := by
  have hs := Cpu.simulates_nmi (simulation_recounts machine.cpu.bus) machine.recounts_watched
  exact tells_onCpu (hs.mono fun h => h.bus)

/-- A reset of the console comes first, and then the read of the vector. -/
theorem tells_reset (machine : Machine) :
    Tells machine.cpu.bus (machine.moments .reset) (final (reset machine)).cpu.bus := by
  refine .cons rfl ?_
  let cleared : Machine := { machine.mapConsole Console.reset with halted := none }
  have hs := Cpu.simulates_reset (simulation_recounts cleared.cpu.bus) cleared.recounts_watched
  refine tells_onCpu (hs.mono fun hm => ?_)
  obtain ⟨_, hm⟩ := hm
  exact hm.bus

/-! ## Frames -/

/-- A run is told by the accesses of its steps, one after the other. -/
theorem tells_run (machine : Machine) (n : Nat) :
    Tells machine.cpu.bus ((machine.runAccesses n).map .access)
      (final (run n machine)).cpu.bus := by
  induction n generalizing machine with
  | zero => exact .nil _
  | succ n ih =>
    have hs := machine.tells_step
    rw [run_succ, runAccesses, List.map_append]
    cases hc : step machine with
    | ok _ next =>
      rw [hc] at hs
      exact hs.append (ih next)
    | error cause next =>
      rw [hc] at hs
      exact hs.append (.nil _)

/-- A frame ends with the blank, and with the accesses of the interrupt if there is one. -/
theorem tells_endFrame (machine : Machine) :
    Tells machine.cpu.bus (.blank :: machine.blankAccesses.map .access)
      (final (endFrame machine)).cpu.bus := by
  refine .cons rfl ?_
  rw [blankAccesses, endFrame]
  split
  · have hn := machine.blanked.tells_nmi
    cases hc : nmi machine.blanked with
    | ok _ next =>
      rw [hc] at hn
      exact hn
    | error cause next =>
      rw [hc] at hn
      exact hn
  · exact .nil _

theorem tells_frame (machine : Machine) :
    Tells machine.cpu.bus (machine.moments .frame) (final (renderFrame machine)).cpu.bus := by
  have hr := machine.tells_run machine.config.stepsPerFrame
  rw [renderFrame_eq, moments]
  cases hc : run machine.config.stepsPerFrame machine with
  | error cause stopped =>
    rw [hc] at hr
    exact hr.append (.nil _)
  | ok _ ran =>
    rw [hc] at hr
    exact hr.append ran.tells_endFrame

/-! ## Calls and histories -/

/-- **One call** is told by its moments, also where it fails. -/
theorem tells_perform (machine : Machine) (call : Call) :
    Tells machine.cpu.bus (machine.moments call) (machine.perform call).2.cpu.bus := by
  cases call with
  | step => rw [perform, state_of]; exact machine.tells_step
  | nmi => rw [perform, state_of]; exact machine.tells_nmi
  | frame => rw [perform, state_of]; exact machine.tells_frame
  | reset => rw [perform, state_of]; exact machine.tells_reset
  | press socket button pressed => exact .cons rfl (.nil _)
  | read address =>
    rw [perform, state_of, final_onConsole, moments, accesses]
    simp only [Bus.read]
    cases hc : Console.read address machine.cpu.bus with
    | ok value next => exact .cons hc (.nil next)
    | error cause next => exact .cons ⟨cause, hc⟩ (.nil next)
  | write address value =>
    rw [perform, state_of, final_onConsole, moments, accesses]
    simp only [Bus.write]
    cases hc : Console.write address value machine.cpu.bus with
    | ok _ next => exact .cons hc (.nil next)
    | error cause next => exact .cons ⟨cause, hc⟩ (.nil next)
  | setRegisters | peek | vector | disassemble => exact .nil _

/-- **Main theorem.** Whatever calls are made of a machine, its console goes through the chronicle
of the calls. -/
theorem tells_after (machine : Machine) (calls : List Call) :
    Tells machine.cpu.bus (machine.chronicle calls) (machine.after calls).cpu.bus := by
  induction calls generalizing machine with
  | nil => exact .nil _
  | cons call rest ih => exact (machine.tells_perform call).append (ih _)

/-- Whatever calls are made, the console of a machine is reached by events. -/
theorem reaches_after (machine : Machine) (calls : List Call) :
    Reaches machine.cpu.bus (machine.after calls).cpu.bus :=
  (machine.tells_after calls).reaches

end Machine

end Nes
