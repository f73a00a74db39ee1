import Nes.Proofs.Console.Memory
import Nes.Proofs.Machine.Accounts
import Nes.Proofs.Machine.Halting

/-!
# What a reset forgets

A reset leaves the memories, the buttons that are held, the picture and the number of frames. All
else is gone: registers, the count of instructions, what the picture unit keeps between accesses,
the turns of the pads and the halt. So two machines that agree on what a reset leaves cannot be told
apart after one. The picture of the time before is the one thing that can still be seen, and only
until the next is drawn.

Results:

* `reset_congr`: consoles with the same cartridge that hold the same are the same after a reset.
* `alike_perform`: machines that differ in their pictures alone answer a call alike.
* `forgets`: **two machines that hold the same are not told apart after a reset.**
-/

namespace Nes

/-! ## Consoles -/

theorem Controllers.reset_congr {x y : Controllers}
    (h : ∀ socket, (x.pad socket).buttons = (y.pad socket).buttons) : x.reset = y.reset := by
  obtain ⟨⟨one, reads₁⟩, ⟨two, reads₂⟩, held⟩ := x
  obtain ⟨⟨one', reads₁'⟩, ⟨two', reads₂'⟩, held'⟩ := y
  have h₁ : one = one' := h .one
  have h₂ : two = two' := h .two
  rw [Controllers.reset, Controllers.reset]
  dsimp only
  rw [h₁, h₂]

namespace Console

/-- The two consoles hold the same in all memories, and the same buttons are held down. -/
structure SameContents (x y : Console) : Prop where
  ram : x.ram = y.ram
  saveRam : x.saveRam = y.saveRam
  oam : x.ppu.oam = y.ppu.oam
  palette : x.ppu.memory.palette = y.ppu.memory.palette
  nametables : x.ppu.memory.nametables = y.ppu.memory.nametables
  pattern : x.ppu.memory.pattern = y.ppu.memory.pattern
  buttons (socket : Socket) :
    (x.controllers.pad socket).buttons = (y.controllers.pad socket).buttons

theorem program_write (address : UInt16) (value : UInt8) (console : Console) :
    (final (write address value console)).program = console.program := by
  by_cases hr : Region.ofAddress address = .ram
  · rw [write_of_ram hr]
    rfl
  · by_cases hs : Region.ofAddress address = .saveRam
    · rw [write_of_saveRam hs]
      rfl
    · exact (write_keepsMemory hr hs value console).program

theorem program_event (event : Event) (console : Console) :
    (event.apply console).program = console.program := by
  cases event with
  | read address => exact (read_keepsMemory address console).program
  | write address value => exact program_write address value console
  | reset | ppu | controllers => rfl

theorem Reaches.program {start console : Console} (h : Reaches start console) :
    console.program = start.program := by
  obtain ⟨events, rfl⟩ := h
  induction events generalizing start with
  | nil => rfl
  | cons event rest ih => exact ih.trans (program_event event start)

/-- What the cartridge decides the consoles share anyway, and the rest is cleared. -/
theorem reset_congr {cartridge : Cartridge} {x y : Console} (hx : Reaches (ofCartridge cartridge) x)
    (hy : Reaches (ofCartridge cartridge) y) (h : SameContents x y) : x.reset = y.reset := by
  have hprogram : x.program = y.program := hx.program.trans hy.program.symm
  have hpads : x.controllers.reset = y.controllers.reset := Controllers.reset_congr h.buttons
  obtain ⟨_, hpx⟩ := hx.holds
  obtain ⟨_, hpy⟩ := hy.holds
  have hmemory : x.ppu.memory = y.ppu.memory := by
    have hmirroring := hpx.mirroring_eq.trans hpy.mirroring_eq.symm
    have hwritable := hpx.writable_eq.trans hpy.writable_eq.symm
    have hpattern := h.pattern
    have hnametables := h.nametables
    have hpalette := h.palette
    generalize x.ppu.memory = a at *
    generalize y.ppu.memory = b at *
    obtain ⟨pattern, writable, nametables, palette, mirroring⟩ := a
    obtain ⟨pattern', writable', nametables', palette', mirroring'⟩ := b
    cases hmirroring
    cases hwritable
    cases hpattern
    cases hnametables
    cases hpalette
    rfl
  have hppu : x.ppu.reset = y.ppu.reset := by
    rw [Ppu.reset, Ppu.reset, h.oam, hmemory]
  show (⟨x.ram, x.saveRam, x.program, x.ppu.reset, x.controllers.reset⟩ : Console) =
    ⟨y.ram, y.saveRam, y.program, y.ppu.reset, y.controllers.reset⟩
  rw [h.ram, h.saveRam, hprogram, hppu, hpads]

theorem sameContents_reset (console : Console) : SameContents console console.reset :=
  ⟨rfl, rfl, rfl, rfl, rfl, rfl, fun socket => by cases socket <;> rfl⟩

end Console

/-! ## Machines that are alike -/

namespace Machine

/-- The two machines are the same but for their pictures and the number of them. -/
structure Alike (x y : Machine) : Prop where
  cpu : x.cpu = y.cpu
  config : x.config = y.config
  halted : x.halted = y.halted

theorem alike_onCpu (action : EStateM CpuError (Cpu Console) Unit) :
    Simulates Alike (onCpu action) (onCpu action) := by
  rintro ⟨cpu, config, frame, frames, halted⟩ ⟨cpu', config', frame', frames', halted'⟩ ⟨h₁, h₂, h₃⟩
  cases h₁
  cases h₂
  cases h₃
  cases halted with
  | some cause => exact .error cause ⟨rfl, rfl, rfl⟩
  | none =>
    simp only [onCpu]
    cases action cpu with
    | ok _ next => exact .ok () ⟨rfl, rfl, rfl⟩
    | error cause next => exact .error cause ⟨rfl, rfl, rfl⟩

theorem alike_onConsole {α : Type} (action : EStateM BusError Console α) :
    Simulates Alike (onConsole action) (onConsole action) := by
  rintro ⟨⟨registers, instructions, bus⟩, config, frame, frames, halted⟩
    ⟨⟨registers', instructions', bus'⟩, config', frame', frames', halted'⟩ ⟨h₁, h₂, h₃⟩
  cases h₁
  cases h₂
  cases h₃
  simp only [onConsole]
  cases action bus with
  | ok value next => exact .ok value ⟨rfl, rfl, rfl⟩
  | error cause next => exact .error cause ⟨rfl, rfl, rfl⟩

theorem alike_run (n : Nat) : Simulates Alike (run n) (run n) := by
  induction n with
  | zero => exact .pure ()
  | succ n ih => exact (alike_onCpu Cpu.step).bind fun _ => ih

theorem Alike.map {x y : Machine} (h : Alike x y) (f : Console → Console) :
    Alike (x.mapConsole f) (y.mapConsole f) := by
  obtain ⟨cpu, config, frame, frames, halted⟩ := x
  obtain ⟨h₁, h₂, h₃⟩ := h
  cases h₁
  exact ⟨rfl, h₂, h₃⟩

theorem Alike.finishFrame {x y : Machine} (h : Alike x y) : Alike x.finishFrame y.finishFrame :=
  ⟨h.cpu, h.config, h.halted⟩

theorem alike_endFrame : Simulates Alike endFrame endFrame := by
  intro x y h
  have hb : Alike x.blanked y.blanked := h.map _
  have hn := alike_onCpu Cpu.nmi hb
  rw [← nmi] at hn
  unfold endFrame
  rw [hb.cpu]
  split
  · generalize nmi x.blanked = p at hn ⊢
    generalize nmi y.blanked = q at hn ⊢
    cases hn with
    | ok _ h => exact .ok () h.finishFrame
    | error cause h => exact .error cause h
  · exact .ok () hb.finishFrame

theorem alike_renderFrame : Simulates Alike renderFrame renderFrame := by
  intro x y h
  have hr := alike_run y.config.stepsPerFrame h
  rw [renderFrame_eq, renderFrame_eq, h.config]
  generalize run y.config.stepsPerFrame x = p at hr ⊢
  generalize run y.config.stepsPerFrame y = q at hr ⊢
  cases hr with
  | ok _ h => exact alike_endFrame h
  | error cause h => exact .error cause h

/-- The reset vector is in program ROM. -/
theorem vector_congr {x y : Machine} (h : x.cpu.bus.program = y.cpu.bus.program) :
    x.vector resetVector = y.vector resetVector := by
  have hpeek {address : UInt16} (hr : Region.ofAddress address = .program) :
      Bus.peek x.cpu.bus address = Bus.peek y.cpu.bus address := by
    simp only [Bus.peek, Console.peek, hr, h]
  have hlo : Region.ofAddress resetVector = .program := by decide
  have hhi : Region.ofAddress (resetVector + 1) = .program := by decide
  rw [vector, vector, Bus.peekWord, Bus.peekWord, hpeek hlo, hpeek hhi]

theorem alike_reset : Simulates Alike reset reset := by
  intro x y h
  rw [reset_eq, reset_eq, vector, vector, h.cpu, h.config]
  exact .ok () ⟨rfl, rfl, rfl⟩

/-! ## Calls -/

/-- Alike machines that have both drawn a picture show the same one. -/
theorem frame_of_drew {x y x' y' : Machine} (hx : Drew x x') (hy : Drew y y') (h : Alike x' y') :
    x'.frame = y'.frame := by
  rw [hx.frame, hy.frame, h.cpu]

theorem answer_of_agree {α ε : Type} {ok : α → Machine → Answer} {error : ε → Answer}
    {p q : EStateM.Result ε Machine α} (h : Agree Alike p q)
    (hok : ∀ value x y, p = .ok value x → q = .ok value y → ok value x = ok value y) :
    (Answer.of ok error p).1 = (Answer.of ok error q).1 ∧
      Alike (Answer.of ok error p).2 (Answer.of ok error q).2 := by
  cases h with
  | ok value h => exact ⟨hok value _ _ rfl rfl, h⟩
  | error cause h => exact ⟨rfl, h⟩

theorem alike_perform {x y : Machine} (h : Alike x y) (call : Call) :
    (x.perform call).1 = (y.perform call).1 ∧ Alike (x.perform call).2 (y.perform call).2 := by
  cases call with
  | step => exact answer_of_agree (alike_onCpu Cpu.step h) fun _ _ _ _ _ => rfl
  | nmi => exact answer_of_agree (alike_onCpu Cpu.nmi h) fun _ _ _ _ _ => rfl
  | frame =>
    have ha := alike_renderFrame h
    refine answer_of_agree ha fun _ x' y' hx hy => ?_
    have hdx := x.drew_renderFrame
    have hdy := y.drew_renderFrame
    rw [hx] at ha hdx
    rw [hy] at ha hdy
    cases ha with
    | ok _ h => rw [frame_of_drew hdx hdy h]
  | reset => exact answer_of_agree (alike_reset h) fun _ _ _ _ _ => rfl
  | press socket button pressed => exact ⟨rfl, h.map _⟩
  | setRegisters registers =>
    refine ⟨rfl, ?_, h.config, h.halted⟩
    show { x.cpu with registers := registers } = { y.cpu with registers := registers }
    rw [h.cpu]
  | read address => exact answer_of_agree (alike_onConsole _ h) fun _ _ _ _ _ => rfl
  | write address value => exact answer_of_agree (alike_onConsole _ h) fun _ _ _ _ _ => rfl
  | peek address =>
    refine ⟨?_, h⟩
    show Answer.byte (Bus.peek x.cpu.bus address) = Answer.byte (Bus.peek y.cpu.bus address)
    rw [h.cpu]
  | vector address =>
    refine ⟨?_, h⟩
    show Answer.word (Bus.peekWord x.cpu.bus address) = Answer.word (Bus.peekWord y.cpu.bus address)
    rw [h.cpu]
  | disassemble address =>
    refine ⟨?_, h⟩
    show Answer.line (x.disassemble address) = Answer.line (y.disassemble address)
    rw [disassemble, disassemble, h.cpu]

/-! ## Histories -/

/-- The answers to a list of calls. -/
def answers (machine : Machine) (calls : List Call) : List Answer :=
  (machine.outcomes calls).map Prod.fst

theorem alike_after {x y : Machine} (h : Alike x y) (calls : List Call) :
    x.answers calls = y.answers calls ∧ Alike (x.after calls) (y.after calls) := by
  induction calls generalizing x y with
  | nil => exact ⟨rfl, h⟩
  | cons call rest ih =>
    obtain ⟨hanswer, hstate⟩ := alike_perform h call
    obtain ⟨hanswers, hafter⟩ := ih hstate
    refine ⟨?_, hafter⟩
    show (x.perform call).1 :: answers _ rest = (y.perform call).1 :: answers _ rest
    rw [hanswer, hanswers]

/-- Alike machines show the same from the first picture on. -/
theorem frame_after_of_alike {x y : Machine} (h : Alike x y) {calls : List Call}
    (hf : x.frame = y.frame ∨ x.pictures calls ≠ 0) :
    (x.after calls).frame = (y.after calls).frame := by
  induction calls generalizing x y with
  | nil => exact hf.resolve_right fun hn => hn rfl
  | cons call rest ih =>
    obtain ⟨hanswer, hstate⟩ := alike_perform h call
    have hdx := x.drew_perform call
    have hdy := y.drew_perform call
    rw [pictures_cons] at hf
    refine ih hstate ?_
    rw [← hanswer] at hdy
    cases hp : (x.perform call).1.isPicture with
    | true =>
      rw [hp] at hdx hdy
      exact .inl (frame_of_drew hdx hdy hstate)
    | false =>
      rw [hp] at hdx hdy hf
      rw [Bool.toNat_false, Nat.zero_add] at hf
      exact hf.imp_left fun hf => by rw [hdx.frame, hdy.frame, hf]

/-- **Main theorem.** Two machines with the same cartridge and run the same way, in whatever states
but with the same in their memories and the same buttons held: after a reset they answer every
history alike, and they are the same after it but for their pictures, which are the same once one
was drawn since. A reset leaves memories, buttons, picture and number of frames as they were. -/
theorem forgets (cartridge : Cartridge) (x y : Machine)
    (hx : Console.Reaches (.ofCartridge cartridge) x.cpu.bus)
    (hy : Console.Reaches (.ofCartridge cartridge) y.cpu.bus) (hc : x.config = y.config)
    (h : x.cpu.bus.SameContents y.cpu.bus) :
    (∀ calls : List Call,
      x.answers (.reset :: calls) = y.answers (.reset :: calls) ∧
      Alike (x.after (.reset :: calls)) (y.after (.reset :: calls)) ∧
      (x.pictures (.reset :: calls) ≠ 0 →
        (x.after (.reset :: calls)).frame = (y.after (.reset :: calls)).frame)) ∧
    ∀ machine : Machine, machine.cpu.bus.SameContents (machine.perform .reset).2.cpu.bus ∧
      SameDisplay machine (machine.perform .reset).2 := by
  have hreset (machine : Machine) : machine.perform .reset = (.done, { machine with
      cpu := {
        registers := { pc := machine.vector resetVector }
        bus := machine.cpu.bus.reset }
      halted := none }) := by
    rw [perform, reset_eq]
    rfl
  have hvector : x.vector resetVector = y.vector resetVector :=
    vector_congr (hx.program.trans hy.program.symm)
  have hpicture : (x.perform .reset).1.isPicture = false := by
    rw [hreset]
    rfl
  have halike : Alike (x.perform .reset).2 (y.perform .reset).2 := by
    rw [hreset, hreset, hvector, Console.reset_congr hx hy h]
    exact ⟨rfl, hc, rfl⟩
  refine ⟨fun calls => ?_, fun machine => ?_⟩
  · obtain ⟨hanswers, hafter⟩ := alike_after halike calls
    refine ⟨?_, hafter, fun hp => ?_⟩
    · show (x.perform .reset).1 :: answers _ calls = (y.perform .reset).1 :: answers _ calls
      rw [hanswers, hreset, hreset]
    · rw [pictures_cons, hpicture, Bool.toNat_false, Nat.zero_add] at hp
      exact frame_after_of_alike halike (.inr hp)
  · rw [hreset]
    exact ⟨machine.cpu.bus.sameContents_reset, rfl, rfl, rfl⟩

/-- A machine that has halted, with interrupts of the picture unit enabled, one button of a pad read
and registers of its own. -/
def used : Machine :=
  (powerOn (.filled 0x48) {}).after ([.reset, .step] ++
    [.write 0x2000 0x90, .read 0x4016, .setRegisters { pc := 0x1234, a := 7 }])

theorem sameContents_used : (powerOn (.filled 0x48) {}).cpu.bus.SameContents used.cpu.bus := by
  rw [used, after_append, ← lost, lost_eq]
  exact ⟨rfl, rfl, rfl, rfl, rfl, rfl, fun socket => by cases socket <;> rfl⟩

theorem forgets_used :
    Console.Reaches (.ofCartridge (.filled 0x48)) (powerOn (.filled 0x48) {}).cpu.bus ∧
    Console.Reaches (.ofCartridge (.filled 0x48)) used.cpu.bus ∧
    (powerOn (.filled 0x48) {}).config = used.config ∧
    (powerOn (.filled 0x48) {}).cpu.bus.SameContents used.cpu.bus ∧
    ∀ calls : List Call,
      (powerOn (.filled 0x48) {}).answers (.reset :: calls) = used.answers (.reset :: calls) := by
  have hx : Console.Reaches (.ofCartridge (.filled 0x48)) (powerOn (.filled 0x48) {}).cpu.bus :=
    .refl _
  have hy : Console.Reaches (.ofCartridge (.filled 0x48)) used.cpu.bus := reaches_after _ _
  have hc : (powerOn (.filled 0x48) {}).config = used.config := (config_after _ _).symm
  have h := sameContents_used
  exact ⟨hx, hy, hc, h, fun calls => ((forgets (.filled 0x48) _ used hx hy hc h).1 calls).1⟩

end Machine

end Nes
