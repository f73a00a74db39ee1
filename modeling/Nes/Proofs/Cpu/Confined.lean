import Nes.Proofs.Cpu.Calls

/-!
# Confined runs

Two buses may answer alike at some addresses and differ at others. As long as one processor reads
and writes only where the buses answer alike, a processor on the other bus does the same: what a
run does is settled by the answers that it gets.

Results:

* `congruence_unless`: two actions agree unless the first strays from the addresses.
* `unless_performAll`: the same of a run.
* `agree_of_confined`: a run that never strays is the same on both buses, access by access.
-/

namespace Nes

/-! ## Agreement unless something is lost -/

section

variable {ε ε' σ τ α δ : Type}

/-- Once `lost`, the first action stays lost. From related states the two actions come to the same
end unless the first one is lost by then. -/
structure SimulatesUnless (lost : σ → Prop) (rel : σ → τ → Prop) (x : EStateM ε σ α)
    (y : EStateM ε τ α) : Prop where
  lost_final {s : σ} (h : lost s) : lost (final (x s))
  agree {s : σ} {t : τ} (h : rel s t) : lost (final (x s)) ∨ Agree rel (x s) (y t)

variable {lost : σ → Prop} {rel : σ → τ → Prop}

theorem Simulates.unless {x : EStateM ε σ α} {y : EStateM ε τ α} (h : Simulates rel x y)
    (hl : ∀ s, lost s → lost (final (x s))) : SimulatesUnless lost rel x y :=
  ⟨hl _, fun hr => .inr (h hr)⟩

theorem SimulatesUnless.bind {x : EStateM ε σ α} {y : EStateM ε τ α} {f : α → EStateM ε σ δ}
    {g : α → EStateM ε τ δ} (hx : SimulatesUnless lost rel x y)
    (hf : ∀ value, SimulatesUnless lost rel (f value) (g value)) :
    SimulatesUnless lost rel (x >>= f) (y >>= g) := by
  have later {s : σ} (h : lost (final (x s))) : lost (final ((x >>= f) s)) := by
    show lost (final (EStateM.bind x f s))
    unfold EStateM.bind
    cases hc : x s with
    | ok value s' =>
      rw [hc] at h
      exact (hf value).lost_final h
    | error cause s' =>
      rw [hc] at h
      exact h
  refine ⟨fun h => later (hx.lost_final h), fun {s t} h => ?_⟩
  rcases hx.agree h with hl | ha
  · exact .inl (later hl)
  · show lost (final (EStateM.bind x f s)) ∨ Agree rel (EStateM.bind x f s) (EStateM.bind y g t)
    unfold EStateM.bind
    exact match x s, y t, ha with
    | _, _, .ok value h => (hf value).agree h
    | _, _, .error cause h => .inr (.error cause h)

theorem SimulatesUnless.adaptExcept {x : EStateM ε σ α} {y : EStateM ε τ α} (f : ε → ε')
    (hx : SimulatesUnless lost rel x y) :
    SimulatesUnless lost rel (x.adaptExcept f) (y.adaptExcept f) := by
  have same (s : σ) : final (x.adaptExcept f s) = final (x s) := by
    unfold EStateM.adaptExcept
    cases x s <;> rfl
  refine ⟨fun {s} h => by rw [same]; exact hx.lost_final h, fun {s t} h => ?_⟩
  rw [same]
  refine (hx.agree h).imp_right fun ha => ?_
  unfold EStateM.adaptExcept
  exact match x s, y t, ha with
  | _, _, .ok value h => .ok value h
  | _, _, .error cause h => .error (f cause) h

end

/-! ## Straying -/

/-- The access is a read or a write of an address where that is allowed. -/
def Access.Within (mayRead mayWrite : UInt16 → Prop) : Access → Prop
  | .read address _ | .readFailed address => mayRead address
  | .write address _ | .writeFailed address _ => mayWrite address

/-- A relation of two kinds of buses that accesses of some addresses preserve, and that makes the
buses answer these accesses alike. -/
structure Bus.SimulationWithin {β γ : Type} [Bus β] [Bus γ] (mayRead mayWrite : UInt16 → Prop)
    (rel : β → γ → Prop) : Prop where
  read (address : UInt16) (h : mayRead address) :
    Simulates rel (Bus.read address : EStateM BusError β UInt8) (Bus.read address)
  write (address : UInt16) (value : UInt8) (h : mayWrite address) :
    Simulates rel (Bus.write address value : EStateM BusError β Unit) (Bus.write address value)

namespace Cpu

variable {β γ : Type} {mayRead mayWrite : UInt16 → Prop} {rel : β → γ → Prop}

/-- Some access was not within the addresses. -/
def Strayed (mayRead mayWrite : UInt16 → Prop) (cpu : Cpu (Recorder β)) : Prop :=
  ∃ access ∈ cpu.bus.accesses.toList, ¬access.Within mayRead mayWrite

/-- Two processors that have done the same and have made the same accesses, on related buses. -/
structure Alike (rel : β → γ → Prop) (x : Cpu (Recorder β)) (y : Cpu (Recorder γ)) : Prop where
  registers : x.registers = y.registers
  instructions : x.instructions = y.instructions
  accesses : x.bus.accesses = y.bus.accesses
  bus : rel x.bus.bus y.bus.bus

theorem Alike.unwatched {x : Cpu (Recorder β)} {y : Cpu (Recorder γ)} (h : Alike rel x y)
    {x' : Cpu β} {y' : Cpu γ} (hx : ∃ n, Related Recorder.Around n x x')
    (hy : ∃ n, Related Recorder.Around n y y') :
    x'.registers = y'.registers ∧ x'.instructions = y'.instructions ∧ rel x'.bus y'.bus := by
  obtain ⟨m, hxr, rfl, hxi, hxb⟩ := hx
  obtain ⟨n, hyr, rfl, hyi, hyb⟩ := hy
  rw [← hxr, ← hyr, hxi, hyi, ← hxb, ← hyb]
  exact ⟨h.registers, h.instructions, h.bus⟩

theorem Strayed.push {registers registers' : Registers} {instructions instructions' : Nat}
    {bus bus' : β} {log : Array Access}
    (h : Strayed mayRead mayWrite ⟨registers, instructions, bus, log⟩) (access : Access) :
    Strayed mayRead mayWrite ⟨registers', instructions', bus', log.push access⟩ := by
  obtain ⟨other, hm, hw⟩ := h
  exact ⟨other, by rw [Array.toList_push]; exact List.mem_append_left _ hm, hw⟩

theorem strayed_push (access : Access) (h : ¬access.Within mayRead mayWrite)
    (registers : Registers) (instructions : Nat) (bus : β) (log : Array Access) :
    Strayed mayRead mayWrite ⟨registers, instructions, bus, log.push access⟩ :=
  ⟨access, by rw [Array.toList_push]; exact List.mem_append_right _ (.head _), h⟩

theorem unless_getRegisters :
    SimulatesUnless (Strayed mayRead mayWrite) (Alike rel)
      (getRegisters : Action (Recorder β) Registers) getRegisters := by
  refine ⟨id, fun {x y} h => .inr ?_⟩
  unfold getRegisters
  rw [h.registers]
  exact .ok _ h

theorem unless_update (f : Registers → Registers) :
    SimulatesUnless (Strayed mayRead mayWrite) (Alike rel)
      (update f : Action (Recorder β) Unit) (update f) :=
  ⟨id, fun h => .inr (.ok () ⟨congrArg f h.registers, h.instructions, h.accesses, h.bus⟩)⟩

variable [Bus β] [Bus γ] (hb : Bus.SimulationWithin mayRead mayWrite rel)

include hb

theorem unless_read (address : UInt16) :
    SimulatesUnless (Strayed mayRead mayWrite) (Alike rel)
      (read address : Action (Recorder β) UInt8) (read address : Action (Recorder γ) UInt8) := by
  constructor
  · rintro ⟨registers, instructions, bus, log⟩ h
    rw [read_recorder]
    cases Bus.read address bus with
    | ok value bus => exact h.push _
    | error cause bus => exact h.push _
  · rintro ⟨registers, instructions, bus, log⟩ ⟨_, _, bus', _⟩ ⟨rfl, rfl, rfl, h⟩
    rw [read_recorder, read_recorder]
    by_cases hr : mayRead address
    · have h := hb.read address hr h
      refine .inr ?_
      dsimp only
      generalize Bus.read address bus = p at h ⊢
      generalize Bus.read address bus' = q at h ⊢
      cases h with
      | ok value h => exact .ok value ⟨rfl, rfl, rfl, h⟩
      | error cause h => exact .error cause ⟨rfl, rfl, rfl, h⟩
    · refine .inl ?_
      cases Bus.read address bus with
      | ok value bus => exact strayed_push (.read address value) hr ..
      | error cause bus => exact strayed_push (.readFailed address) hr ..

theorem unless_write (address : UInt16) (value : UInt8) :
    SimulatesUnless (Strayed mayRead mayWrite) (Alike rel)
      (write address value : Action (Recorder β) Unit)
      (write address value : Action (Recorder γ) Unit) := by
  constructor
  · rintro ⟨registers, instructions, bus, log⟩ h
    rw [write_recorder]
    cases Bus.write address value bus with
    | ok _ bus => exact h.push _
    | error cause bus => exact h.push _
  · rintro ⟨registers, instructions, bus, log⟩ ⟨_, _, bus', _⟩ ⟨rfl, rfl, rfl, h⟩
    rw [write_recorder, write_recorder]
    by_cases hw : mayWrite address
    · have h := hb.write address value hw h
      refine .inr ?_
      dsimp only
      generalize Bus.write address value bus = p at h ⊢
      generalize Bus.write address value bus' = q at h ⊢
      cases h with
      | ok _ h => exact .ok () ⟨rfl, rfl, rfl, h⟩
      | error cause h => exact .error cause ⟨rfl, rfl, rfl, h⟩
    · refine .inl ?_
      cases Bus.write address value bus with
      | ok _ bus => exact strayed_push (.write address value) hw ..
      | error cause bus => exact strayed_push (.writeFailed address value) hw ..

theorem congruence_unless :
    @Congruence (Recorder β) (Recorder γ) _ _ fun _ =>
      SimulatesUnless (Strayed mayRead mayWrite) (Alike rel) where
  pure value := (Simulates.pure value).unless fun _ => id
  bind := .bind
  getRegisters := unless_getRegisters
  adjust f _ := unless_update f
  update := unless_update
  read := unless_read hb
  write := unless_write hb

/-! ## Runs -/

/-- A step whose fetch has strayed has strayed. -/
theorem strayed_step {x : Cpu (Recorder β)} (h : Strayed mayRead mayWrite (final (fetch x))) :
    Strayed mayRead mayWrite (final (step x)) := by
  rw [step_eq]
  cases hc : fetch x with
  | error cause x' =>
    rw [hc] at h
    exact h
  | ok opcode x' =>
    rw [hc] at h
    dsimp only
    cases Opcode.ofByte opcode with
    | unstable op mode => exact h
    | instruction i =>
      have h := ((congruence_unless hb).instruction i).lost_final h
      dsimp only [final] at h ⊢
      cases hc : i.run x' with
      | error cause x'' =>
        rw [hc] at h
        exact h
      | ok _ x'' =>
        rw [hc] at h
        exact h

theorem unless_step :
    SimulatesUnless (Strayed mayRead mayWrite) (Alike rel)
      (step : EStateM CpuError (Cpu (Recorder β)) Unit) step := by
  have hf := (congruence_unless hb).fetch
  have hi := (congruence_unless hb).instruction
  refine ⟨fun h => strayed_step hb (hf.lost_final h), fun {x y} h => ?_⟩
  rcases hf.agree h with hl | ha
  · exact .inl (strayed_step hb hl)
  · rw [step_eq, step_eq, h.registers]
    generalize fetch x = p at ha ⊢
    generalize fetch y = q at ha ⊢
    cases ha with
    | error cause h => exact .inr (.error _ h)
    | ok opcode h =>
      dsimp only
      cases Opcode.ofByte opcode with
      | unstable op mode => exact .inr (.error _ h)
      | instruction i =>
        have ha := (hi i).agree h
        dsimp only
        generalize (i.run : Action (Recorder β) Unit) _ = p at ha ⊢
        generalize (i.run : Action (Recorder γ) Unit) _ = q at ha ⊢
        rcases ha with hl | ha
        · cases p with
          | ok _ x => exact .inl hl
          | error cause x => exact .inl hl
        · cases ha with
          | error cause h => exact .inr (.error _ h)
          | ok _ h =>
            exact .inr (.ok () ⟨h.registers, congrArg (· + 1) h.instructions, h.accesses, h.bus⟩)

theorem unless_nmi :
    SimulatesUnless (Strayed mayRead mayWrite) (Alike rel)
      (nmi : EStateM CpuError (Cpu (Recorder β)) Unit) nmi := by
  have he (r : Registers) := ((congruence_unless hb).enterInterrupt r.pc r.p.bits
    nmiVector).adaptExcept (CpuError.interrupt nmiVector)
  refine ⟨fun {x} h => (he x.registers).lost_final h, fun {x y} h => ?_⟩
  have ha := (he x.registers).agree h
  show Strayed mayRead mayWrite _ ∨ Agree (Alike rel) _
    ((Instruction.enterInterrupt y.registers.pc y.registers.p.bits nmiVector).adaptExcept _ y)
  rw [← h.registers]
  exact ha

theorem unless_perform (call : Call) :
    SimulatesUnless (Strayed mayRead mayWrite) (Alike rel)
      (perform call : EStateM CpuError (Cpu (Recorder β)) Unit) (perform call) := by
  cases call with
  | step => exact unless_step hb
  | nmi => exact unless_nmi hb

theorem unless_performAll (calls : List Call) :
    SimulatesUnless (Strayed mayRead mayWrite) (Alike rel)
      (performAll calls : EStateM CpuError (Cpu (Recorder β)) Unit) (performAll calls) := by
  induction calls with
  | nil => exact (Simulates.pure ()).unless fun _ => id
  | cons call rest ih => exact (unless_perform hb call).bind fun _ => ih

/-- What one processor does with a list of calls, another on a related bus does, if the first never
strays: the accesses are the same, and so are the end of the run, the registers and the count of
instructions. -/
theorem agree_of_confined {x : Cpu β} {y : Cpu γ} (hr : x.registers = y.registers)
    (hi : x.instructions = y.instructions) (h : rel x.bus y.bus) (calls : List Call)
    (hw : ∀ access ∈ x.accessesAll calls, access.Within mayRead mayWrite) :
    y.accessesAll calls = x.accessesAll calls ∧
      Agree (fun x y => x.registers = y.registers ∧ x.instructions = y.instructions ∧
        rel x.bus y.bus) (performAll calls x) (performAll calls y) := by
  have hs := (unless_performAll hb calls).agree
    (show Alike rel x.watched y.watched from ⟨hr, hi, rfl, h⟩)
  rcases hs with ⟨access, hm, hn⟩ | ha
  · exact absurd (hw access hm) hn
  · refine ⟨congrArg Array.toList ha.final.accesses.symm, ?_⟩
    have hx := performAll_watched x calls
    have hy := performAll_watched y calls
    generalize performAll calls x.watched = p at ha hx
    generalize performAll calls y.watched = q at ha hy
    generalize performAll calls x = p' at hx ⊢
    generalize performAll calls y = q' at hy ⊢
    cases ha with
    | ok _ h =>
      cases hx with
      | ok _ hx =>
        cases hy with
        | ok _ hy => exact .ok () (h.unwatched hx hy)
    | error cause h =>
      cases hx with
      | error _ hx =>
        cases hy with
        | error _ hy => exact .error cause (h.unwatched hx hy)

end Cpu

end Nes
