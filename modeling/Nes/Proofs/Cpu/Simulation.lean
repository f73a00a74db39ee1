import Nes.Proofs.Cpu.Congruence

/-!
# Simulation of processors

A processor meets its bus through reads and writes only. If two buses, of whatever kinds, answer
every access alike and stay related while they do, then two processors on them do the same: they
end with the same value or the same error and with the same registers.

Results:

* `congruence_simulates`: to be simulated is a congruence, so it holds of every instruction.
* `simulates_step`, `simulates_nmi`, `simulates_reset`: what the machine asks of a processor.
* `instructions_le_step`, `instructions_nmi`: the count of instructions never goes back.
-/

namespace Nes

/-! ## Related actions -/

section

variable {ε ε' σ τ α δ : Type}

/-- Two ends of actions that are the same but for their states, which are related. -/
inductive Agree (rel : σ → τ → Prop) : EStateM.Result ε σ α → EStateM.Result ε τ α → Prop
  | ok {s : σ} {t : τ} (value : α) (h : rel s t) : Agree rel (.ok value s) (.ok value t)
  | error {s : σ} {t : τ} (cause : ε) (h : rel s t) : Agree rel (.error cause s) (.error cause t)

/-- Two actions that come to the same end from any two related states. -/
def Simulates (rel : σ → τ → Prop) (x : EStateM ε σ α) (y : EStateM ε τ α) : Prop :=
  ∀ ⦃s : σ⦄ ⦃t : τ⦄, rel s t → Agree rel (x s) (y t)

variable {rel : σ → τ → Prop}

/-- A weaker relation between the states that are left. -/
theorem Agree.mono {rel' : σ → τ → Prop} {p : EStateM.Result ε σ α} {q : EStateM.Result ε τ α}
    (h : Agree rel p q) (hrel : ∀ {s t}, rel s t → rel' s t) : Agree rel' p q := by
  cases h with
  | ok value h => exact .ok value (hrel h)
  | error cause h => exact .error cause (hrel h)

/-- The state that an action leaves, whether it failed or not. -/
def final : EStateM.Result ε σ α → σ
  | .ok _ s => s
  | .error _ s => s

/-- The states that are left are related, however both end. -/
theorem Agree.final {p : EStateM.Result ε σ α} {q : EStateM.Result ε τ α} (h : Agree rel p q) :
    rel (final p) (final q) := by
  cases h with
  | ok _ h => exact h
  | error _ h => exact h

theorem Simulates.pure (value : α) :
    Simulates rel (pure value : EStateM ε σ α) (pure value : EStateM ε τ α) :=
  fun _ _ h => .ok value h

/-- What is done next may depend on the value, which is the same on both sides. -/
theorem Simulates.bind {x : EStateM ε σ α} {y : EStateM ε τ α} {f : α → EStateM ε σ δ}
    {g : α → EStateM ε τ δ} (hx : Simulates rel x y)
    (hf : ∀ value, Simulates rel (f value) (g value)) : Simulates rel (x >>= f) (y >>= g) := by
  intro s t h
  show Agree rel (EStateM.bind x f s) (EStateM.bind y g t)
  unfold EStateM.bind
  exact match x s, y t, hx h with
  | _, _, .ok value h => hf value h
  | _, _, .error cause h => .error cause h

theorem Simulates.adaptExcept {x : EStateM ε σ α} {y : EStateM ε τ α} (f : ε → ε')
    (hx : Simulates rel x y) : Simulates rel (x.adaptExcept f) (y.adaptExcept f) := by
  intro s t h
  unfold EStateM.adaptExcept
  exact match x s, y t, hx h with
  | _, _, .ok value h => .ok value h
  | _, _, .error cause h => .error (f cause) h

/-- The action keeps the property of its state, whether it fails or not. -/
def Preserves (P : σ → Prop) (x : EStateM ε σ α) : Prop := ∀ s, P s → P (final (x s))

variable {P : σ → Prop}

/-- An invariant of both parts is one of the whole. -/
theorem Preserves.bind {x : EStateM ε σ α} {f : α → EStateM ε σ δ} (hx : Preserves P x)
    (hf : ∀ value, Preserves P (f value)) : Preserves P (x >>= f) := by
  intro s h
  have hs := hx s h
  show P (Nes.final (EStateM.bind x f s))
  unfold EStateM.bind
  cases hc : x s with
  | ok value t =>
    rw [hc] at hs
    exact hf value t hs
  | error cause t =>
    rw [hc] at hs
    exact hs

theorem Preserves.forM {ι : Type} {f : ι → EStateM ε σ Unit} (hf : ∀ i, Preserves P (f i))
    (is : List ι) : Preserves P (is.forM f) := by
  induction is with
  | nil => exact fun _ h => h
  | cons i is ih => exact (hf i).bind fun _ => ih

end

/-! ## Accesses -/

/-- A relation of two kinds of buses that accesses preserve, and that makes them answer alike. -/
structure Bus.Simulation {β γ : Type} [Bus β] [Bus γ] (rel : β → γ → Prop) : Prop where
  read (address : UInt16) :
    Simulates rel (Bus.read address : EStateM BusError β UInt8) (Bus.read address)
  write (address : UInt16) (value : UInt8) :
    Simulates rel (Bus.write address value : EStateM BusError β Unit) (Bus.write address value)

namespace Cpu

variable {β γ : Type} {rel : β → γ → Prop} {n : Nat}

/-- Two processors with the same registers that have both completed `n` instructions, on related
    buses. -/
structure Related (rel : β → γ → Prop) (n : Nat) (x : Cpu β) (y : Cpu γ) : Prop where
  registers : x.registers = y.registers
  left_instructions : x.instructions = n
  right_instructions : y.instructions = n
  bus : rel x.bus y.bus

theorem simulates_getRegisters :
    Simulates (Related rel n) (getRegisters : Action β Registers) getRegisters := by
  intro x y h
  unfold getRegisters
  rw [h.registers]
  exact .ok _ h

theorem simulates_update (f : Registers → Registers) :
    Simulates (Related rel n) (update f : Action β Unit) (update f) := by
  intro x y h
  exact .ok () ⟨congrArg f h.registers, h.left_instructions, h.right_instructions, h.bus⟩

variable [Bus β] [Bus γ]

/-- A reset takes registers and count to their start, and then reads its vector. -/
theorem reset_eq (cpu : Cpu β) :
    reset cpu = match readWord resetVector { cpu with registers := {} } with
      | .error cause cpu => .error (.interrupt resetVector cause) cpu
      | .ok start cpu =>
        .ok () { cpu with registers := { cpu.registers with pc := start }, instructions := 0 } := by
  have hmodify (f : Cpu β → Cpu β) (cpu : Cpu β) :
      (modify f : EStateM CpuError (Cpu β) Unit) cpu = .ok () (f cpu) := rfl
  simp only [reset, bind, EStateM.bind, hmodify, EStateM.adaptExcept]
  cases (readWord resetVector : Action β UInt16) _ <;> rfl

variable (hb : Bus.Simulation rel)

include hb

/-- Reads agree because those of the buses do. -/
theorem simulates_read (address : UInt16) :
    Simulates (Related rel n) (read address : Action β UInt8) (read address) := by
  rintro ⟨registers, instructions, bus⟩ ⟨registers', instructions', bus'⟩ ⟨hr, hl, hi, h⟩
  have h := hb.read address h
  simp only [Cpu.read]
  generalize Bus.read address bus = p at h ⊢
  generalize Bus.read address bus' = q at h ⊢
  cases h with
  | ok value h => exact .ok value ⟨hr, hl, hi, h⟩
  | error cause h => exact .error cause ⟨hr, hl, hi, h⟩

theorem simulates_write (address : UInt16) (value : UInt8) :
    Simulates (Related rel n) (write address value : Action β Unit) (write address value) := by
  rintro ⟨registers, instructions, bus⟩ ⟨registers', instructions', bus'⟩ ⟨hr, hl, hi, h⟩
  have h := hb.write address value h
  simp only [Cpu.write]
  generalize Bus.write address value bus = p at h ⊢
  generalize Bus.write address value bus' = q at h ⊢
  cases h with
  | ok _ h => exact .ok () ⟨hr, hl, hi, h⟩
  | error cause h => exact .error cause ⟨hr, hl, hi, h⟩

/-- **All that a processor does is made of steps that agree.** -/
theorem congruence_simulates :
    @Congruence β γ _ _ fun _ => Simulates (Related rel n) where
  pure := .pure
  bind := .bind
  getRegisters := simulates_getRegisters
  adjust f _ := simulates_update f
  update := simulates_update
  read := simulates_read hb
  write := simulates_write hb

theorem simulates_fetch : Simulates (Related rel n) (fetch : Action β UInt8) fetch :=
  (congruence_simulates hb).fetch

/-- Instructions agree. -/
theorem simulates_instruction (i : Instruction) :
    Simulates (Related rel n) (i.run : Action β Unit) i.run :=
  (congruence_simulates hb).instruction i

/-! ## What the machine asks of a processor -/

/-- Two processors that have both completed at least `n` instructions, and are related otherwise. -/
def RelatedFrom (rel : β → γ → Prop) (n : Nat) (x : Cpu β) (y : Cpu γ) : Prop :=
  ∃ m, n ≤ m ∧ Related rel m x y

/-- Steps agree, and count the same. -/
theorem simulates_step {x : Cpu β} {y : Cpu γ} (h : Related rel n x y) :
    Agree (RelatedFrom rel n) (step x) (step y) := by
  have stays {x y} (h : Related rel n x y) : RelatedFrom rel n x y := ⟨n, Nat.le_refl n, h⟩
  have hf := simulates_fetch hb h
  rw [step_eq, step_eq, h.registers]
  generalize fetch x = p at hf ⊢
  generalize fetch y = q at hf ⊢
  cases hf with
  | error cause h => exact .error _ (stays h)
  | ok opcode h =>
    dsimp only
    cases Opcode.ofByte opcode with
    | unstable op mode => exact .error _ (stays h)
    | instruction i =>
      have hi := simulates_instruction hb i h
      dsimp only
      generalize (i.run : Action β Unit) _ = p at hi ⊢
      generalize (i.run : Action γ Unit) _ = q at hi ⊢
      cases hi with
      | error cause h => exact .error _ (stays h)
      | ok _ h =>
        refine .ok () ⟨n + 1, Nat.le_succ n, h.registers, ?_, ?_, h.bus⟩
        · exact congrArg (· + 1) h.left_instructions
        · exact congrArg (· + 1) h.right_instructions

/-- Interrupts agree, and count nothing. -/
theorem simulates_nmi :
    Simulates (Related rel n) (nmi : EStateM CpuError (Cpu β) Unit) nmi := by
  intro x y h
  have he := ((congruence_simulates hb).enterInterrupt y.registers.pc y.registers.p.bits
    nmiVector).adaptExcept (CpuError.interrupt nmiVector) h
  show Agree (Related rel n)
    ((Instruction.enterInterrupt x.registers.pc x.registers.p.bits nmiVector).adaptExcept _ x) _
  rw [h.registers]
  exact he

/-- Resets agree, and start both counts again. -/
theorem simulates_reset {x : Cpu β} {y : Cpu γ} (h : Related rel n x y) :
    Agree (fun x y => ∃ m, Related rel m x y) (reset x) (reset y) := by
  let r : Registers := {}
  have hr : Related rel n { x with registers := r } { y with registers := r } :=
    ⟨rfl, h.left_instructions, h.right_instructions, h.bus⟩
  have hw := (congruence_simulates hb).readWord resetVector hr
  rw [reset_eq, reset_eq]
  generalize (readWord resetVector : Action β UInt16) _ = p at hw ⊢
  generalize (readWord resetVector : Action γ UInt16) _ = q at hw ⊢
  cases hw with
  | ok start h =>
    refine .ok () ⟨0, ?_, rfl, rfl, h.bus⟩
    exact congrArg (fun r => { r with pc := start }) h.registers
  | error cause h => exact .error _ ⟨n, h⟩

end Cpu

/-! ## One bus -/

theorem Agree.refl {ε σ α : Type} {rel : σ → σ → Prop} (h : ∀ s, rel s s)
    (result : EStateM.Result ε σ α) : Agree rel result result := by
  cases result with
  | ok value s => exact .ok value (h s)
  | error cause s => exact .error cause (h s)

theorem Bus.simulation_eq (β : Type) [Bus β] : Bus.Simulation (@Eq β) where
  read address := by
    rintro bus _ rfl
    exact .refl (fun _ => rfl) _
  write address value := by
    rintro bus _ rfl
    exact .refl (fun _ => rfl) _

namespace Cpu

variable {β : Type}

theorem related_self (cpu : Cpu β) : Related Eq cpu.instructions cpu cpu := ⟨rfl, rfl, rfl, rfl⟩

variable [Bus β]

/-- No step counts backwards. -/
theorem instructions_le_step (cpu : Cpu β) :
    cpu.instructions ≤ (final (step cpu)).instructions := by
  obtain ⟨m, hle, hm⟩ := (simulates_step (Bus.simulation_eq β) (related_self cpu)).final
  rwa [hm.left_instructions]

theorem instructions_nmi (cpu : Cpu β) : (final (nmi cpu)).instructions = cpu.instructions :=
  (simulates_nmi (Bus.simulation_eq β) (related_self cpu)).final.left_instructions

end Cpu

end Nes
