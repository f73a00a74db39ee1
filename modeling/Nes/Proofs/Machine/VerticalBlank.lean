import Nes.Proofs.Console.PageCopy
import Nes.Proofs.Cpu.StackMemory

/-!
# Vertical blank

Vertical blank begins once in a frame, when all its instructions have gone well, and it is over when
the status register is read. Code of three parts touches the flag: the picture unit, the console's
decoder in front of it and the frame of the machine. Read off the chronicle of a history it is one
account: every blank pays for one read of the status that finds the flag set, and a copy to object
memory reads no status.

Results:

* `vblank_read`, `vblank_write`: what accesses do to the flag.
* `Moment.Turns.paid`, `Tells.paid`: reads that find the flag set are paid for by blanks.
* `moments_of_blank`: where vertical blank begins.
* `vblank_of_completed`: a frame that gave a picture leaves the flag set.
* `seesBlanks`: **what the status register shows in any history.**
-/

namespace Nes

/-! ## The picture unit -/

namespace Ppu

theorem vblank_readRegister (address : UInt16) (ppu : Ppu) :
    (final (readRegister address ppu)).latches.vblank =
      (ppu.latches.vblank && PpuRegister.ofAddress address != .status) := by
  unfold readRegister
  cases PpuRegister.ofAddress address with
  | status => exact (Bool.and_false _).symm
  | _ => exact (Bool.and_true _).symm

theorem vblank_writeRegister (address : UInt16) (value : UInt8) (ppu : Ppu) :
    (final (writeRegister address value ppu)).latches.vblank = ppu.latches.vblank := by
  unfold writeRegister
  cases PpuRegister.ofAddress address with
  | scroll =>
    show (writeScroll value ppu.latches).vblank = ppu.latches.vblank
    unfold writeScroll
    split <;> rfl
  | address =>
    show (writeAddress value ppu.latches).vblank = ppu.latches.vblank
    unfold writeAddress
    split <;> rfl
  | data =>
    show (final (writeData value ppu)).latches.vblank = ppu.latches.vblank
    unfold writeData
    split <;> rfl
  | _ => rfl

end Ppu

/-! ## Accesses -/

namespace Console

/-- Vertical blank has begun and the status has not been read since. -/
def vblank (console : Console) : Bool := console.ppu.latches.vblank

/-- The status register is at the address. -/
def isStatus (address : UInt16) : Bool := 0x2000 ≤ address && address < 0x4000 && address &&& 7 == 2

theorem isStatus_iff (address : UInt16) : isStatus address = true ↔
    Region.ofAddress address = .ppu ∧ PpuRegister.ofAddress address = .status := by
  rw [Region.ofAddress_eq_ppu_iff, PpuRegister.ofAddress_eq_iff, isStatus]
  simp only [Bool.and_eq_true, decide_eq_true_eq, beq_iff_eq, PpuRegister.index]

theorem isStatus_of_ppu {address : UInt16} (h : Region.ofAddress address = .ppu) :
    isStatus address = (PpuRegister.ofAddress address == .status) := by
  rw [Bool.eq_iff_iff, isStatus_iff, beq_iff_eq]
  exact and_iff_right h

theorem isStatus_of_ne {address : UInt16} (h : Region.ofAddress address ≠ .ppu) :
    isStatus address = false :=
  eq_false_of_ne_true fun hs => h ((isStatus_iff address).1 hs).1

theorem ppu_read_of_ne {address : UInt16} (h : Region.ofAddress address ≠ .ppu)
    (console : Console) : (final (read address console)).ppu = console.ppu := by
  unfold read
  split
  next => rfl
  next hr => exact absurd hr h
  next => exact ppu_readInput address console
  all_goals rfl

theorem vblank_read (address : UInt16) (console : Console) :
    (final (read address console)).vblank = (console.vblank && !isStatus address) := by
  by_cases hr : Region.ofAddress address = .ppu
  · simp only [read, hr, vblank, ppu_final_onPpu, Ppu.vblank_readRegister, isStatus_of_ppu hr]
    rfl
  · rw [isStatus_of_ne hr, vblank, ppu_read_of_ne hr]
    exact (Bool.and_true _).symm

/-- The status can always be read. -/
theorem read_of_isStatus {address : UInt16} (h : isStatus address = true) (console : Console) :
    ∃ next, read address console = .ok console.ppu.status next := by
  obtain ⟨hp, hs⟩ := (isStatus_iff address).1 h
  simp only [read, hp, onPpu, Ppu.readRegister, hs]
  exact ⟨_, rfl⟩

theorem peek_of_isStatus {address : UInt16} (h : isStatus address = true) (console : Console) :
    console.peek address = console.ppu.status := by
  obtain ⟨hp, hs⟩ := (isStatus_iff address).1 h
  simp only [peek, hp, Ppu.peekRegister, hs]

/-! ## The copy to object memory -/

theorem vblank_copyPage (page : UInt8) (console : Console) :
    (final (copyPage page console)).vblank = console.vblank := by
  by_cases hp : 0x20 ≤ page ∧ page < 0x40
  · rw [copyPage_of_ppu hp.1 hp.2]
    rfl
  · have hread (offset : UInt8) (console : Console) :
        (final (read (word offset page) console)).vblank = console.vblank := by
      rw [vblank, ppu_read_of_ne (mt (ofAddress_word_eq_ppu_iff offset page).1 hp), vblank]
    have key : Preserves (fun next : Console => next.vblank = console.vblank) (copyPage page) := by
      refine .forM (fun i => ?_) _
      exact .bind (fun next h => (hread _ next).trans h) fun value next h => h
    exact key console rfl

theorem vblank_write (address : UInt16) (value : UInt8) (console : Console) :
    (final (write address value console)).vblank = console.vblank := by
  unfold write
  split
  · rfl
  · rw [vblank, ppu_final_onPpu, Ppu.vblank_writeRegister]
    rfl
  · unfold writeOutput
    split
    · exact vblank_copyPage value console
    · split <;> rfl
  all_goals rfl

end Console

/-! ## Moments -/

namespace Console

namespace Moment

/-- The status register is read. -/
def readsStatus : Moment → Bool
  | access (.read address _) => isStatus address
  | _ => false

/-- The status register is read and shows vertical blank. -/
def seesBlank : Moment → Bool
  | access (.read address value) => isStatus address && value &&& 0x80 != 0
  | _ => false

variable {moment : Moment} {before after : Console}

/-- What a moment makes of vertical blank. -/
theorem Turns.vblank (h : moment.Turns before after) : after.vblank = match moment with
    | .blank => true
    | .reset => false
    | _ => before.vblank && !moment.readsStatus := by
  cases moment with
  | access access =>
    cases access with
    | read address value =>
      have hv := vblank_read address before
      rwa [show Console.read address before = _ from h] at hv
    | readFailed address =>
      obtain ⟨cause, h⟩ := h
      have hv := vblank_read address before
      have hs : isStatus address = false := by
        refine eq_false_of_ne_true fun hs => ?_
        obtain ⟨next, hr⟩ := read_of_isStatus hs before
        rw [show Console.read address before = _ from h] at hr
        cases hr
      rwa [show Console.read address before = _ from h, hs] at hv
    | write address value =>
      have hv := vblank_write address value before
      rw [show Console.write address value before = _ from h] at hv
      exact hv.trans (Bool.and_true _).symm
    | writeFailed address value =>
      obtain ⟨cause, h⟩ := h
      have hv := vblank_write address value before
      rw [show Console.write address value before = _ from h] at hv
      exact hv.trans (Bool.and_true _).symm
  | reset =>
    cases h
    rfl
  | blank =>
    cases h
    rfl
  | press socket button pressed =>
    cases h
    exact (Bool.and_true _).symm

/-- A read of the status gives the flag. -/
theorem Turns.value_eq {address : UInt16} {value : UInt8}
    (h : (access (.read address value)).Turns before after) (hs : isStatus address = true) :
    value = if before.vblank then 0x80 else 0 := by
  obtain ⟨next, hr⟩ := read_of_isStatus hs before
  rw [show Console.read address before = _ from h] at hr
  cases hr
  rfl

/-- A moment that sees vertical blank ends it. -/
theorem Turns.paid (h : moment.Turns before after) :
    moment.seesBlank.toNat + after.vblank.toNat ≤
      before.vblank.toNat + (if moment = .blank then 1 else 0) := by
  have hv := h.vblank
  cases moment with
  | access access =>
    rw [if_neg (fun he => by cases he)]
    cases access with
    | read address value =>
      rw [hv]
      simp only [seesBlank, readsStatus]
      cases hs : isStatus address with
      | false => simp
      | true =>
        rw [h.value_eq hs]
        cases before.vblank <;> decide
    | readFailed | write | writeFailed =>
      rw [hv]
      simp [seesBlank, readsStatus]
  | reset =>
    rw [hv]
    exact Nat.zero_le _
  | blank =>
    rw [hv]
    exact Nat.le_add_left ..
  | press =>
    rw [hv]
    simp [seesBlank, readsStatus]

end Moment

variable {start console : Console} {log : List Moment}

/-- Every read of the status that sees vertical blank is paid for by a blank, or by the flag as it
was in the beginning. -/
theorem Tells.paid (h : Tells start log console) :
    log.countP Moment.seesBlank + console.vblank.toNat ≤ start.vblank.toNat + log.count .blank := by
  induction h with
  | nil => simp
  | @cons before next last moment rest hm _ ih =>
    have hp := hm.paid
    have hs : (if moment.seesBlank = true then 1 else 0) = moment.seesBlank.toNat := by
      cases moment.seesBlank <;> rfl
    rw [List.countP_cons, List.count_cons, hs]
    simp only [beq_iff_eq]
    omega

theorem Tells.vblank_of_quiet (h : Tells start log console) (hv : start.vblank = true)
    (hq : ∀ moment ∈ log, moment ≠ .reset ∧ moment.readsStatus = false) :
    console.vblank = true := by
  induction h with
  | nil => exact hv
  | @cons before next last moment rest hm _ ih =>
    obtain ⟨hreset, hstatus⟩ := hq moment List.mem_cons_self
    refine ih ?_ fun moment hm => hq moment (List.mem_cons_of_mem _ hm)
    have hn := hm.vblank
    cases moment with
    | reset => exact absurd rfl hreset
    | blank => exact hn
    | access access =>
      rw [hn]
      simp only [hv, hstatus]
      rfl
    | press => rw [hn, hv]; rfl

end Console

/-! ## Frames -/

namespace Cpu

theorem keeps_ppu_read {address : UInt16} (h : Region.ofAddress address ≠ .ppu) :
    Keeps (fun cpu : Cpu Console => cpu.bus.ppu) (read address) := by
  intro cpu
  have hp := Console.ppu_read_of_ne h cpu.bus
  simp only [read, Bus.read]
  cases hc : Console.read address cpu.bus with
  | ok value next =>
    rw [hc] at hp
    exact hp
  | error cause next =>
    rw [hc] at hp
    exact hp

/-- An interrupt stores in the page of the stack and reads its vector from the program. -/
theorem ppu_nmi (cpu : Cpu Console) : (final (nmi cpu)).bus.ppu = cpu.bus.ppu := by
  have hlo : Region.ofAddress nmiVector ≠ .ppu := by decide
  have hhi : Region.ofAddress (nmiVector + 1) ≠ .ppu := by decide
  have hv : Keeps (fun cpu : Cpu Console => cpu.bus.ppu) (readWord nmiVector >>= jump) := by
    refine .bind ?_ fun target _ => rfl
    exact .bind (keeps_ppu_read hlo) fun lo => .bind (keeps_ppu_read hhi) fun hi _ => rfl
  rw [final_nmi, enterInterrupt_eq]
  exact hv _

end Cpu

namespace Machine

open Console (Moment Tells)

theorem ppu_nmi (machine : Machine) :
    (final (nmi machine)).cpu.bus.ppu = machine.cpu.bus.ppu :=
  holds_onCpu (P := fun cpu => cpu.bus.ppu = machine.cpu.bus.ppu) rfl (Cpu.ppu_nmi _)

/-- A frame that gave a picture leaves vertical blank to be seen. -/
theorem vblank_of_completed {machine : Machine} {pixels : Array UInt32}
    (h : (machine.perform .frame).1 = .picture pixels) :
    (machine.perform .frame).2.cpu.bus.vblank = true := by
  rw [perform, renderFrame_eq] at h ⊢
  cases hr : run machine.config.stepsPerFrame machine with
  | error cause stopped =>
    rw [hr] at h
    cases h
  | ok _ ran =>
    rw [hr] at h
    unfold endFrame at h ⊢
    dsimp only at h ⊢
    have hb : ran.blanked.cpu.bus.vblank = true := rfl
    split at h
    next hi =>
      have hn := ran.blanked.ppu_nmi
      rw [if_pos hi]
      cases hc : nmi ran.blanked with
      | error cause stopped =>
        rw [hc] at h
        cases h
      | ok _ entered =>
        rw [hc] at hn
        exact (congrArg (fun ppu => ppu.latches.vblank) hn).trans hb
    next hi =>
      rw [if_neg hi]
      exact hb

/-- Vertical blank begins in a frame whose instructions have all gone well, after the last of them
and before the interrupt. -/
theorem moments_of_blank {machine : Machine} {call : Call} (h : .blank ∈ machine.moments call) :
    call = .frame ∧ ∃ ran, run machine.config.stepsPerFrame machine = .ok () ran ∧
      machine.moments call = (machine.runAccesses machine.config.stepsPerFrame).map .access ++
        .blank :: ran.blankAccesses.map .access := by
  have hnot (accesses : List Access) : .blank ∉ accesses.map Moment.access := by
    intro hm
    obtain ⟨access, -, he⟩ := List.mem_map.1 hm
    cases he
  cases call with
  | frame =>
    refine ⟨rfl, ?_⟩
    rw [moments] at h ⊢
    cases hr : run machine.config.stepsPerFrame machine with
    | error cause stopped =>
      rw [hr, List.append_nil] at h
      exact absurd h (hnot _)
    | ok _ ran => exact ⟨ran, rfl, rfl⟩
  | reset =>
    obtain h | h := List.mem_cons.1 h
    · cases h
    · exact absurd h (hnot _)
  | press socket button pressed =>
    obtain h | h := List.mem_cons.1 h
    · cases h
    · cases h
  | step | nmi | read | write => exact absurd h (hnot _)
  | setRegisters | peek | vector | disassemble => cases h

/-! ## Histories -/

open Console (isStatus)

/-- What the status register shows of vertical blank in a history. -/
structure SeesBlanks (machine : Machine) (calls : List Call) : Prop where
  /-- At every moment: only vertical blank sets the flag, only a reset or a read of the status
  clears it, and what is read is the flag in bit 7 and nothing in the others. -/
  moment {before rest : List Moment} {moment : Moment}
    (h : machine.chronicle calls = before ++ moment :: rest) :
    ∃ console next, Tells machine.cpu.bus before console ∧ moment.Turns console next ∧
      Tells next rest (machine.after calls).cpu.bus ∧
      (console.vblank = false → next.vblank = true → moment = .blank) ∧
      (console.vblank = true → next.vblank = false →
        moment = .reset ∨ moment.readsStatus = true) ∧
      ∀ address value, moment = .access (.read address value) → isStatus address = true →
        value = if console.vblank then 0x80 else 0
  /-- In the end the register shows the flag, too. -/
  shown {address : UInt16} (h : isStatus address = true) :
    Bus.peek (machine.after calls).cpu.bus address =
      if (machine.after calls).cpu.bus.vblank then 0x80 else 0
  /-- Vertical blank begins in a frame whose instructions have all gone well, once and after the
  last of them. -/
  begins {call : Call} (h : .blank ∈ (machine.after calls).moments call) :
    let n := (machine.after calls).config.stepsPerFrame
    call = .frame ∧ ∃ ran, run n (machine.after calls) = .ok () ran ∧
      (machine.after calls).moments call = ((machine.after calls).runAccesses n).map .access ++
        .blank :: ran.blankAccesses.map .access
  /-- Between two blanks at most one read of the status sees the first. -/
  once {before between rest : List Moment} (h : machine.chronicle calls = before ++ between ++ rest)
    (hb : .blank ∉ between) : between.countP Moment.seesBlank ≤ 1
  /-- After a frame that gave a picture the next read of the status sees vertical blank, whoever
  makes it, unless a reset comes first. -/
  seen {pixels : Array UInt32} (h : ((machine.after calls).perform .frame).1 = .picture pixels)
    {since : List Call} {quiet rest : List Moment} {address : UInt16} {value : UInt8}
    (hc : (machine.after (calls ++ [.frame])).chronicle since =
      quiet ++ .access (.read address value) :: rest)
    (hq : ∀ moment ∈ quiet, moment ≠ .reset ∧ moment.readsStatus = false)
    (hs : isStatus address = true) : value = 0x80
  /-- No read of the status is hidden in a copy to object memory: a page of registers is refused at
  its first byte, which is none of the status. -/
  copied {page : UInt8} (h₁ : 0x20 ≤ page) (h₂ : page < 0x40) (console : Console) :
    Console.copyPage page console = .error (.writeOnlyRegister (word 0 page)) console

theorem seen_of_completed {machine : Machine} {pixels : Array UInt32}
    (h : (machine.perform .frame).1 = .picture pixels) {since : List Call}
    {quiet rest : List Moment} {address : UInt16} {value : UInt8}
    (hc : (machine.perform .frame).2.chronicle since =
      quiet ++ .access (.read address value) :: rest)
    (hq : ∀ moment ∈ quiet, moment ≠ .reset ∧ moment.readsStatus = false)
    (hs : isStatus address = true) : value = 0x80 := by
  have ht := (machine.perform .frame).2.tells_after since
  rw [hc] at ht
  obtain ⟨console, hquiet, hrest⟩ := ht.split
  have hv := hquiet.vblank_of_quiet (vblank_of_completed h) hq
  cases hrest with
  | cons hm _ =>
    rw [hm.value_eq hs, hv]
    rfl

theorem counted_of_cut {machine : Machine} {calls : List Call} {before between rest : List Moment}
    (h : machine.chronicle calls = before ++ between ++ rest) (hb : .blank ∉ between) :
    between.countP Moment.seesBlank ≤ 1 := by
  have ht := machine.tells_after calls
  rw [h, List.append_assoc] at ht
  obtain ⟨console, -, ht⟩ := ht.split
  obtain ⟨next, hbetween, -⟩ := ht.split
  have hp := hbetween.paid
  have h₀ := List.count_eq_zero_of_not_mem hb
  have h₁ := console.vblank.toNat_le
  omega

/-- **Main theorem.** In any history of a machine, whatever it is at first and whatever is done:
vertical blank begins only in a frame and after its instructions, only reads of the status and
resets end it, the copy to object memory among the things that do not, and it is seen at most once
in a frame. A read of the status after a finished frame sees it. -/
theorem seesBlanks (machine : Machine) (calls : List Call) : machine.SeesBlanks calls where
  moment := by
    intro before rest moment h
    have ht := machine.tells_after calls
    rw [h] at ht
    obtain ⟨console, hbefore, ht⟩ := ht.split
    cases ht with
    | @cons _ next _ _ _ hm hrest =>
      have hv := hm.vblank
      refine ⟨console, next, hbefore, hm, hrest, fun h₁ h₂ => ?_, fun h₁ h₂ => ?_, ?_⟩
      · rw [h₁, h₂] at hv
        cases moment with
        | blank => rfl
        | reset | access | press => cases hv
      · rw [h₁, h₂] at hv
        cases moment with
        | blank => cases hv
        | reset => exact .inl rfl
        | access | press => exact .inr (by simpa using hv)
      · rintro address value rfl hs
        exact hm.value_eq hs
  shown h := Console.peek_of_isStatus h _
  begins h := moments_of_blank h
  once := counted_of_cut
  seen h _ _ _ _ _ hc hq hs := by
    rw [after_append] at hc
    exact seen_of_completed h hc hq hs
  copied h₁ h₂ console := Console.copyPage_of_ppu h₁ h₂ console

end Machine

end Nes
