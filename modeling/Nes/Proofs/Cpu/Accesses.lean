import Nes.Proofs.Cpu.Rules
import Nes.Proofs.Cpu.StackMemory

/-!
# The accesses of a step

On a console an access is never idle: reading a status ends vertical blank, reading a pad moves it
on. So it matters which accesses a step makes, and in which order. It reads the opcode, then what
the mode needs to find the operand, then it meets the operand once, as the instruction is one that
reads, writes or modifies it, or not at all. The stack and the vector of a software interrupt come
last. A refused access is the last one.

Results:

* `Runs.makes`: the rules make no other accesses than these.
* `Runs.succeeded`: every access of a rule goes through.
* `accesses_step`: **the accesses of every step, on any bus.**
-/

namespace Nes

open Cpu (stackAddress)

/-! ## The accesses of an instruction -/

/-- The accesses of an instruction behind its opcode if none is refused: those that find the
operand, and then one read, one write, or one read and one write of the operand's address. Jumps
and instructions without effect leave that address alone. Operations on the stack meet the page of
the stack only. `r` are the registers with the opcode read. -/
def Instruction.Makes (r : Registers) (log : List Access) : Instruction → Prop
  | read _ mode => ∃ finding address operand, Names r mode finding address ∧
      log = finding ++ [.read address operand]
  | write _ mode => ∃ finding address value, Names r mode finding address ∧
      log = finding ++ [.write address value]
  | modify _ mode | combined _ mode => ∃ finding address old new, Names r mode finding address ∧
      log = finding ++ [.read address old, .write address new]
  | jmp mode | nop (.address mode) => ∃ address, Names r mode log address
  | branch _ => ∃ address, Names r .relative log address
  | modifyA _ | register _ | nop .implied | nop .accumulator => log = []
  | stack .pha | stack .php => ∃ value, log = [.write (stackAddress r.sp) value]
  | stack .pla | stack .plp => ∃ value, log = [.read (stackAddress (r.sp + 1)) value]
  | jsr => ∃ finding target hi lo, Names r .absolute finding target ∧
      log = finding ++ [.write (stackAddress r.sp) hi, .write (stackAddress (r.sp - 1)) lo]
  | rts => ∃ lo hi,
      log = [.read (stackAddress (r.sp + 1)) lo, .read (stackAddress (r.sp + 2)) hi]
  | rti => ∃ status lo hi,
      log = [.read (stackAddress (r.sp + 1)) status, .read (stackAddress (r.sp + 2)) lo,
        .read (stackAddress (r.sp + 3)) hi]
  | brk => ∃ hi lo status lo' hi',
      log = [.write (stackAddress r.sp) hi, .write (stackAddress (r.sp - 1)) lo,
        .write (stackAddress (r.sp - 2)) status, .read 0xFFFE lo', .read 0xFFFF hi']

variable {r after : Registers} {i : Instruction} {log : List Access}

theorem Runs.makes (h : Runs r i log after) : i.Makes r log := by
  cases h with
  | read h operand => exact ⟨_, _, operand, h, rfl⟩
  | write h => exact ⟨_, _, _, h, rfl⟩
  | modify h old => exact ⟨_, _, old, _, h, rfl⟩
  | modifyA => rfl
  | combined h old => exact ⟨_, _, old, _, h, rfl⟩
  | register => rfl
  | pha => exact ⟨_, rfl⟩
  | php => exact ⟨_, rfl⟩
  | pla value => exact ⟨value, rfl⟩
  | plp status => exact ⟨status, rfl⟩
  | branch h => exact ⟨_, h⟩
  | jmp h => exact ⟨_, h⟩
  | jsr h => exact ⟨_, _, _, _, h, rfl⟩
  | rts lo hi => exact ⟨lo, hi, rfl⟩
  | rti status lo hi => exact ⟨status, lo, hi, rfl⟩
  | brk lo hi => exact ⟨_, _, _, lo, hi, rfl⟩
  | nop h => rcases h with rfl | rfl <;> rfl
  | skip h => exact ⟨_, h⟩

/-! ## Refused accesses are the last -/

theorem Names.succeeded {mode : AddressMode} {address : UInt16} (h : Names r mode log address) :
    ∀ access ∈ log, access.succeeded = true := by
  cases h <;> simp [Access.succeeded]

theorem Runs.succeeded (h : Runs r i log after) : ∀ access ∈ log, access.succeeded = true := by
  cases h with
  | read h operand => exact List.forall_mem_append.2 ⟨h.succeeded, by simp [Access.succeeded]⟩
  | write h => exact List.forall_mem_append.2 ⟨h.succeeded, by simp [Access.succeeded]⟩
  | modify h old => exact List.forall_mem_append.2 ⟨h.succeeded, by simp [Access.succeeded]⟩
  | combined h old => exact List.forall_mem_append.2 ⟨h.succeeded, by simp [Access.succeeded]⟩
  | jsr h => exact List.forall_mem_append.2 ⟨h.succeeded, by simp [Access.succeeded]⟩
  | branch h => exact h.succeeded
  | jmp h => exact h.succeeded
  | skip h => exact h.succeeded
  | _ => simp [Access.succeeded]

theorem succeeded_of_brokenOff (h : BrokenOff (fun log => ∃ after, Runs r i log after) log) :
    ∀ access ∈ log.dropLast, access.succeeded = true := by
  obtain ⟨done, access, rest, ⟨after, hr⟩, rfl⟩ := h
  rw [List.dropLast_concat]
  intro other ho
  exact hr.succeeded other (List.mem_append_left _ ho)

namespace Cpu

variable {β : Type} [Bus β]

theorem succeeded_dropLast (cpu : Cpu β) :
    ∀ access ∈ (cpu.accesses .step).dropLast, access.succeeded = true := by
  have h := stepped_step cpu
  generalize cpu.accesses .step = log at h ⊢
  generalize verdict (step cpu) = v at h
  cases h with
  | done ho h =>
    intro access ha
    rcases List.mem_cons.1 (List.dropLast_subset _ ha) with rfl | ha
    · rfl
    · exact h.succeeded access ha
  | fetch cause => simp
  | unsupported ho => simp
  | bus ho h cause =>
    rw [List.dropLast_cons_of_ne_nil h.ne_nil]
    intro access ha
    rcases List.mem_cons.1 ha with rfl | ha
    · rfl
    · exact succeeded_of_brokenOff h access ha

theorem stackAddress_bounds (offset : UInt8) :
    0x0100 ≤ stackAddress offset ∧ stackAddress offset ≤ 0x01FF := by
  have h := offset.toNat_lt
  simp only [UInt16.le_iff_toNat_le, UInt16.reduceToNat, stackAddress_toNat]
  omega

/-- **Main theorem.** On any bus a step reads its opcode and then makes the accesses of its
instruction, in their order, up to the first that the bus refuses. An opcode that cannot be read and
one that is not supported end it at once. -/
theorem accesses_step (cpu : Cpu β) :
    let pc := cpu.registers.pc
    let r : Registers := { cpu.registers with pc := pc + 1 }
    (match step cpu with
      | .ok _ _ => ∃ opcode i log, Opcode.ofByte opcode = .instruction i ∧ i.Makes r log ∧
          cpu.accesses .step = .read pc opcode :: log
      | .error (.fetch _ _) _ => cpu.accesses .step = [.readFailed pc]
      | .error (.unsupportedOpcode opcode op _) _ =>
          (∃ mode, Opcode.ofByte opcode = .unstable op mode) ∧
            cpu.accesses .step = [.read pc opcode]
      | .error (.bus opcode _ _) _ => ∃ i log, Opcode.ofByte opcode = .instruction i ∧
          BrokenOff (i.Makes r) log ∧ cpu.accesses .step = .read pc opcode :: log
      | .error (.interrupt _ _) _ => False) ∧
    (∀ access ∈ (cpu.accesses .step).dropLast, access.succeeded = true) ∧
    ∀ offset, 0x0100 ≤ stackAddress offset ∧ stackAddress offset ≤ 0x01FF := by
  intro pc r
  refine ⟨?_, cpu.succeeded_dropLast, stackAddress_bounds⟩
  cases hs : step cpu with
  | ok _ next =>
    obtain ⟨opcode, i, log, ho, hl, hr⟩ := runs_of_step hs
    exact ⟨opcode, i, log, ho, hr.makes, hl⟩
  | error cause next =>
    have h := stepped_step cpu
    rw [hs] at h
    generalize cpu.accesses .step = log at h ⊢
    cases h with
    | fetch => rfl
    | unsupported ho => exact ⟨⟨_, ho⟩, rfl⟩
    | bus ho h =>
      refine ⟨_, _, ho, h.mono ?_, rfl⟩
      rintro log ⟨after, hr⟩
      exact hr.makes

end Cpu

end Nes
