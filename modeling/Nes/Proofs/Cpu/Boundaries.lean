import Nes.Bus.Flat
import Nes.Cpu.Disassembly
import Nes.Proofs.Cartridge.Accepted
import Nes.Proofs.Console.Reachable
import Nes.Proofs.Cpu.Rules

/-!
# Where instructions end

How long an instruction is, is said twice: by the modes, which fetch its bytes, and by the opcode
table, which a listing goes by. The two agree for every opcode, so a run without transfers visits
the addresses of the listing, and a transfer goes where its line says.

A line only peeks at the bus. On a bus whose reads have effects a peek may show another byte than a
read gives, and then the line may show another instruction than the one that is carried out.

Results:

* `Runs.goesOn`: where the rule of an instruction leaves the program counter.
* `prints_relative`, `prints_absolute`: the address that a line shows.
* `counters_of_straight`: a run without transfers visits the addresses of the listing.
* `boundaries`: **steps and runs, on any bus.**
-/

namespace Nes

/-! ## Lines -/

namespace Disassembly

variable {β : Type} [Bus β]

/-- The column at which the operand begins. -/
def operandColumn : Nat := 21

/-- The line for the instruction at `address` shows `target` as its operand. -/
def Prints (bus : β) (address target : UInt16) : Prop :=
  ((line bus address).toList.drop operandColumn).take 5 = '$' :: Hex.wordChars target

/-- The addresses of the lines of a listing. -/
def addresses (bus : β) (address : UInt16) : Nat → List UInt16
  | 0 => []
  | n + 1 => address :: addresses bus (next bus address) n

theorem listing_eq_map (bus : β) (address : UInt16) (n : Nat) :
    listing bus address n = (addresses bus address n).map (line bus) := by
  induction n generalizing address with
  | zero => rfl
  | succ n ih => rw [listing, addresses, List.map_cons, ih]

/-- From the operand's column on, a line holds the operand and blanks. -/
theorem drop_line (bus : β) (address : UInt16) :
    ∃ blanks, (line bus address).toList.drop operandColumn =
      operandChars (Opcode.ofByte (Bus.peek bus address)).mode address
        (Bus.peek bus (address + 1)) (Bus.peek bus (address + 2)) ++ blanks := by
  rw [line, String.toList_ofList]
  dsimp only [lineChars]
  generalize Bus.peek bus address = b₀
  have hbytes := length_padTo (length_bytesChars_le (Opcode.ofByte b₀).length b₀
    (Bus.peek bus (address + 1)) (Bus.peek bus (address + 2)))
  have hmnemonic := (Opcode.ofByte b₀).length_mnemonic
  generalize padTo 8 _ = bytes at hbytes ⊢
  generalize (Opcode.ofByte b₀).mnemonic.toList = mnemonic at hmnemonic ⊢
  generalize operandChars _ address _ _ = operand
  have hsplit : '$' :: Hex.wordChars address ++ [' ', ' '] ++ bytes ++ [' ', ' '] ++ mnemonic ++
      ' ' :: operand = ('$' :: Hex.wordChars address ++ [' ', ' '] ++ bytes ++ [' ', ' '] ++
        mnemonic ++ [' ']) ++ operand := by
    simp
  rw [padTo, List.rightpad, hsplit, List.append_assoc _ operand]
  exact ⟨_, List.drop_left' (by simp [hbytes, hmnemonic, operandColumn])⟩

theorem prints_of_operandChars {bus : β} {address target : UInt16} {rest : List Char}
    (h : operandChars (Opcode.ofByte (Bus.peek bus address)).mode address
      (Bus.peek bus (address + 1)) (Bus.peek bus (address + 2)) =
        '$' :: Hex.wordChars target ++ rest) : Prints bus address target := by
  obtain ⟨blanks, hd⟩ := drop_line bus address
  rw [Prints, hd, h, List.append_assoc, List.take_append_of_le_length (by simp)]
  exact List.take_of_length_le (by simp)

variable {bus : β} {address : UInt16} {lo hi : UInt8}

theorem prints_relative (hm : (Opcode.ofByte (Bus.peek bus address)).mode = .address .relative)
    (hlo : Bus.peek bus (address + 1) = lo) :
    Prints bus address (address + 2 + signExtend lo) := by
  have h : operandChars (.address .relative) address lo (Bus.peek bus (address + 2)) =
      '$' :: Hex.wordChars (address + 2 + signExtend lo) ++
        ([' ', '('] ++ distanceChars lo ++ [')']) := by
    simp [operandChars]
  rw [← hm, ← hlo] at h
  rw [← hlo]
  exact prints_of_operandChars h

theorem prints_absolute (hm : (Opcode.ofByte (Bus.peek bus address)).mode = .address .absolute)
    (hlo : Bus.peek bus (address + 1) = lo) (hhi : Bus.peek bus (address + 2) = hi) :
    Prints bus address (word lo hi) := by
  have h : operandChars (.address .absolute) address lo hi =
      '$' :: Hex.wordChars (word lo hi) ++ [] := by
    simp [operandChars]
  rw [← hm, ← hlo, ← hhi] at h
  rw [← hlo, ← hhi]
  exact prints_of_operandChars h

end Disassembly

/-! ## Steps -/

theorem ReadOp.pc_apply (op : ReadOp) (operand : UInt8) (r : Registers) :
    (op.apply operand r).pc = r.pc := by
  cases op <;> rfl

theorem RegisterOp.pc_apply (op : RegisterOp) (r : Registers) : (op.apply r).pc = r.pc := by
  cases op <;> rfl

namespace Instruction

/-- The instruction may lead elsewhere than to the one behind it. -/
def transfers : Instruction → Bool
  | branch _ | jmp _ | jsr | rts | rti | brk => true
  | read .. | write .. | modify .. | modifyA _ | combined .. | register _ | stack _ | nop _ => false

/-- The number of bytes that the instruction takes. -/
def length (i : Instruction) : Nat := (Opcode.instruction i).length

/-- Where the program counter goes from `pc`, given the flags before the instruction and its
accesses behind the opcode. Of instructions that take their target from memory nothing is said. -/
def GoesOn (pc : UInt16) (p : Status) (log : List Access) (after : UInt16) : Instruction → Prop
  | branch condition => ∃ offset, log = [.read (pc + 1) offset] ∧
      after = if condition.holds p then pc + 2 + signExtend offset else pc + 2
  | jmp .absolute | jsr => ∃ lo hi rest,
      log = .read (pc + 1) lo :: .read (pc + 2) hi :: rest ∧ after = word lo hi
  | jmp _ | rts | rti | brk => True
  | i => after = pc + UInt16.ofNat i.length

end Instruction

theorem Runs.goesOn {r after : Registers} {i : Instruction} {log : List Access}
    (h : Runs { r with pc := r.pc + 1 } i log after) : i.GoesOn r.pc r.p log after.pc := by
  have hlength (pc : UInt16) (n : Nat) : pc + 1 + UInt16.ofNat n = pc + UInt16.ofNat (1 + n) := by
    rw [UInt16.ofNat_add, ← UInt16.add_assoc]
    rfl
  have htwo (pc : UInt16) : pc + 1 + 1 = pc + 2 := UInt16.add_assoc pc 1 1
  cases h with
  | read h operand => exact (ReadOp.pc_apply _ _ _).trans (hlength _ _)
  | write h => exact hlength _ _
  | modify h old => exact hlength _ _
  | modifyA => rfl
  | combined h old => exact (ReadOp.pc_apply _ _ _).trans (hlength _ _)
  | register => exact RegisterOp.pc_apply _ _
  | pha | php | pla | plp => rfl
  | branch h =>
    cases h with
    | relative byte =>
      refine ⟨byte, rfl, ?_⟩
      dsimp only
      rw [htwo]
  | jmp h =>
    cases h with
    | absolute lo hi => exact ⟨lo, hi, [], by rw [htwo], rfl⟩
    | _ => trivial
  | jsr h =>
    cases h with
    | absolute lo hi => exact ⟨lo, hi, _, by rw [htwo]; rfl, rfl⟩
  | rts | rti | brk => trivial
  | nop h => rcases h with rfl | rfl <;> rfl
  | skip h => exact hlength _ _

theorem Instruction.GoesOn.of_not_transfers {i : Instruction} {pc after : UInt16} {p : Status}
    {log : List Access} (h : i.GoesOn pc p log after) (hi : i.transfers = false) :
    after = pc + UInt16.ofNat i.length := by
  cases i with
  | branch _ | jmp _ | jsr | rts | rti | brk => cases hi
  | read | write | modify | modifyA | combined | register | stack | nop => exact h

namespace Cpu

open Disassembly (Prints addresses line listing)

variable {β : Type} [Bus β]

/-! ## Lines and targets -/

/-- Every byte that is read is the one that the bus shows. -/
def Shown (bus : β) (log : List Access) : Prop :=
  ∀ address byte, Access.read address byte ∈ log → Bus.peek bus address = byte

/-- The line for an instruction shows its target: where a branch goes if it is taken, and where a
jump has gone. -/
def ShowsTarget (bus : β) (pc : UInt16) (log : List Access) (after : UInt16) : Instruction → Prop
  | .branch _ => ∀ offset, log = [.read (pc + 1) offset] →
    Prints bus pc (pc + 2 + signExtend offset)
  | .jmp .absolute | .jsr => Prints bus pc after
  | _ => True

theorem showsTarget_of_shown {bus : β} {pc after : UInt16} {p : Status} {opcode : UInt8}
    {i : Instruction} {log : List Access} (ho : Opcode.ofByte opcode = .instruction i)
    (hg : i.GoesOn pc p log after) (hs : Shown bus (.read pc opcode :: log)) :
    ShowsTarget bus pc log after i := by
  -- the line goes by the opcode that the bus shows, the step by the one that it reads
  have hop : Opcode.ofByte (Bus.peek bus pc) = .instruction i := by
    rw [hs pc opcode (by simp), ho]
  have absolute (hm : i.mode = .address .absolute)
      (hg : ∃ lo hi rest, log = .read (pc + 1) lo :: .read (pc + 2) hi :: rest ∧
        after = word lo hi) : Prints bus pc after := by
    obtain ⟨lo, hi, rest, rfl, rfl⟩ := hg
    exact Disassembly.prints_absolute (by rw [hop]; exact hm) (hs _ lo (by simp))
      (hs _ hi (by simp))
  cases i with
  | branch condition =>
    rintro offset rfl
    exact Disassembly.prints_relative (by rw [hop]; rfl) (hs _ offset (by simp))
  | jmp mode =>
    cases mode with
    | absolute => exact absolute rfl hg
    | _ => trivial
  | jsr => exact absolute rfl hg
  | _ => trivial

/-! ## Runs -/

/-- The program counter before each of `n` steps. -/
def counters : Nat → Cpu β → List UInt16
  | 0, _ => []
  | n + 1, cpu => cpu.registers.pc :: counters n (final (step cpu))

/-- The next `n` steps succeed, none of them transfers control, and each reads its opcode as `bus`
shows it. -/
def Straight (bus : β) : Nat → Cpu β → Prop
  | 0, _ => True
  | n + 1, cpu => ∃ next i log, step cpu = .ok () next ∧
      cpu.accesses .step = .read cpu.registers.pc (Bus.peek bus cpu.registers.pc) :: log ∧
      Opcode.ofByte (Bus.peek bus cpu.registers.pc) = .instruction i ∧ i.transfers = false ∧
      Straight bus n next

theorem pc_of_straight {bus : β} {cpu next : Cpu β} {i : Instruction} {log : List Access}
    (h : step cpu = .ok () next)
    (hl : cpu.accesses .step = .read cpu.registers.pc (Bus.peek bus cpu.registers.pc) :: log)
    (ho : Opcode.ofByte (Bus.peek bus cpu.registers.pc) = .instruction i)
    (hi : i.transfers = false) :
    next.registers.pc = Disassembly.next bus cpu.registers.pc := by
  obtain ⟨opcode, i', log', ho', hl', hr⟩ := runs_of_step h
  rw [hl] at hl'
  cases hl'
  rw [ho] at ho'
  cases ho'
  rw [hr.goesOn.of_not_transfers hi, Disassembly.next, ho]
  rfl

theorem counters_of_straight {bus : β} {n : Nat} {cpu : Cpu β} (h : Straight bus n cpu) :
    counters n cpu = addresses bus cpu.registers.pc n := by
  induction n generalizing cpu with
  | zero => rfl
  | succ n ih =>
    obtain ⟨next, i, log, hs, hl, ho, hi, hn⟩ := h
    -- one step goes where the listing goes; the rest of the run starts there
    rw [counters, addresses, hs, ← pc_of_straight hs hl ho hi, ← ih hn]
    rfl

/-- **Main theorem.** On any bus a step that succeeds leaves the program counter behind its
instruction, by the length that the opcode table gives, or at the target of a transfer; a branch is
taken if its condition holds. On a bus that shows the bytes that the step reads, the line for the
instruction shows the target. A run without transfers whose opcodes are read as a bus shows them
visits the addresses of the listing of that bus. -/
theorem boundaries :
    (∀ cpu next : Cpu β, step cpu = .ok () next → ∃ opcode i log,
      Opcode.ofByte opcode = .instruction i ∧
      cpu.accesses .step = .read cpu.registers.pc opcode :: log ∧
      i.GoesOn cpu.registers.pc cpu.registers.p log next.registers.pc ∧
      (Shown cpu.bus (cpu.accesses .step) →
        ShowsTarget cpu.bus cpu.registers.pc log next.registers.pc i)) ∧
    ∀ (bus : β) (n : Nat) (cpu : Cpu β), Straight bus n cpu →
      counters n cpu = addresses bus cpu.registers.pc n ∧
      listing bus cpu.registers.pc n = (counters n cpu).map (line bus) := by
  refine ⟨fun cpu next h => ?_, fun bus n cpu h => ?_⟩
  · obtain ⟨opcode, i, log, ho, hl, hr⟩ := runs_of_step h
    refine ⟨opcode, i, log, ho, hl, hr.goesOn, fun hs => ?_⟩
    rw [hl] at hs
    exact showsTarget_of_shown ho hr.goesOn hs
  · have hc := counters_of_straight h
    exact ⟨hc, by rw [hc, Disassembly.listing_eq_map]⟩

theorem step_lda_filled (r : Registers) (n : Nat) :
    accesses ⟨r, n, FlatBus.filled 0xA5⟩ .step =
        [.read r.pc 0xA5, .read (r.pc + 1) 0xA5, .read 0x00A5 0xA5] ∧
      step ⟨r, n, FlatBus.filled 0xA5⟩ =
        .ok () ⟨{ r with pc := r.pc + 1 + 1 }.setA 0xA5, n + 1, .filled 0xA5⟩ := by
  have hop : Opcode.ofByte 0xA5 = .instruction (.read .lda .zeroPage) := by decide
  constructor
  · simp only [accesses, perform, step_eq, fetch_eq, watched, Bus.read, FlatBus.peek_filled, hop]
    simp only [Instruction.run, resolve, fetch, bind, EStateM.bind, pure, EStateM.pure,
      getRegisters, update, read, Bus.read, FlatBus.peek_filled]
    rfl
  · simp only [step_eq, fetch_eq, Bus.read, FlatBus.peek_filled, hop]
    simp only [Instruction.run, resolve, fetch, bind, EStateM.bind, pure, EStateM.pure,
      getRegisters, update, read, Bus.read, FlatBus.peek_filled]
    rfl

theorem straight_lda_filled (r : Registers) (n k : Nat) :
    Straight (FlatBus.filled 0xA5) k ⟨r, n, FlatBus.filled 0xA5⟩ := by
  induction k generalizing r n with
  | zero => trivial
  | succ k ih =>
    obtain ⟨hl, hs⟩ := step_lda_filled r n
    have hp : Bus.peek (FlatBus.filled 0xA5) r.pc = 0xA5 := FlatBus.peek_filled 0xA5 r.pc
    refine ⟨_, .read .lda .zeroPage, [.read (r.pc + 1) 0xA5, .read 0x00A5 0xA5], hs, ?_, ?_, rfl,
      ih _ _⟩
    · rw [hp]
      exact hl
    · rw [hp]
      decide

theorem step_bpl_filled (r : Registers) (n : Nat) (h : r.p.negative = false) :
    accesses ⟨r, n, FlatBus.filled 0x10⟩ .step = [.read r.pc 0x10, .read (r.pc + 1) 0x10] ∧
      step ⟨r, n, FlatBus.filled 0x10⟩ =
        .ok () ⟨{ r with pc := r.pc + 1 + 1 + signExtend 0x10 }, n + 1, .filled 0x10⟩ := by
  have hop : Opcode.ofByte 0x10 = .instruction (.branch .bpl) := by decide
  have hc : Condition.bpl.holds r.p = true := by rw [Condition.holds, h]; rfl
  constructor
  · simp only [accesses, perform, step_eq, fetch_eq, watched, Bus.read, FlatBus.peek_filled, hop]
    simp only [Instruction.run, resolve, fetch, bind, EStateM.bind, pure, EStateM.pure,
      getRegisters, jump, update, read, Bus.read, FlatBus.peek_filled, hc, if_true]
    rfl
  · simp only [step_eq, fetch_eq, Bus.read, FlatBus.peek_filled, hop]
    simp only [Instruction.run, resolve, fetch, bind, EStateM.bind, pure, EStateM.pure,
      getRegisters, jump, update, read, Bus.read, FlatBus.peek_filled, hc, if_true]
    rfl

theorem boundaries_wrapping :
    Prints (FlatBus.filled 0x10) 0xFFF0 0x0002 ∧
      counters 3 ⟨{ pc := 0xFFFF }, 0, FlatBus.filled 0xA5⟩ =
        addresses (FlatBus.filled 0xA5) 0xFFFF 3 := by
  constructor
  · obtain ⟨hl, hs⟩ := step_bpl_filled { pc := 0xFFF0 } 0 rfl
    obtain ⟨opcode, i, log, ho, hl', -, ht⟩ := boundaries.1 _ _ hs
    have hshown : Shown (FlatBus.filled 0x10) [.read 0xFFF0 0x10, .read (0xFFF0 + 1) 0x10] := by
      intro address byte hm
      have hb : byte = 0x10 := by
        simp only [List.mem_cons, Access.read.injEq, List.not_mem_nil, or_false] at hm
        exact hm.elim And.right And.right
      rw [hb]
      exact FlatBus.peek_filled 0x10 address
    rw [hl] at hl' ht
    cases hl'
    cases ho
    exact ht hshown 0x10 rfl
  · exact (boundaries.2 _ 3 _ (straight_lda_filled _ _ _)).1

/-! ## A bus that shows something else -/

/-- A console whose data register points at the palette, where there is the opcode of `JSR`. -/
def paletteConsole : Console :=
  (Console.ofCartridge (.filled 0x48)).after [.write 0x2006 0x3F, .write 0x2006 0x00,
    .write 0x2007 0x20, .write 0x2006 0x3F, .write 0x2006 0x00]

/-- A processor whose next opcode comes from the data register. -/
def jumpFromPalette : Cpu Console := ⟨{ pc := 0x3FFF }, 0, paletteConsole⟩

theorem step_jumpFromPalette :
    (match step jumpFromPalette with
      | .ok _ next => next.registers.pc == 0x0000
      | .error .. => false) = true := by
  decide +kernel

/-- A peek at the data register shows what was read last, not what a read would give, so a jump
can go where its line does not say. -/
theorem not_prints_jump :
    ¬∀ cpu next : Cpu Console, step cpu = .ok () next → cpu.instruction? = some .jsr →
      Prints cpu.bus cpu.registers.pc next.registers.pc := by
  intro h
  have hi : jumpFromPalette.instruction? = some .jsr := by decide +kernel
  have hl : ¬Prints paletteConsole 0x3FFF 0x0000 := by
    unfold Prints
    decide +kernel
  have hpc := step_jumpFromPalette
  cases hs : step jumpFromPalette with
  | error cause next =>
    rw [hs] at hpc
    cases hpc
  | ok _ next =>
    rw [hs] at hpc
    have hn := h jumpFromPalette next hs hi
    rw [beq_iff_eq.1 hpc] at hn
    exact hl hn

end Cpu

end Nes
