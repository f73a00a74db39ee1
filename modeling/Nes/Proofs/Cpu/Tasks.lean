import Mathlib.Logic.Function.Basic
import Nes.Bus.Flat
import Nes.Proofs.Console.Memory
import Nes.Proofs.Cpu.StackMemory

/-!
# Straight code on plain memory

What a piece of straight code works out is a matter of the registers and of some bytes of memory. It
does not matter where the code is, in which mode an instruction finds its operand, or what else the
bus has besides memory. So a piece of code is given here by its tasks, that is by the operations in
it and where their operands are, and what it does is a function of the registers and those bytes.

Memory is plain at an address if a read there gives the byte that was written last and does nothing
else. Every address of a flat bus is plain, and so is the memory of the console, as long as no two
of its addresses reach the same byte.

Results:

* `FlatBus.plainMemory`, `Console.plainMemory`, `Console.plainMemory_ram`: buses with plain memory.
* `Cpu.step_of_next`: a step that has a task to do succeeds, and does it.
* `Cpu.run_of_plans`: **code with tasks to do succeeds, and does them one after another.**
* `Cpu.Does.of_effects`: so what code does is told by the effects of its tasks.
-/

namespace Nes

/-! ## Plain memory -/

/-- The bytes at addresses. -/
abbrev Bytes := UInt16 → UInt8

/-- Some addresses of a bus are plain memory, and `holds` tells which bytes are there: a read gives
the byte that is held and has no effect, and a write replaces that byte and no other. No read of any
address changes a byte that is held. -/
structure Bus.PlainMemory {β : Type} [Bus β] (plain : UInt16 → Prop) (holds : β → Bytes → Prop) :
    Prop where
  read {bus : β} {bytes : Bytes} (h : holds bus bytes) {a : UInt16} (ha : plain a) :
    Bus.read a bus = .ok (bytes a) bus
  write {bus : β} {bytes : Bytes} (h : holds bus bytes) {a : UInt16} (ha : plain a) (v : UInt8) :
    ∃ bus', Bus.write a v bus = .ok () bus' ∧ holds bus' (Function.update bytes a v)
  look {bus : β} {bytes : Bytes} (h : holds bus bytes) (a : UInt16) :
    holds (final (Bus.read a bus)) bytes

/-- Any bus, with no address of it taken for memory. -/
theorem Bus.plainMemory_none (β : Type) [Bus β] :
    Bus.PlainMemory (fun _ => False) fun (_ : β) _ => True where
  read _ _ ha := ha.elim
  write _ _ ha := ha.elim
  look _ _ := trivial

theorem FlatBus.plainMemory (plain : UInt16 → Prop) :
    Bus.PlainMemory plain fun (bus : FlatBus) bytes => ∀ a, plain a → bus.peek a = bytes a where
  read {bus bytes} h {a} ha := by
    rw [← h a ha]
    rfl
  write {bus bytes} h {a} ha v := by
    refine ⟨bus.poke a v, rfl, fun b hb => ?_⟩
    rw [FlatBus.peek_poke, Function.update_apply, ← h b hb]
    exact ite_congr (propext eq_comm) (fun _ => rfl) fun _ => rfl
  look h _ := h

/-- The console's memory and save memory, at addresses none of which reaches the byte of another. -/
theorem Console.plainMemory {plain : UInt16 → Prop}
    (hp : ∀ a, plain a → a < 0x2000 ∨ (0x6000 ≤ a ∧ a < 0x8000))
    (hd : ∀ a b, plain a → plain b → sameRam a b = true → a = b) :
    Bus.PlainMemory plain fun (console : Console) bytes =>
      ∀ a, plain a → console.peek a = bytes a where
  read {console bytes} h {a} ha := by
    rw [← h a ha]
    rcases hp a ha with hram | hsave
    · exact read_of_ram ((Region.ofAddress_eq_ram_iff a).2 hram) console
    · exact read_of_saveRam ((Region.ofAddress_eq_saveRam_iff a).2 hsave) console
  write {console bytes} h {a} ha v := by
    rcases hp a ha with hram | hsave
    · refine ⟨_, write_of_ram ((Region.ofAddress_eq_ram_iff a).2 hram) v console, fun b hb => ?_⟩
      rw [peek_set_ram hram, Function.update_apply, ← h b hb]
      refine ite_congr (propext ⟨fun hs => hd b a hb ha hs.1, ?_⟩) (fun _ => rfl) fun _ => rfl
      rintro rfl
      simp [sameRam, hram]
    · refine ⟨_, write_of_saveRam ((Region.ofAddress_eq_saveRam_iff a).2 hsave) v console,
        fun b hb => ?_⟩
      rw [peek_set_saveRam hsave.1 hsave.2, Function.update_apply, ← h b hb]
      exact ite_congr (propext eq_comm) (fun _ => rfl) fun _ => rfl
  look {console bytes} h a b hb := by
    have hs := read_keepsMemory a console
    rw [← h b hb]
    rcases hp b hb with hram | hsave
    · exact hs.peek_ram hram
    · exact hs.peek_saveRam hsave.1 hsave.2

/-- The console's memory by the addresses that are not mirrors. -/
theorem Console.plainMemory_ram :
    Bus.PlainMemory (· < 0x0800) fun (console : Console) bytes =>
      ∀ a < 0x0800, console.peek a = bytes a := by
  refine Console.plainMemory (fun a ha => ?_) fun a b ha hb hs => ?_
  · exact .inl (UInt16.lt_trans ha (by decide))
  · have ha : a.toNat < 0x0800 := UInt16.lt_iff_toNat_lt.1 ha
    have hb : b.toNat < 0x0800 := UInt16.lt_iff_toNat_lt.1 hb
    simp only [sameRam, Bool.and_eq_true, beq_iff_eq] at hs
    rw [← UInt16.toNat_inj]
    omega

/-! ## What code works on -/

/-- The registers without the program counter. -/
def Registers.withoutPc (r : Registers) : Registers := { r with pc := 0 }

/-- What code works on: the registers, whose program counter does not count, and the bytes of plain
memory. -/
structure Data where
  registers : Registers
  bytes : Bytes

namespace Cpu

variable {β : Type} {holds : β → Bytes → Prop}

/-- The processor has these data. -/
structure Shows (holds : β → Bytes → Prop) (cpu : Cpu β) (data : Data) : Prop where
  registers : cpu.registers.withoutPc = data.registers.withoutPc
  bytes : holds cpu.bus data.bytes

theorem Shows.a_eq {cpu : Cpu β} {data : Data} (h : cpu.Shows holds data) :
    cpu.registers.a = data.registers.a := by
  show cpu.registers.withoutPc.a = data.registers.withoutPc.a
  rw [h.registers]

theorem Shows.p_eq {cpu : Cpu β} {data : Data} (h : cpu.Shows holds data) :
    cpu.registers.p = data.registers.p := by
  show cpu.registers.withoutPc.p = data.registers.withoutPc.p
  rw [h.registers]

theorem Shows.of_update {cpu : Cpu β} {data : Data} (h : cpu.Shows holds data)
    {f : Registers → Registers}
    (hf : ∀ r : Registers, (f r).withoutPc = (f r.withoutPc).withoutPc) (n : Nat) :
    Shows holds ⟨f cpu.registers, n, cpu.bus⟩ { data with registers := f data.registers } := by
  refine ⟨?_, h.bytes⟩
  show (f cpu.registers).withoutPc = (f data.registers).withoutPc
  rw [hf, h.registers, ← hf]

variable [Bus β] {plain : UInt16 → Prop}

/-- Looking for an operand changes no data. -/
theorem seekCongruence_preserves_shows (hm : Bus.PlainMemory plain holds) (data : Data) :
    @SeekCongruence β β _ _ fun _ x _ => Preserves (fun cpu => cpu.Shows holds data) x where
  pure _ _ h := h
  bind := .bind
  getRegisters _ h := h
  move _ _ h := ⟨h.registers, h.bytes⟩
  read address cpu h := by
    have hr : (final (read address cpu)).registers = cpu.registers :=
      keeps_registers_read address cpu
    have hb := hm.look h.bytes address
    refine ⟨by rw [hr, h.registers], ?_⟩
    simp only [read]
    cases hc : Bus.read address cpu.bus <;> rwa [hc] at hb

/-- Where the mode of the next instruction finds the operand, and the processor that is left to
carry the instruction out there. -/
def operandAt? (cpu : Cpu β) : Option (UInt16 × Cpu β) :=
  match cpu.instruction? with
  | none => none
  | some i => match i.mode with
    | .implied | .accumulator => none
    | .address mode => match resolve mode cpu.fetched with
      | .ok address found => some (address, found)
      | .error _ _ => none

/-- The address of the operand of the next instruction. -/
def operandAddress? (cpu : Cpu β) : Option UInt16 := cpu.operandAt?.map Prod.fst

/-- The byte that the next instruction has for an operand. -/
def operand? (cpu : Cpu β) : Option UInt8 :=
  cpu.operandAt?.bind fun (address, found) => match Bus.read address found.bus with
    | .ok operand _ => some operand
    | .error _ _ => none

/-- An instruction whose operand is found is carried out by a processor with the same data. -/
theorem shows_of_operandAt? (hm : Bus.PlainMemory plain holds) {cpu found : Cpu β}
    {i : Instruction} {mode : AddressMode} {address : UInt16} {data : Data}
    (hs : cpu.Shows holds data) (hi : cpu.instruction? = some i) (hmode : i.mode = .address mode)
    (ha : cpu.operandAt? = some (address, found)) :
    resolve mode cpu.fetched = .ok address found ∧ found.Shows holds data := by
  have hseek : SeekCongruence _ := seekCongruence_preserves_shows hm data
  have hfound := hseek.resolve mode cpu.fetched (hseek.fetch cpu hs)
  simp only [operandAt?, hi, hmode] at ha
  cases hr : resolve mode cpu.fetched with
  | error cause next =>
    rw [hr] at ha
    cases ha
  | ok _ next =>
    rw [hr] at ha hfound
    cases ha
    exact ⟨rfl, hfound⟩

/-- The same, for an instruction whose operand is at `address`. -/
theorem shows_of_operandAddress? (hm : Bus.PlainMemory plain holds) {cpu : Cpu β}
    {i : Instruction} {mode : AddressMode} {address : UInt16} {data : Data}
    (hs : cpu.Shows holds data) (hi : cpu.instruction? = some i) (hmode : i.mode = .address mode)
    (ha : cpu.operandAddress? = some address) :
    ∃ found, resolve mode cpu.fetched = .ok address found ∧ found.Shows holds data := by
  obtain ⟨⟨_, found⟩, hat, rfl⟩ := Option.map_eq_some_iff.1 ha
  exact ⟨found, shows_of_operandAt? hm hs hi hmode hat⟩

end Cpu

/-! ## Tasks -/

/-- Something for an instruction to do, wherever it is and in whatever mode. -/
inductive Task where
  /-- Read the byte at an address and use it. -/
  | read (op : ReadOp) (address : UInt16)
  /-- Use an operand, wherever it comes from. -/
  | use (op : ReadOp) (operand : UInt8)
  | write (op : WriteOp) (address : UInt16)
  | modify (op : ModifyOp) (address : UInt16)
  | combined (op : CombinedOp) (address : UInt16)
  /-- Modify the accumulator. -/
  | modifyA (op : ModifyOp)

namespace Task

variable {β : Type} [Bus β]

/-- The next step of the processor has this to do. -/
def Next (cpu : Cpu β) : Task → Prop
  | read op address => ∃ mode, cpu.instruction? = some (.read op mode) ∧
      cpu.operandAddress? = some address
  | use op operand => ∃ mode, cpu.instruction? = some (.read op mode) ∧ cpu.operand? = some operand
  | write op address => ∃ mode, cpu.instruction? = some (.write op mode) ∧
      cpu.operandAddress? = some address
  | modify op address => ∃ mode, cpu.instruction? = some (.modify op mode) ∧
      cpu.operandAddress? = some address
  | combined op address => ∃ mode, cpu.instruction? = some (.combined op mode) ∧
      cpu.operandAddress? = some address
  | modifyA op => cpu.instruction? = some (.modifyA op)

/-- The operand is at a plain address, if it is at an address. -/
def Within (plain : UInt16 → Prop) : Task → Prop
  | read _ address | write _ address | modify _ address | combined _ address => plain address
  | use .. | modifyA _ => True

/-- What is left of the data when the task is done. -/
def effect (data : Data) : Task → Data
  | read op address => { data with registers := op.apply (data.bytes address) data.registers }
  | use op operand => { data with registers := op.apply operand data.registers }
  | write op address =>
    { data with bytes := Function.update data.bytes address (op.value data.registers) }
  | modify op address =>
    let (new, p) := op.apply (data.bytes address) data.registers.p
    ⟨{ data.registers with p }, Function.update data.bytes address new⟩
  | combined op address =>
    let (new, p) := op.first.apply (data.bytes address) data.registers.p
    ⟨op.second.apply new { data.registers with p }, Function.update data.bytes address new⟩
  | modifyA op => { data with registers := op.applyA data.registers }

/-- What is left of the data when some tasks are done, one after another. -/
def effects (tasks : List Task) (data : Data) : Data := tasks.foldl effect data

end Task

/-! ## One step -/

theorem ReadOp.withoutPc_apply (op : ReadOp) (v : UInt8) (r : Registers) :
    (op.apply v r).withoutPc = (op.apply v r.withoutPc).withoutPc := by
  cases op <;> rfl

namespace Cpu

variable {β : Type} [Bus β]

/-- A step succeeds if its instruction does, and counts it. -/
theorem step_of_run {cpu next : Cpu β} {i : Instruction} (h : cpu.instruction? = some i)
    (hr : i.run cpu.fetched = .ok () next) : step cpu = .ok () next.countInstruction := by
  obtain ⟨opcode, hs⟩ := step_of_instruction h
  rw [hs, hr]

section

variable {plain : UInt16 → Prop} {holds : β → Bytes → Prop} (hm : Bus.PlainMemory plain holds)
  {found : Cpu β} {data : Data} (hs : found.Shows holds data) {address : UInt16}

include hm hs

theorem read_of_plain (ha : plain address) :
    read address found = .ok (data.bytes address) found := by
  simp only [read, hm.read hs.bytes ha]

theorem write_of_plain (ha : plain address) (v : UInt8) :
    ∃ next, write address v found = .ok () next ∧
      next.Shows holds { data with bytes := Function.update data.bytes address v } := by
  obtain ⟨bus, hw, hb⟩ := hm.write hs.bytes ha v
  refine ⟨⟨found.registers, found.instructions, bus⟩, ?_, hs.registers, hb⟩
  simp only [write, hw]

theorem modifyAt_of_plain (ha : plain address) (op : ModifyOp) :
    ∃ next, Instruction.modifyAt op address found =
        .ok (op.apply (data.bytes address) data.registers.p).1 next ∧
      next.Shows holds ((Task.modify op address).effect data) := by
  have hp := hs.p_eq
  have hread := read_of_plain hm hs ha
  -- the flags are set before the byte is written
  have hset := hs.of_update (f := fun r =>
    { r with p := (op.apply (data.bytes address) data.registers.p).2 }) (fun _ => rfl)
    found.instructions
  obtain ⟨next, hw, hn⟩ := write_of_plain hm hset ha
    (op.apply (data.bytes address) data.registers.p).1
  refine ⟨next, ?_, hn⟩
  simp only [Instruction.modifyAt, bind, EStateM.bind, hread, getRegisters, hp, update, hw]
  rfl

end

/-- The read of an operand gives what was looked for, and leaves the data as they are. -/
theorem read_of_operand? {plain : UInt16 → Prop} {holds : β → Bytes → Prop}
    (hm : Bus.PlainMemory plain holds) {cpu : Cpu β} {i : Instruction} {mode : AddressMode}
    {operand : UInt8} {data : Data} (hs : cpu.Shows holds data) (hi : cpu.instruction? = some i)
    (hmode : i.mode = .address mode) (ho : cpu.operand? = some operand) :
    ∃ address found next, resolve mode cpu.fetched = .ok address found ∧
      read address found = .ok operand next ∧ next.Shows holds data := by
  obtain ⟨⟨address, found⟩, ha, ho⟩ := Option.bind_eq_some_iff.1 ho
  obtain ⟨hr, hfound⟩ := shows_of_operandAt? hm hs hi hmode ha
  have hlook := hm.look hfound.bytes address
  dsimp only at ho
  cases hread : Bus.read address found.bus with
  | error cause bus =>
    simp only [hread] at ho
    cases ho
  | ok value bus =>
    simp only [hread, Option.some.injEq] at ho
    subst ho
    rw [hread] at hlook
    refine ⟨address, found, ⟨found.registers, found.instructions, bus⟩, hr, ?_,
      hfound.registers, hlook⟩
    simp only [read, hread]

/-- A step leaves what its instruction leaves: the count has no part in the data. -/
theorem shows_of_run {holds : β → Bytes → Prop} {cpu next : Cpu β} {i : Instruction} {data : Data}
    (hi : cpu.instruction? = some i) (hr : i.run cpu.fetched = .ok () next)
    (hd : next.Shows holds data) :
    ∃ next, step cpu = .ok () next ∧ next.Shows holds data :=
  ⟨_, step_of_run hi hr, hd.registers, hd.bytes⟩

/-- A step that has something to do succeeds, and does it. -/
theorem step_of_next {plain : UInt16 → Prop} {holds : β → Bytes → Prop}
    (hm : Bus.PlainMemory plain holds) {task : Task} (hp : task.Within plain) {cpu : Cpu β}
    {data : Data} (hs : cpu.Shows holds data) (hn : task.Next cpu) :
    ∃ next, step cpu = .ok () next ∧ next.Shows holds (task.effect data) := by
  cases task with
  | read op address =>
    obtain ⟨mode, hi, ha⟩ := hn
    obtain ⟨found, hr, hfound⟩ := shows_of_operandAddress? hm hs hi rfl ha
    have hread := read_of_plain hm hfound hp
    refine shows_of_run hi ?_ (hfound.of_update (op.withoutPc_apply (data.bytes address))
      found.instructions)
    simp only [Instruction.run, bind, EStateM.bind, hr, hread, update]
  | use op operand =>
    obtain ⟨mode, hi, ho⟩ := hn
    obtain ⟨address, found, next, hr, hread, hnext⟩ := read_of_operand? hm hs hi rfl ho
    refine shows_of_run hi ?_ (hnext.of_update (op.withoutPc_apply operand) next.instructions)
    simp only [Instruction.run, bind, EStateM.bind, hr, hread, update]
  | write op address =>
    obtain ⟨mode, hi, ha⟩ := hn
    obtain ⟨found, hr, hfound⟩ := shows_of_operandAddress? hm hs hi rfl ha
    have hv : op.value found.registers.withoutPc = op.value data.registers.withoutPc := by
      rw [hfound.registers]
    have hv : op.value found.registers = op.value data.registers := by
      cases op <;> exact hv
    obtain ⟨next, hw, hd⟩ := write_of_plain hm hfound hp (op.value data.registers)
    refine shows_of_run hi ?_ hd
    simp only [Instruction.run, bind, EStateM.bind, hr, getRegisters, hv, hw]
  | modify op address =>
    obtain ⟨mode, hi, ha⟩ := hn
    obtain ⟨found, hr, hfound⟩ := shows_of_operandAddress? hm hs hi rfl ha
    obtain ⟨next, hw, hd⟩ := modifyAt_of_plain hm hfound hp op
    refine shows_of_run hi ?_ hd
    simp only [Instruction.run, bind, EStateM.bind, hr, hw]
    rfl
  | combined op address =>
    obtain ⟨mode, hi, ha⟩ := hn
    obtain ⟨found, hr, hfound⟩ := shows_of_operandAddress? hm hs hi rfl ha
    obtain ⟨next, hw, hd⟩ := modifyAt_of_plain hm hfound hp op.first
    refine shows_of_run hi ?_ (hd.of_update (op.second.withoutPc_apply _) next.instructions)
    simp only [Instruction.run, bind, EStateM.bind, hr, hw, update]
    rfl
  | modifyA op =>
    have hseek : SeekCongruence _ := seekCongruence_preserves_shows hm data
    have hfetched : cpu.fetched.Shows holds data := hseek.fetch cpu hs
    refine shows_of_run hn ?_ (hfetched.of_update (f := op.applyA) (fun _ => rfl)
      cpu.fetched.instructions)
    simp only [Instruction.run, update]

/-! ## Code -/

theorem run_succ (n : Nat) (cpu : Cpu β) :
    run (n + 1) cpu = match step cpu with
      | .ok _ next => run n next
      | .error cause next => .error cause next := by
  simp only [run, bind, EStateM.bind]
  cases step cpu <;> rfl

theorem run_succ_of_step {cpu next : Cpu β} (h : step cpu = .ok () next) (n : Nat) :
    run (n + 1) cpu = run n next := by
  rw [run_succ, h]

theorem run_add_of_run {m : Nat} {cpu next : Cpu β} (h : run m cpu = .ok () next) (n : Nat) :
    run (m + n) cpu = run n next := by
  induction m generalizing cpu with
  | zero =>
    cases h
    rw [Nat.zero_add]
  | succ m ih =>
    rw [run_succ] at h
    rw [Nat.add_right_comm, run_succ]
    cases hs : step cpu with
    | error cause stopped =>
      rw [hs] at h
      cases h
    | ok _ stepped =>
      rw [hs] at h
      exact ih h

/-- The next steps of the processor have these things to do, one after another. -/
def Plans : List Task → Cpu β → Prop
  | [], _ => True
  | task :: rest, cpu => task.Next cpu ∧ Plans rest (final (step cpu))

/-- Code that has things to do runs through, and does them one after another. -/
theorem run_of_plans {plain : UInt16 → Prop} {holds : β → Bytes → Prop}
    (hm : Bus.PlainMemory plain holds) {tasks : List Task} (hp : ∀ task ∈ tasks, task.Within plain)
    {cpu : Cpu β} {data : Data} (hs : cpu.Shows holds data) (hplans : Plans tasks cpu) :
    ∃ last, run tasks.length cpu = .ok () last ∧ last.Shows holds (Task.effects tasks data) := by
  induction tasks generalizing cpu data with
  | nil => exact ⟨cpu, rfl, hs⟩
  | cons task rest ih =>
    obtain ⟨hnext, hrest⟩ := hplans
    rw [List.forall_mem_cons] at hp
    obtain ⟨next, hstep, hn⟩ := step_of_next hm hp.1 hs hnext
    rw [hstep] at hrest
    obtain ⟨last, hrun, hl⟩ := ih hp.2 hn hrest
    exact ⟨last, (run_succ_of_step hstep rest.length).trans hrun, hl⟩

/-- Code that has these things to do runs through, and what it makes of the data is as `post`
tells. -/
def Does (holds : β → Bytes → Prop) (code : List Task) (post : Data → Data → Prop) : Prop :=
  ∀ (cpu : Cpu β) (data : Data), cpu.Shows holds data → Plans code cpu →
    ∃ last data', run code.length cpu = .ok () last ∧ last.Shows holds data' ∧ post data data'

/-- What code does is told by its effects. -/
theorem Does.of_effects {plain : UInt16 → Prop} {holds : β → Bytes → Prop}
    (hm : Bus.PlainMemory plain holds) {code : List Task} (hp : ∀ task ∈ code, task.Within plain)
    {post : Data → Data → Prop} (h : ∀ data, post data (Task.effects code data)) :
    Does holds code post := by
  intro cpu data hs hplans
  obtain ⟨last, hrun, hl⟩ := run_of_plans hm hp hs hplans
  exact ⟨last, _, hrun, hl, h data⟩

end Cpu

end Nes
