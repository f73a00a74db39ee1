import Nes.Proofs.Cpu.Signs
import Nes.Proofs.Cpu.Tasks

/-!
# Undocumented instructions do what documented ones do

An undocumented instruction stands for a few documented ones, or differs from them in a flag. The
two are compared as code: one processor has the instruction to carry out and the other what it
stands for, both with the same registers and the same bytes, and neither needs to be where the other
is. On memory that is plain where the operand is they run through and agree at the end.

Results:

* `Cpu.Replaces.of_effects`: code is compared by what it does to the data.
* `Cpu.replaces_combined`: a byte that is modified and then read.
* `undocumented_of_plain`: **what each of the twelve instructions stands for.**
-/

namespace Nes

/-- The flags after a register has been compared with `v`. -/
def Status.compared (p : Status) (register v : UInt8) : Status :=
  { p with
    carry := v ≤ register
    zero := register = v
    negative := (register - v).toNat.testBit 7 }

theorem Registers.compare_eq (r : Registers) (register v : UInt8) :
    r.compare register v = { r with p := r.p.compared register v } := by
  have hz : (register - v == 0) = decide (register = v) := by
    rw [Bool.eq_iff_iff, beq_iff_eq, decide_eq_true_iff, UInt8.sub_eq_iff_eq_add, UInt8.zero_add]
  have hn : (register - v &&& 0x80 != 0) = (register - v).toNat.testBit 7 :=
    Status.bit_eq_testBit _ 7
  simp only [compare, Status.setResult, Status.compared, hz, hn]

namespace Cpu

variable {β : Type} [Bus β] {plain : UInt16 → Prop} (holds : β → Bytes → Prop)

/-- On the same data the first code does what the second does, and then `adjust`. -/
def Replaces (code documented : List Task) (adjust : Data → Data) : Prop :=
  ∀ (cpu other : Cpu β) (data : Data), cpu.Shows holds data → other.Shows holds data →
    Plans code cpu → Plans documented other →
    ∃ last last' data', run code.length cpu = .ok () last ∧
      run documented.length other = .ok () last' ∧ last'.Shows holds data' ∧
      last.Shows holds (adjust data')

variable {holds} (hm : Bus.PlainMemory plain holds)

include hm

/-- Code is compared by what it does to the data. -/
theorem Replaces.of_effects {code documented : List Task} {adjust : Data → Data}
    (hc : ∀ task ∈ code, task.Within plain) (hd : ∀ task ∈ documented, task.Within plain)
    (h : ∀ data, Task.effects code data = adjust (Task.effects documented data)) :
    Replaces holds code documented adjust := by
  intro cpu other data hs hs' hplans hplans'
  obtain ⟨last, hrun, hl⟩ := run_of_plans hm hc hs hplans
  obtain ⟨last', hrun', hl'⟩ := run_of_plans hm hd hs' hplans'
  exact ⟨last, last', _, hrun, hrun', hl', h data ▸ hl⟩

/-- An operation that modifies a byte and reads the result is the two operations in a row. -/
theorem replaces_combined {e : UInt16} (he : plain e) (op : CombinedOp) :
    Replaces holds [.combined op e] [.modify op.first e, .read op.second e] id := by
  refine .of_effects hm (by simpa [Task.Within] using he) (by simpa [Task.Within] using he)
    fun data => ?_
  simp only [Task.effects, List.foldl, Task.effect, Function.update_self, id]

end Cpu

/-! ## The twelve instructions -/

open Cpu (Does Replaces)

/-- What the undocumented instructions stand for, on memory that holds bytes and with the operand
`v` or an operand at `e`. -/
structure Undocumented {β : Type} [Bus β] (holds : β → Bytes → Prop) (e : UInt16) (v : UInt8) :
    Prop where
  slo : Replaces holds [.combined .slo e] [.modify .asl e, .read .ora e] id
  rla : Replaces holds [.combined .rla e] [.modify .rol e, .read .and e] id
  sre : Replaces holds [.combined .sre e] [.modify .lsr e, .read .eor e] id
  rra : Replaces holds [.combined .rra e] [.modify .ror e, .read .adc e] id
  dcp : Replaces holds [.combined .dcp e] [.modify .dec e, .read .cmp e] id
  isb : Replaces holds [.combined .isb e] [.modify .inc e, .read .sbc e] id
  lax : Replaces holds [.read .lax e] [.read .lda e, .read .ldx e] id
  alr : Replaces holds [.use .alr v] [.use .and v, .modifyA .lsr] id
  anc : Replaces holds [.use .anc v] [.use .and v] fun data =>
    { data with registers.p.carry := data.registers.p.negative }
  arr : Replaces holds [.use .arr v] [.use .and v, .modifyA .ror] fun data =>
    { data with
      registers.p.carry := data.registers.a.toNat.testBit 6
      registers.p.overflow :=
        data.registers.a.toNat.testBit 6 ^^ data.registers.a.toNat.testBit 5 }
  /-- What it is to compare the accumulator, which `axs` is said to do with another number. -/
  cmp : Does holds [.use .cmp v] fun data data' =>
    data' = { data with registers.p := data.registers.p.compared data.registers.a v }
  axs : Does holds [.use .axs v] fun data data' =>
    data' = { data with
      registers.p := data.registers.p.compared (data.registers.a &&& data.registers.x) v
      registers.x := (data.registers.a &&& data.registers.x) - v }
  sax : Does holds [.write .sax e] fun data data' =>
    data' = { data with
      bytes := Function.update data.bytes e (data.registers.a &&& data.registers.x) }

/-- **Main theorem.** On any bus, with the operand in plain memory, the undocumented instructions do
what they stand for. -/
theorem undocumented_of_plain {β : Type} [Bus β] {plain : UInt16 → Prop}
    {holds : β → Bytes → Prop} (hm : Bus.PlainMemory plain holds) {e : UInt16} (he : plain e)
    (v : UInt8) : Undocumented holds e v where
  slo := Cpu.replaces_combined hm he .slo
  rla := Cpu.replaces_combined hm he .rla
  sre := Cpu.replaces_combined hm he .sre
  rra := Cpu.replaces_combined hm he .rra
  dcp := Cpu.replaces_combined hm he .dcp
  isb := Cpu.replaces_combined hm he .isb
  lax := .of_effects hm (by simpa [Task.Within] using he) (by simpa [Task.Within] using he)
    fun _ => rfl
  alr := .of_effects hm (by simp [Task.Within]) (by simp [Task.Within]) fun _ => rfl
  anc := .of_effects hm (by simp [Task.Within]) (by simp [Task.Within]) fun _ => rfl
  arr := by
    refine .of_effects hm (by simp [Task.Within]) (by simp [Task.Within]) fun data => ?_
    have h6 (a : UInt8) : (a &&& 0x40 != 0) = a.toNat.testBit 6 := Status.bit_eq_testBit a 6
    have h5 (a : UInt8) : (a &&& 0x20 != 0) = a.toNat.testBit 5 := Status.bit_eq_testBit a 5
    simp only [← h6, ← h5]
    rfl
  cmp := by
    refine .of_effects hm (by simp [Task.Within]) fun data => ?_
    rw [← Registers.compare_eq]
    rfl
  axs := by
    refine .of_effects hm (by simp [Task.Within]) fun data => ?_
    have h := data.registers.compare_eq (data.registers.a &&& data.registers.x) v
    exact congrArg (fun r : Registers =>
      { data with registers := { r with x := (data.registers.a &&& data.registers.x) - v } }) h
  sax := .of_effects hm (by simpa [Task.Within] using he) fun _ => rfl

/-! ## A rotation and an addition -/

open Cpu (Plans)

/-- `RRA $10`, and behind it `ROR $10` and `ADC $10`. -/
def rotateAddCode : FlatBus :=
  (({} : FlatBus).load 0 [0x67, 0x10, 0x66, 0x10, 0x65, 0x10]).poke 0x0010 0x81

/-- A processor that comes to some of that code. -/
def rotatingAt (pc : UInt16) : Cpu FlatBus :=
  ⟨{ a := 0x50, pc, p := { carry := true } }, 0, rotateAddCode⟩

theorem shows_rotatingAt (pc : UInt16) :
    (rotatingAt pc).Shows (fun bus bytes => ∀ a, True → bus.peek a = bytes a)
      ⟨(rotatingAt 0).registers, rotateAddCode.peek⟩ :=
  ⟨rfl, fun _ _ => rfl⟩

/-- The instructions in the console's memory, and some of that code on a flat bus. -/
theorem undocumented_console_rotateAddCode :
    (∀ e < 0x0800, ∀ v, Undocumented
      (fun (console : Console) bytes => ∀ a < 0x0800, console.peek a = bytes a) e v) ∧
    ∃ last last', Cpu.run 1 (rotatingAt 0x0000) = .ok () last ∧
      Cpu.run 2 (rotatingAt 0x0002) = .ok () last' ∧
      last.registers.withoutPc = last'.registers.withoutPc ∧ last.bus.peek = last'.bus.peek := by
  refine ⟨fun e he v => undocumented_of_plain Console.plainMemory_ram he v, ?_⟩
  have h := (undocumented_of_plain (FlatBus.plainMemory fun _ => True) (e := 0x0010) trivial 0).rra
  have hplans : Plans [.combined .rra 0x0010] (rotatingAt 0x0000) :=
    ⟨⟨.zeroPage, by decide +kernel, by decide +kernel⟩, trivial⟩
  have hplans' : Plans [.modify .ror 0x0010, .read .adc 0x0010] (rotatingAt 0x0002) :=
    ⟨⟨.zeroPage, by decide +kernel, by decide +kernel⟩,
      ⟨.zeroPage, by decide +kernel, by decide +kernel⟩, trivial⟩
  obtain ⟨last, last', data, hrun, hrun', hs', hs⟩ :=
    h _ _ _ (shows_rotatingAt 0x0000) (shows_rotatingAt 0x0002) hplans hplans'
  exact ⟨last, last', hrun, hrun', hs.registers.trans hs'.registers.symm,
    funext fun a => (hs.bytes a trivial).trans (hs'.bytes a trivial).symm⟩

end Nes
