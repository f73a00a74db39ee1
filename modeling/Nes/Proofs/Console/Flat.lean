import Nes.Bus.Flat
import Nes.Proofs.Cartridge.Accepted
import Nes.Proofs.Console.Memory
import Nes.Proofs.Cpu.Confined

/-!
# The console as plain memory

Below `$0800`, in save memory and in the program the console answers as plain memory does, as long
as nothing writes to the program. A processor that keeps to these addresses cannot tell the console
from a flat bus with the same bytes there: on both it makes the same accesses and comes to the same
end. So what is tried on a flat bus tells what happens on the console.

Results:

* `Console.simulation_flat`: one access, with the bytes that it leaves.
* `Console.sameBytes_flatten`: every console has a flat bus beside it.
* `Console.agree_flat`: **a run that keeps to plain memory is the same on both buses.**
-/

namespace Nes.Console

/-- Reading the address gives a byte that is kept there. The copies of memory above `$0800` are left
out: on a flat bus they are bytes of their own. -/
def PlainRead (address : UInt16) : Prop := address < 0x800 ∨ 0x6000 ≤ address

/-- Writing to the address replaces the byte that is kept there. -/
def PlainWrite (address : UInt16) : Prop :=
  address < 0x800 ∨ (0x6000 ≤ address ∧ address < 0x8000)

/-- The two buses keep the same bytes wherever a byte can be read. -/
def SameBytes (console : Console) (flat : FlatBus) : Prop :=
  ∀ a, PlainRead a → console.peek a = flat.peek a

/-! ## One access -/

theorem lt_ram_of_plain {address : UInt16} (h : address < 0x800) : address < 0x2000 := by
  simp only [UInt16.lt_iff_toNat_lt, UInt16.reduceToNat] at *
  omega

theorem read_of_plain {address : UInt16} (h : PlainRead address) (console : Console) :
    read address console = .ok (console.peek address) console := by
  rcases h with hram | h
  · exact read_of_ram ((Region.ofAddress_eq_ram_iff address).2 (lt_ram_of_plain hram)) console
  · by_cases hp : 0x8000 ≤ address
    · exact read_of_program ((Region.ofAddress_eq_program_iff address).2 hp) console
    · have hs : address < 0x8000 := UInt16.not_le.1 hp
      exact read_of_saveRam ((Region.ofAddress_eq_saveRam_iff address).2 ⟨h, hs⟩) console

/-- Among the addresses of plain memory none reaches a byte of another. -/
theorem sameRam_iff_of_plain {a address : UInt16} (ha : PlainRead a) (h : address < 0x800) :
    (sameRam a address = true ∧ a < 0x2000) ↔ address = a := by
  simp only [PlainRead, sameRam, Bool.and_eq_true, decide_eq_true_eq, beq_iff_eq,
    ← UInt16.toNat_inj, UInt16.lt_iff_toNat_lt, UInt16.le_iff_toNat_le, UInt16.reduceToNat] at *
  omega

theorem write_of_plain {address : UInt16} (h : PlainWrite address) (value : UInt8)
    (console : Console) :
    ∃ console', write address value console = .ok () console' ∧
      ∀ a, PlainRead a → console'.peek a = if address = a then value else console.peek a := by
  rcases h with hram | ⟨h₁, h₂⟩
  · have h := lt_ram_of_plain hram
    refine ⟨_, write_of_ram ((Region.ofAddress_eq_ram_iff address).2 h) value console, ?_⟩
    intro a ha
    rw [peek_set_ram h]
    simp only [sameRam_iff_of_plain ha hram]
  · refine ⟨_, write_of_saveRam ((Region.ofAddress_eq_saveRam_iff address).2 ⟨h₁, h₂⟩) value
      console, ?_⟩
    exact fun a _ => peek_set_saveRam h₁ h₂ value console

theorem simulation_flat : Bus.SimulationWithin PlainRead PlainWrite SameBytes where
  read address hr := by
    intro console flat h
    show Agree SameBytes (Console.read address console) (.ok (flat.peek address) flat)
    rw [read_of_plain hr, h address hr]
    exact .ok _ h
  write address value hw := by
    intro console flat h
    obtain ⟨console', hc, hp⟩ := write_of_plain hw value console
    show Agree SameBytes (Console.write address value console) (.ok () (flat.poke address value))
    rw [hc]
    refine .ok () fun a ha => ?_
    rw [hp a ha, FlatBus.peek_poke, h a ha]

/-! ## Runs -/

/-- The flat bus that keeps at every address what the console shows there. -/
def flatten (console : Console) : FlatBus :=
  ⟨.ofFn fun i => console.peek (UInt16.ofNat i)⟩

theorem sameBytes_flatten (console : Console) : SameBytes console console.flatten := by
  intro a _
  simp [flatten, FlatBus.peek]

/-- A processor whose run on the console reads and writes plain memory only makes the same accesses
on a flat bus with the same bytes, with the same end, registers and count of instructions, and the
buses keep the same bytes. -/
theorem agree_flat (registers : Registers) (instructions : Nat) {console : Console}
    {flat : FlatBus} (h : SameBytes console flat) (calls : List Cpu.Call)
    (hw : ∀ access ∈ Cpu.accessesAll ⟨registers, instructions, console⟩ calls,
      access.Within PlainRead PlainWrite) :
    Cpu.accessesAll ⟨registers, instructions, flat⟩ calls =
        Cpu.accessesAll ⟨registers, instructions, console⟩ calls ∧
      Agree (fun x y => x.registers = y.registers ∧ x.instructions = y.instructions ∧
          SameBytes x.bus y.bus)
        (Cpu.performAll calls ⟨registers, instructions, console⟩)
        (Cpu.performAll calls ⟨registers, instructions, flat⟩) :=
  Cpu.agree_of_confined simulation_flat rfl rfl h calls hw

theorem read_ofCartridge_filled (value : UInt8) {address : UInt16} (h : 0x8000 ≤ address) :
    read address (ofCartridge (.filled value)) = .ok value (ofCartridge (.filled value)) := by
  have hr := (Region.ofAddress_eq_program_iff address).2 h
  rw [read_of_program hr]
  simp only [peek, hr]
  exact congrArg (EStateM.Result.ok · _) (Cartridge.read_filled value address)

/-- A processor in a program of nothing but `PHA`. -/
def pushing : Cpu Console := ⟨{ pc := 0x8000 }, 0, ofCartridge (.filled 0x48)⟩

theorem accessesAll_pushing :
    pushing.accessesAll [.step] = [.read 0x8000 0x48, .write 0x01FD 0x00] := by
  have hread : Bus.read 0x8000 (ofCartridge (.filled 0x48)) =
      .ok 0x48 (ofCartridge (.filled 0x48)) := read_ofCartridge_filled 0x48 (by decide)
  have hfetch : Cpu.fetch pushing.watched =
      .ok 0x48 ⟨{ pc := 0x8001 }, 0, pushing.bus, #[.read 0x8000 0x48]⟩ := by
    simp only [Cpu.fetch, bind, EStateM.bind, Cpu.getRegisters, Cpu.watched, Cpu.read_recorder,
      pushing, hread]
    rfl
  have hop : Opcode.ofByte 0x48 = .instruction (.stack .pha) := by decide
  have hsp : Cpu.stackAddress 0xFD = 0x01FD := by decide
  have hwrite : ∃ console, Bus.write 0x01FD 0x00 pushing.bus = .ok () console :=
    ⟨_, write_of_ram ((Region.ofAddress_eq_ram_iff _).2 (by decide)) _ _⟩
  obtain ⟨console, hwrite⟩ := hwrite
  simp only [Cpu.accessesAll, Cpu.performAll_cons, Cpu.perform, Cpu.step_eq, hfetch, hop,
    Instruction.run, Instruction.runStack, bind, EStateM.bind, Cpu.getRegisters, Cpu.push,
    Cpu.write_recorder, hsp, hwrite]
  rfl

theorem agree_flat_push :
    SameBytes pushing.bus pushing.bus.flatten ∧
      Cpu.accessesAll ⟨pushing.registers, pushing.instructions, pushing.bus.flatten⟩ [.step] =
        [.read 0x8000 0x48, .write 0x01FD 0x00] := by
  have hs := sameBytes_flatten pushing.bus
  refine ⟨hs, ?_⟩
  rw [← accessesAll_pushing]
  refine (agree_flat pushing.registers pushing.instructions hs [.step] fun access hm => ?_).1
  have hm : access ∈ pushing.accessesAll [.step] := hm
  rw [accessesAll_pushing, List.mem_cons, List.mem_singleton] at hm
  rcases hm with rfl | rfl
  · exact .inr (by decide)
  · exact .inl (by decide)

end Nes.Console
