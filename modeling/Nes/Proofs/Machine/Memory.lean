import Nes.Proofs.Cartridge.Accepted
import Nes.Proofs.Console.Memory
import Nes.Proofs.Machine.Chronicle

/-!
# The memory of the machine

Whatever is done with a machine, its memory holds what has been written to it over the bus, its
save memory too, and its program memory holds what the image says. The accesses of a history are
those of the processor, which a recorder lists, and those made from outside.

Results:

* `holds_of_turns`: one moment of a chronicle.
* `holds_after`: any history.
* `shows_after`: what the addresses of memory, save memory and program memory read as after any
  history of a machine with an accepted image.
-/

namespace Nes.Machine

open Console (Holds Moment SameMemory Tells accessesIn accessesIn_cons)

/-! ## Histories -/

variable {program : ProgramRom} {before : List Access} {log : List Moment} {console next : Console}

theorem holds_of_turns {moment : Moment} (h : Holds program before console)
    (hm : moment.Turns console next) : Holds program (before ++ moment.access?.toList) next := by
  have stays {next : Console} (hs : SameMemory console next) :
      Holds program (before ++ []) next := by
    rw [List.append_nil]
    exact h.of_sameMemory hs
  cases moment with
  | access access =>
    cases access with
    | read address value =>
      have hr := h.read address
      rwa [hm] at hr
    | readFailed address =>
      obtain ⟨cause, hm⟩ := hm
      have hr := h.read address
      rwa [hm] at hr
    | write address value =>
      have hw := h.write address value
      rwa [hm] at hw
    | writeFailed address value =>
      obtain ⟨cause, hm⟩ := hm
      have hw := h.write address value
      rwa [hm] at hw
  | reset =>
    cases hm
    exact stays ⟨rfl, rfl, rfl⟩
  | blank =>
    cases hm
    exact stays ⟨rfl, rfl, rfl⟩
  | press socket button pressed =>
    cases hm
    exact stays ⟨rfl, rfl, rfl⟩

theorem holds_of_tells (ht : Tells console log next) (h : Holds program before console) :
    Holds program (before ++ accessesIn log) next := by
  induction ht generalizing before with
  | nil =>
    show Holds program (before ++ []) _
    rwa [List.append_nil]
  | cons hm _ ih =>
    rw [accessesIn_cons, ← List.append_assoc]
    exact ih (holds_of_turns h hm)

theorem holds_after {machine : Machine} (h : Holds program before machine.cpu.bus)
    (calls : List Call) :
    Holds program (before ++ machine.history calls) (machine.after calls).cpu.bus := by
  rw [← accessesIn_chronicle]
  exact holds_of_tells (machine.tells_after calls) h

/-! ## What addresses read as -/

/-- Reading the address gives the byte and changes nothing, and looking at it shows the byte. -/
def Shows (machine : Machine) (address : UInt16) (value : UInt8) : Prop :=
  onConsole (Bus.read address) machine = .ok value machine ∧
    Bus.peek machine.cpu.bus address = value

theorem shows_peek (machine : Machine) {address : UInt16}
    (h : Console.read address machine.cpu.bus =
      .ok (machine.cpu.bus.peek address) machine.cpu.bus) :
    machine.Shows address (machine.cpu.bus.peek address) := by
  refine ⟨?_, rfl⟩
  simp only [onConsole, Bus.read, h]

theorem holds_powerOn (cartridge : Cartridge) (config : MachineConfig) :
    Holds cartridge.program [] (powerOn cartridge config).cpu.bus := by
  refine ⟨fun a ha => ?_, fun a h₁ h₂ => ?_, rfl⟩
  · rw [Console.peek_ram ha]
    exact Vector.getElem_replicate _
  · rw [Console.peek_saveRam h₁ h₂]
    exact Vector.getElem_replicate _

/-- A call that does not run the machine and does not write leaves memory alone. -/
theorem sameMemory_perform (machine : Machine) {call : Call} (hrun : call.isRun = false)
    (hwrite : ∀ address value, call ≠ .write address value) :
    SameMemory machine.cpu.bus (machine.perform call).2.cpu.bus := by
  cases call with
  | step => cases hrun
  | nmi => cases hrun
  | frame => cases hrun
  | reset =>
    rw [perform, state_of, reset_eq]
    exact ⟨rfl, rfl, rfl⟩
  | press socket button pressed => exact ⟨rfl, rfl, rfl⟩
  | setRegisters registers => exact .refl _
  | read address =>
    rw [perform, state_of, final_onConsole]
    exact Console.read_keepsMemory address machine.cpu.bus
  | write address value => exact absurd rfl (hwrite address value)
  | peek address => exact .refl _
  | vector address => exact .refl _
  | disassemble address => exact .refl _

/-- **Main theorem.** After any history of a machine with an accepted image, an address of memory
reads as the last byte written to any of its mirrors, an address of save memory as the last byte
written to it, both as zero before, and an address of program memory as the byte of the image that
belongs there. Reading changes nothing, and only runs and writes change memory. -/
theorem shows_after (image : Array UInt8) (cartridge : Cartridge)
    (h : Cartridge.ofImage image = .ok cartridge) (config : MachineConfig) (calls : List Call) :
    let machine := (powerOn cartridge config).after calls
    let log := (powerOn cartridge config).history calls
    (∀ a : UInt16, a < 0x2000 → machine.Shows a ((lastWritten
      (fun b => b < 0x2000 && b.toNat % 0x800 == a.toNat % 0x800) log).getD 0)) ∧
    (∀ a : UInt16, 0x6000 ≤ a → a < 0x8000 →
      machine.Shows a ((lastWritten (fun b => b == a) log).getD 0)) ∧
    (∀ a : UInt16, 0x8000 ≤ a → ∃ value, machine.Shows a value ∧
      image[16 + (if cartridge.header.hasTrainer then 512 else 0) +
        (a.toNat - 0x8000) % (cartridge.header.programBanks.toNat * 0x4000)]? = some value) ∧
    ∀ call : Call, call.isRun = false → (∀ address value, call ≠ .write address value) →
      SameMemory machine.cpu.bus (machine.perform call).2.cpu.bus := by
  intro machine log
  have hm : Holds cartridge.program log machine.cpu.bus := holds_after (holds_powerOn ..) calls
  refine ⟨fun a ha => ?_, fun a h₁ h₂ => ?_, fun a ha => ?_, fun call hrun hwrite => ?_⟩
  · have hr := (Region.ofAddress_eq_ram_iff a).2 ha
    have hs := machine.shows_peek (Console.read_of_ram hr _)
    rw [hm.ram a ha] at hs
    exact hs
  · have hr := (Region.ofAddress_eq_saveRam_iff a).2 ⟨h₁, h₂⟩
    have hs := machine.shows_peek (Console.read_of_saveRam hr _)
    rw [hm.saveRam a h₁ h₂] at hs
    exact hs
  · have hr := (Region.ofAddress_eq_program_iff a).2 ha
    refine ⟨_, machine.shows_peek (Console.read_of_program hr _), ?_⟩
    rw [Cartridge.getElem?_image h ha, ← hm.program]
    simp only [Console.peek, hr]
  · exact machine.sameMemory_perform hrun hwrite

theorem shows_after_mirrored :
    Cartridge.ofImage (Cartridge.filledImage 0x48) = .ok (.filled 0x48) ∧
      ((powerOn (.filled 0x48) {}).after [.reset, .write 0x0801 0x07]).Shows 0x1001 0x07 := by
  have h := Cartridge.ofImage_filledImage 0x48
  have hs := (shows_after _ _ h {} [.reset, .write 0x0801 0x07]).1 0x1001 (by decide)
  have hlog : (powerOn (.filled 0x48) {}).history [.reset, .write 0x0801 0x07] =
      (powerOn (.filled 0x48) {}).accesses .reset ++ [.write 0x0801 0x07] := rfl
  rw [hlog, lastWritten_append] at hs
  exact ⟨h, hs⟩

end Nes.Machine
