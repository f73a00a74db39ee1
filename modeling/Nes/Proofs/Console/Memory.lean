import Nes.Bus.Recorder
import Nes.Proofs.Console.Regions
import Nes.Proofs.Cpu.Simulation

/-!
# What memory holds

Memory is 2048 bytes seen four times over below `$2000`, save memory is seen once from `$6000` to
`$7FFF`, and the program once or twice from `$8000` on. Three rules of decoding give three stores
that have nothing to do with each other or with the devices between them: what each byte holds is
settled by the accesses made so far, as the last write that reached it.

Results:

* `lastWritten_append`, `lastWritten_append_log`: one access more, and more than one.
* `Console.peek_set_ram`, `Console.peek_set_saveRam`: what a store shows afterwards.
* `Console.Holds.read`, `Console.Holds.write`: every access, the copy to object memory among them,
  leaves what the longer list of accesses says.
-/

namespace Nes

/-! ## The last write -/

/-- The byte that an access wrote to one of the given addresses. -/
def Access.written? (reaches : UInt16 → Bool) : Access → Option UInt8
  | .write address value => if reaches address then some value else none
  | .read .. | .readFailed .. | .writeFailed .. => none

/-- The last byte that was written to one of the given addresses, if there is one. -/
def lastWritten (reaches : UInt16 → Bool) (log : List Access) : Option UInt8 :=
  log.reverse.findSome? (Access.written? reaches)

/-- One access more: it counts if it writes there. -/
theorem lastWritten_append (reaches : UInt16 → Bool) (log : List Access) (access : Access) :
    lastWritten reaches (log ++ [access]) =
      (access.written? reaches).or (lastWritten reaches log) := by
  rw [lastWritten, lastWritten, List.reverse_append, List.reverse_singleton,
    List.singleton_append, List.findSome?_cons]
  cases access.written? reaches <;> rfl

theorem lastWritten_append_log (reaches : UInt16 → Bool) (log more : List Access) :
    lastWritten reaches (log ++ more) =
      (lastWritten reaches more).or (lastWritten reaches log) := by
  rw [lastWritten, List.reverse_append, List.findSome?_append]
  rfl

namespace Console

/-- The address reaches the same byte of memory as `a`. -/
def sameRam (a address : UInt16) : Bool :=
  address < 0x2000 && address.toNat % 0x800 == a.toNat % 0x800

theorem lt_ram_of_sameRam {a address : UInt16} (h : sameRam a address = true) :
    address < 0x2000 := by
  simp only [sameRam, Bool.and_eq_true, decide_eq_true_eq] at h
  exact h.1

/-- Memory as some accesses leave it that found it all zero, and the program that was there before
them. -/
structure Holds (program : ProgramRom) (log : List Access) (console : Console) : Prop where
  ram (a : UInt16) (h : a < 0x2000) :
    console.peek a = (lastWritten (sameRam a) log).getD 0
  saveRam (a : UInt16) (h₁ : 0x6000 ≤ a) (h₂ : a < 0x8000) :
    console.peek a = (lastWritten (· == a) log).getD 0
  program : console.program = program

/-- A byte of internal memory, by its place among the 2048. -/
theorem peek_ram {a : UInt16} (h : a < 0x2000) (console : Console) :
    console.peek a = getElem console.ram (ramOffset a) (ramOffset a).isLt := by
  rw [← Region.ofAddress_eq_ram_iff] at h
  simp only [peek, h]

/-- A byte of save memory, by its place. -/
theorem peek_saveRam {a : UInt16} (h₁ : 0x6000 ≤ a) (h₂ : a < 0x8000) (console : Console) :
    console.peek a = getElem console.saveRam (saveRamOffset a) (saveRamOffset a).isLt := by
  have h := (Region.ofAddress_eq_saveRam_iff a).2 ⟨h₁, h₂⟩
  simp only [peek, h]

/-! ## Stores -/

theorem write_of_ram {address : UInt16} (h : Region.ofAddress address = .ram) (value : UInt8)
    (console : Console) :
    write address value console =
      .ok () { console with
        ram := console.ram.set (ramOffset address) value (ramOffset address).isLt } := by
  simp only [write, h]

theorem write_of_saveRam {address : UInt16} (h : Region.ofAddress address = .saveRam)
    (value : UInt8) (console : Console) :
    write address value console =
      .ok () { console with
        saveRam :=
          console.saveRam.set (saveRamOffset address) value (saveRamOffset address).isLt } := by
  simp only [write, h]

/-- A byte that is stored in internal memory is seen at all mirrors of its address and nowhere else.
-/
theorem peek_set_ram {a address : UInt16} (h : address < 0x2000) (value : UInt8)
    (console : Console) :
    peek { console with
        ram := console.ram.set (ramOffset address) value (ramOffset address).isLt } a =
      if sameRam a address ∧ a < 0x2000 then value else console.peek a := by
  by_cases ha : a < 0x2000
  · have hn : (ramOffset address).val = (ramOffset a).val ↔ sameRam a address = true := by
      simp only [ramOffset, Fin.val_ofNat, sameRam, h, decide_true, Bool.true_and, beq_iff_eq]
    rw [peek_ram ha, peek_ram ha]
    simp only [Fin.getElem_fin, Vector.getElem_set, hn, ha, and_true]
  · rw [if_neg fun hc => ha hc.2]
    have hne := mt (Region.ofAddress_eq_ram_iff a).1 ha
    unfold peek
    cases hr : Region.ofAddress a <;> first
      | rfl
      | exact absurd hr hne

/-- A byte that is stored in save memory is seen there and nowhere else. -/
theorem peek_set_saveRam {a address : UInt16} (h₁ : 0x6000 ≤ address) (h₂ : address < 0x8000)
    (value : UInt8) (console : Console) :
    peek { console with
        saveRam :=
          console.saveRam.set (saveRamOffset address) value (saveRamOffset address).isLt } a =
      if address = a then value else console.peek a := by
  by_cases ha : Region.ofAddress a = .saveRam
  · obtain ⟨ha₁, ha₂⟩ := (Region.ofAddress_eq_saveRam_iff a).1 ha
    -- inside the region no two addresses share a byte
    have hn : (saveRamOffset address).val = (saveRamOffset a).val ↔ address = a := by
      rw [← UInt16.toNat_inj]
      simp only [UInt16.lt_iff_toNat_lt, UInt16.le_iff_toNat_le, UInt16.reduceToNat] at *
      simp only [saveRamOffset, Fin.val_ofNat]
      omega
    rw [peek_saveRam ha₁ ha₂, peek_saveRam ha₁ ha₂]
    simp only [Fin.getElem_fin, Vector.getElem_set, hn]
  · have hne : address ≠ a := by
      rintro rfl
      exact ha ((Region.ofAddress_eq_saveRam_iff address).2 ⟨h₁, h₂⟩)
    rw [if_neg hne]
    unfold peek
    cases hr : Region.ofAddress a <;> first
      | rfl
      | exact absurd hr ha

/-! ## Devices leave memory alone -/

/-- The two consoles hold the same in memory, save memory and program memory. -/
structure SameMemory (console console' : Console) : Prop where
  ram : console'.ram = console.ram
  saveRam : console'.saveRam = console.saveRam
  program : console'.program = console.program

theorem SameMemory.refl (console : Console) : SameMemory console console := ⟨rfl, rfl, rfl⟩

theorem SameMemory.trans {a b c : Console} (h : SameMemory a b) (h' : SameMemory b c) :
    SameMemory a c :=
  ⟨h'.ram.trans h.ram, h'.saveRam.trans h.saveRam, h'.program.trans h.program⟩

/-- The action leaves memory as it is, whether it fails or not. -/
def KeepsMemory {ε α : Type} (action : EStateM ε Console α) : Prop :=
  ∀ console, SameMemory console (final (action console))

theorem KeepsMemory.bind {ε α δ : Type} {x : EStateM ε Console α} {f : α → EStateM ε Console δ}
    (hx : KeepsMemory x) (hf : ∀ value, KeepsMemory (f value)) : KeepsMemory (x >>= f) := by
  intro console
  have h := hx console
  show SameMemory console (final (EStateM.bind x f console))
  unfold EStateM.bind
  cases hc : x console with
  | error cause console' =>
    rw [hc] at h
    exact h
  | ok value console' =>
    rw [hc] at h
    exact h.trans (hf value console')

theorem KeepsMemory.forM {ε α : Type} (xs : List α) {f : α → EStateM ε Console Unit}
    (hf : ∀ x, KeepsMemory (f x)) : KeepsMemory (xs.forM f) := by
  induction xs with
  | nil => exact SameMemory.refl
  | cons x xs ih =>
    show KeepsMemory (f x >>= fun _ => xs.forM f)
    exact (hf x).bind fun _ => ih

/-- The picture unit has no way to memory. -/
theorem onPpu_keepsMemory {α : Type} (action : EStateM BusError Ppu α) :
    KeepsMemory (onPpu action) := by
  rintro ⟨ram, saveRam, program, ppu, controllers⟩
  unfold onPpu
  cases h : action ppu <;> simp only [h] <;> exact ⟨rfl, rfl, rfl⟩

theorem readInput_keepsMemory (address : UInt16) (console : Console) :
    SameMemory console (console.readInput address).2 := by
  unfold readInput
  split
  · exact ⟨rfl, rfl, rfl⟩
  · split <;> exact ⟨rfl, rfl, rfl⟩

/-- A read may move the pads and the picture unit, but no byte of memory. -/
theorem read_keepsMemory (address : UInt16) : KeepsMemory (read address) := by
  intro console
  unfold read
  split
  · exact .refl console
  · exact onPpu_keepsMemory _ console
  · exact readInput_keepsMemory address console
  all_goals exact .refl console

/-- The copy to object memory reads and writes 256 times, and none of the writes is to memory. -/
theorem copyPage_keepsMemory (page : UInt8) : KeepsMemory (copyPage page) := by
  refine .forM _ fun i => ?_
  exact (read_keepsMemory _).bind fun value console => ⟨rfl, rfl, rfl⟩

theorem writeOutput_keepsMemory (address : UInt16) (value : UInt8) :
    KeepsMemory (writeOutput address value) := by
  intro console
  unfold writeOutput
  split
  · exact copyPage_keepsMemory value console
  · split <;> exact ⟨rfl, rfl, rfl⟩

/-- What is written elsewhere does not get into memory. -/
theorem write_keepsMemory {address : UInt16} (h₁ : Region.ofAddress address ≠ .ram)
    (h₂ : Region.ofAddress address ≠ .saveRam) (value : UInt8) :
    KeepsMemory (write address value) := by
  intro console
  unfold write
  split
  next h => exact absurd h h₁
  · exact onPpu_keepsMemory _ console
  · exact writeOutput_keepsMemory address value console
  · exact .refl console
  next h => exact absurd h h₂
  · exact .refl console

/-- The same memory shows the same bytes. -/
theorem SameMemory.peek_ram {console console' : Console} (h : SameMemory console console')
    {a : UInt16} (ha : a < 0x2000) : console'.peek a = console.peek a := by
  rw [Console.peek_ram ha, Console.peek_ram ha, h.ram]

theorem SameMemory.peek_saveRam {console console' : Console} (h : SameMemory console console')
    {a : UInt16} (h₁ : 0x6000 ≤ a) (h₂ : a < 0x8000) : console'.peek a = console.peek a := by
  rw [Console.peek_saveRam h₁ h₂, Console.peek_saveRam h₁ h₂, h.saveRam]

/-- A byte of memory changes only when one of its mirrors is written. -/
theorem peek_write_of_not_sameRam {a address : UInt16} (ha : a < 0x2000)
    (h : sameRam a address = false) (value : UInt8) (console : Console) :
    (final (write address value console)).peek a = console.peek a := by
  by_cases hram : Region.ofAddress address = .ram
  · rw [write_of_ram hram]
    have hn : ¬(sameRam a address = true ∧ a < 0x2000) := by
      rw [h]
      exact fun hc => Bool.noConfusion hc.1
    exact (peek_set_ram ((Region.ofAddress_eq_ram_iff address).1 hram) value console).trans
      (if_neg hn)
  · by_cases hsave : Region.ofAddress address = .saveRam
    · obtain ⟨h₁, h₂⟩ := (Region.ofAddress_eq_saveRam_iff address).1 hsave
      have hne : address ≠ a := by
        rintro rfl
        exact hram ((Region.ofAddress_eq_ram_iff address).2 ha)
      rw [write_of_saveRam hsave]
      exact (peek_set_saveRam h₁ h₂ value console).trans (if_neg hne)
    · exact (write_keepsMemory hram hsave value console).peek_ram ha

/-! ## One access -/

variable {program : ProgramRom} {log : List Access} {console console' : Console}

theorem Holds.ram_append (h : Holds program log console) (hr : console'.ram = console.ram)
    {a : UInt16} (ha : a < 0x2000) {access : Access} (hw : access.written? (sameRam a) = none) :
    console'.peek a = (lastWritten (sameRam a) (log ++ [access])).getD 0 := by
  rw [lastWritten_append, hw, Option.none_or, ← h.ram a ha, peek_ram ha, peek_ram ha, hr]

theorem Holds.saveRam_append (h : Holds program log console)
    (hr : console'.saveRam = console.saveRam) {a : UInt16} (h₁ : 0x6000 ≤ a) (h₂ : a < 0x8000)
    {access : Access} (hw : access.written? (· == a) = none) :
    console'.peek a = (lastWritten (· == a) (log ++ [access])).getD 0 := by
  rw [lastWritten_append, hw, Option.none_or, ← h.saveRam a h₁ h₂, peek_saveRam h₁ h₂,
    peek_saveRam h₁ h₂, hr]

/-- An access that leaves memory alone, and writes to none of it, adds nothing. -/
theorem Holds.append_of_same (h : Holds program log console) (hs : SameMemory console console')
    {access : Access} (hram : ∀ a < 0x2000, access.written? (sameRam a) = none)
    (hsave : ∀ a, 0x6000 ≤ a → a < 0x8000 → access.written? (· == a) = none) :
    Holds program (log ++ [access]) console' := by
  refine ⟨fun a ha => ?_, fun a h₁ h₂ => ?_, hs.program.trans h.program⟩
  · exact h.ram_append hs.ram ha (hram a ha)
  · exact h.saveRam_append hs.saveRam h₁ h₂ (hsave a h₁ h₂)

theorem written?_saveRam {address a : UInt16} (h : ¬(0x6000 ≤ address ∧ address < 0x8000))
    (h₁ : 0x6000 ≤ a) (h₂ : a < 0x8000) (value : UInt8) :
    (Access.write address value).written? (· == a) = none := by
  have hne : (address == a) = false := by
    rw [beq_eq_false_iff_ne]
    rintro rfl
    exact h ⟨h₁, h₂⟩
  simp only [Access.written?, hne, Bool.false_eq_true, if_false]

theorem written?_ram {address : UInt16} (h : ¬address < 0x2000) (a : UInt16) (value : UInt8) :
    (Access.write address value).written? (sameRam a) = none := by
  have hne : sameRam a address = false := by
    simp only [sameRam, h, decide_false, Bool.false_and]
  simp only [Access.written?, hne, Bool.false_eq_true, if_false]

theorem not_saveRam_of_ram {address : UInt16} (h : address < 0x2000) :
    ¬(0x6000 ≤ address ∧ address < 0x8000) := by
  simp only [UInt16.lt_iff_toNat_lt, UInt16.le_iff_toNat_le, UInt16.reduceToNat] at *
  omega

/-- A write to internal memory becomes the last one at its address. -/
theorem Holds.write_ram (h : Holds program log console) {address : UInt16}
    (ha : address < 0x2000) (value : UInt8) :
    Holds program (log ++ [.write address value])
      { console with
        ram := console.ram.set (ramOffset address) value (ramOffset address).isLt } := by
  refine ⟨fun a ha' => ?_, fun a h₁ h₂ => ?_, h.program⟩
  · rw [lastWritten_append, peek_set_ram ha, Access.written?, h.ram a ha']
    simp only [ha', and_true]
    split <;> rfl
  · refine h.saveRam_append ?_ h₁ h₂ ?_
    · rfl
    · exact written?_saveRam (not_saveRam_of_ram ha) h₁ h₂ value

/-- A write to save memory becomes the last one at its address. -/
theorem Holds.write_saveRam (h : Holds program log console) {address : UInt16}
    (h₁ : 0x6000 ≤ address) (h₂ : address < 0x8000) (value : UInt8) :
    Holds program (log ++ [.write address value])
      { console with
        saveRam :=
          console.saveRam.set (saveRamOffset address) value (saveRamOffset address).isLt } := by
  have hram : ¬address < 0x2000 := fun ha => not_saveRam_of_ram ha ⟨h₁, h₂⟩
  refine ⟨fun a ha => ?_, fun a ha₁ ha₂ => ?_, h.program⟩
  · refine h.ram_append ?_ ha ?_
    · rfl
    · exact written?_ram hram a value
  · rw [lastWritten_append, peek_set_saveRam h₁ h₂, Access.written?, h.saveRam a ha₁ ha₂]
    simp only [beq_iff_eq]
    split <;> rfl

/-- A read leaves memory as the log has it, also if it is refused. -/
theorem Holds.read (h : Holds program log console) (address : UInt16) :
    match Console.read address console with
    | .ok value console' => Holds program (log ++ [.read address value]) console'
    | .error _ console' => Holds program (log ++ [.readFailed address]) console' := by
  have hs := read_keepsMemory address console
  cases hc : Console.read address console with
  | ok value console' =>
    rw [hc] at hs
    exact h.append_of_same hs (fun _ _ => rfl) (fun _ _ _ => rfl)
  | error cause console' =>
    rw [hc] at hs
    exact h.append_of_same hs (fun _ _ => rfl) (fun _ _ _ => rfl)

/-- **One write**: memory is as the log with that write has it, also if it is refused. -/
theorem Holds.write (h : Holds program log console) (address : UInt16) (value : UInt8) :
    match Console.write address value console with
    | .ok _ console' => Holds program (log ++ [.write address value]) console'
    | .error _ console' => Holds program (log ++ [.writeFailed address value]) console' := by
  by_cases hram : address < 0x2000
  · have hr := (Region.ofAddress_eq_ram_iff address).2 hram
    simp only [Console.write, hr]
    exact h.write_ram hram value
  · by_cases hsave : 0x6000 ≤ address ∧ address < 0x8000
    · have hr := (Region.ofAddress_eq_saveRam_iff address).2 hsave
      simp only [Console.write, hr]
      exact h.write_saveRam hsave.1 hsave.2 value
    · have hs := write_keepsMemory (mt (Region.ofAddress_eq_ram_iff address).1 hram)
        (mt (Region.ofAddress_eq_saveRam_iff address).1 hsave) value console
      cases hc : Console.write address value console with
      | ok _ console' =>
        rw [hc] at hs
        exact h.append_of_same hs (fun a _ => written?_ram hram a value)
          (fun a h₁ h₂ => written?_saveRam hsave h₁ h₂ value)
      | error cause console' =>
        rw [hc] at hs
        exact h.append_of_same hs (fun _ _ => rfl) (fun _ _ _ => rfl)

theorem Holds.of_sameMemory (h : Holds program log console) (hs : SameMemory console console') :
    Holds program log console' := by
  refine ⟨fun a ha => ?_, fun a h₁ h₂ => ?_, hs.program.trans h.program⟩
  · rw [← h.ram a ha, hs.peek_ram ha]
  · rw [← h.saveRam a h₁ h₂, hs.peek_saveRam h₁ h₂]

end Console
end Nes
