import Nes.Console
import Nes.Proofs.Controllers.Strobe
import Nes.Proofs.Graphics.Memory

/-!
# Reachable consoles

Whatever happens to a console is an access, a reset, or something that happens to one of its devices
outside of the processor's control. A history is a list of such events. Seen from the picture unit
it is a history of that unit, the copy to object memory included, so what is known of a picture unit
holds in every console.

Results:

* `ppuReached_event`, `ppuReached_after`: the picture unit of a console has a history of its own.
* `Reaches.holds`: what graphics memory holds in any console with a cartridge.
-/

namespace Nes

namespace Console

/-! ## Events -/

/-- Something that happens to a console. -/
inductive Event where
  | read (address : UInt16)
  | write (address : UInt16) (value : UInt8)
  | reset
  | ppu (event : Ppu.Event)
  | controllers (event : Controllers.Event)
deriving DecidableEq

/-- The console after an event, which may have failed. -/
def Event.apply : Event → Console → Console
  | read address, console => final (Console.read address console)
  | write address value, console => final (Console.write address value console)
  | reset, console => console.reset
  | ppu event, console => console.mapPpu event.apply
  | controllers event, console => console.mapControllers event.apply

/-- The console after some events. -/
def after (events : List Event) (console : Console) : Console :=
  events.foldl (fun console event => event.apply console) console

/-- Some events lead from one console to the other. -/
def Reaches (start console : Console) : Prop := ∃ events, console = after events start

theorem Reaches.refl (console : Console) : Reaches console console := ⟨[], rfl⟩

/-! ## The picture unit -/

/-- The picture unit of the console is one that some events lead to. -/
def PpuReached (start : Ppu) (console : Console) : Prop :=
  ∃ events, console.ppu = Ppu.after events start

variable {start : Ppu} {console : Console}

theorem PpuReached.event (h : PpuReached start console) (event : Ppu.Event) {console' : Console}
    (he : console'.ppu = event.apply console.ppu) : PpuReached start console' := by
  obtain ⟨events, hp⟩ := h
  refine ⟨events ++ [event], ?_⟩
  rw [he, hp, Ppu.after, Ppu.after, List.foldl_append]
  rfl

theorem PpuReached.of_eq (h : PpuReached start console) {console' : Console}
    (he : console'.ppu = console.ppu) : PpuReached start console' := by
  obtain ⟨events, hp⟩ := h
  exact ⟨events, he.trans hp⟩

theorem ppu_final_onPpu {α : Type} (action : EStateM BusError Ppu α) (console : Console) :
    (final (onPpu action console)).ppu = final (action console.ppu) := by
  unfold onPpu
  cases h : action console.ppu <;> simp only [h] <;> rfl

theorem ppu_readInput (address : UInt16) (console : Console) :
    (console.readInput address).2.ppu = console.ppu := by
  unfold readInput
  split
  · rfl
  · split <;> rfl

theorem preserves_read (address : UInt16) : Preserves (PpuReached start) (read address) := by
  intro console h
  unfold read
  split
  · exact h
  · exact h.event (.read address) (ppu_final_onPpu _ console)
  · exact h.of_eq (ppu_readInput address console)
  all_goals exact h

theorem preserves_copyPage (page : UInt8) : Preserves (PpuReached start) (copyPage page) := by
  refine .forM (fun i => ?_) _
  -- a byte is copied by a read like any other, which may reach the unit, and a store
  exact .bind (preserves_read _) fun value console h => h.event (.writeOam value) rfl

theorem preserves_write (address : UInt16) (value : UInt8) :
    Preserves (PpuReached start) (write address value) := by
  intro console h
  unfold write
  split
  · exact h
  · exact h.event (.write address value) (ppu_final_onPpu _ console)
  · unfold writeOutput
    split
    · exact preserves_copyPage value console h
    · split <;> exact h
  all_goals exact h

theorem ppuReached_event (h : PpuReached start console) (event : Event) :
    PpuReached start (event.apply console) := by
  cases event with
  | read address => exact preserves_read address console h
  | write address value => exact preserves_write address value console h
  | reset => exact h.event .reset rfl
  | ppu event => exact h.event event rfl
  | controllers event => exact h.of_eq rfl

theorem ppuReached_after (h : PpuReached start console) (events : List Event) :
    PpuReached start (after events console) := by
  induction events generalizing console with
  | nil => exact h
  | cons event rest ih => exact ih (ppuReached_event h event)

/-- Graphics memory of a console with a cartridge is what some stores have made of it. -/
theorem Reaches.holds {cartridge : Cartridge} (h : Reaches (ofCartridge cartridge) console) :
    ∃ log, Ppu.Holds cartridge.graphics cartridge.mirroring log console.ppu := by
  obtain ⟨events, rfl⟩ := h
  have hs : PpuReached (ofCartridge cartridge).ppu (ofCartridge cartridge) := ⟨[], rfl⟩
  obtain ⟨ppuEvents, hp⟩ := ppuReached_after hs events
  rw [hp]
  exact ⟨_, Ppu.holds_ofPattern.after ppuEvents⟩

end Console

end Nes
